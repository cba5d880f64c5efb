import Oun.Verification.Lists.Entries
import Oun.Verification.Offers.Told
import Oun.Verification.Winner.Agreement

/-! # The pages of different users agree

The author of a task sees chips and notifications, the providers see their offers and their
verdicts, the detail screen asks questions of its own. All go back to the same documents. -/

namespace Oun

open Firestore Regex Numeral Transition

/-! ## Entries of one task -/

theorem id_of_taskDoc {s : Store} {id : DocId} {t : Doc Task} (h : taskDoc s id = some t) :
    t.id = id := by
  simpa using List.find?_some h

theorem ofSnapshot_eq_iff {s : Store} {t : Doc Task} (ht : t ∈ s.tasks.docs) (price : Text)
    (id : DocId) :
    Tile.ofSnapshot price (taskDoc s id) = .ok (.ofDoc price t) ↔ id = t.id := by
  constructor
  · intro h
    cases hdoc : taskDoc s id with
    | none => simp [hdoc, Tile.ofSnapshot] at h
    | some d =>
        rw [hdoc, Tile.ofSnapshot, Except.ok.injEq] at h
        rw [← id_of_taskDoc hdoc, Tile.id_eq h]
  · rintro rfl
    exact Tile.ofSnapshot_taskDoc ht price

theorem Status.type_injective : Function.Injective Status.type := by
  intro status status' h
  cases status <;> cases status' <;> first | rfl | cases h

/-- The entry of the task on the notifications screen. -/
def noticeOf (t : Doc Task) (status : Status) : Except StateError (Tile × ℕ) :=
  .ok (.ofDoc (text ['3', '3']) t, status.type)

theorem notice_eq_iff {s : Store} {t : Doc Task} (ht : t ∈ s.tasks.docs) (n : Notif)
    (status : Status) :
    notice n (taskDoc s n.task) = noticeOf t status ↔ n.task = t.id ∧ n.status = status := by
  constructor
  · intro h
    cases hdoc : taskDoc s n.task with
    | none => simp [hdoc, notice, Tile.ofSnapshot, noticeOf] at h
    | some d =>
        rw [hdoc] at h
        obtain ⟨htile, htype⟩ := Prod.mk.inj (Except.ok.inj h)
        exact ⟨by rw [← id_of_taskDoc hdoc, Tile.id_eq htile], Status.type_injective htype⟩
  · rintro ⟨hid, rfl⟩
    exact notice_taskDoc ht n hid

/-! ## Pages -/

/-- The notifications screen of a user. -/
def World.notices (w : World) (uid : Uid) : List (Except StateError (Tile × ℕ)) :=
  notifi (w.store.notifs.whereEqualTo Notif.user uid) w.store

/-- My Offers of a user. -/
def World.offersOf (w : World) (uid : Uid) : List (Except StateError Tile) :=
  myOffers (w.store.offers.whereEqualTo Offer.provider uid) w.store

variable {w : World} {t : Doc Task} (ht : t ∈ w.store.tasks.docs)

include ht

theorem mem_notices {uid : Uid} {status : Status} :
    noticeOf t status ∈ w.notices uid ↔ ∃ d ∈ w.store.notifs.docs,
      d.data.user = uid ∧ d.data.task = t.id ∧ d.data.status = status := by
  simp only [World.notices, notifi, List.mem_map, Collection.mem_whereEqualTo, notice_eq_iff ht]
  grind

theorem count_notices (uid : Uid) (status : Status) :
    (w.notices uid).count (noticeOf t status) = w.store.notifs.count fun n =>
      decide (n.task = t.id) && decide (n.status = status) && decide (n.user = uid) := by
  rw [← Collection.countP_whereEqualTo, World.notices, notifi, List.count, List.countP_map]
  refine List.countP_congr fun d _ => ?_
  simp only [Function.comp_apply, beq_iff_eq, Bool.and_eq_true, decide_eq_true_eq,
    notice_eq_iff ht]

theorem mem_offersOf {uid : Uid} :
    .ok (.ofDoc [] t) ∈ w.offersOf uid ↔ ∃ d ∈ w.store.offers.docs,
      d.data.provider = uid ∧ d.data.task = t.id := by
  simp only [World.offersOf, myOffers, List.mem_map, Collection.mem_whereEqualTo,
    ofSnapshot_eq_iff ht, and_assoc]

/-! ## The author's pages -/

/-- Only the author is told of offers. -/
theorem count_added (hw : Reachable app w) (uid : Uid) :
    (w.notices uid).count (noticeOf t .added) =
      if t.data.author = uid then w.store.notifs.count (addedOn t.id) else 0 := by
  rw [count_notices ht, Collection.count, Collection.count]
  have hauthor : ∀ d ∈ w.store.notifs.docs, d.data.task = t.id → d.data.status = .added →
      d.data.user = t.data.author := by
    intro d hd htask hstatus
    exact ((provenance hw).added hd hstatus).unique ⟨t, ht, htask.symm, rfl⟩
  split
  · rename_i huid
    subst huid
    refine List.countP_congr fun d hd => ?_
    simp only [addedOn, Bool.and_eq_true, decide_eq_true_eq, and_iff_left_iff_imp, and_imp]
    exact hauthor d hd
  · rename_i hne
    refine List.countP_eq_zero.mpr fun d hd => ?_
    simp only [Bool.and_eq_true, decide_eq_true_eq, not_and, and_imp]
    rintro htask hstatus rfl
    exact hne (hauthor d hd htask hstatus).symm

omit ht in
theorem offersCount_eq (documents : List (Doc Offer)) (taskId : DocId) :
    offersCount documents taskId = documents.countP fun d => decide (d.data.task = taskId) := by
  rw [offersCount, foldl_count, Nat.zero_add]

omit ht in
/-- The chip shows as many offers as the detail screen lists. -/
theorem chips_author (w : World) (t : Doc Task) : ∃ shown,
    chips t.data.author t w.store = some shown ∧
      shown.count = ((getOffers (.ofDoc t)).build w.store).length ∧
      (shown.isaccepted = true ↔ 0 < winners w.store t.id) := by
  refine ⟨_, by rw [chips, if_pos rfl], ?_, listIsAccepted_iff_winners (.refl _) t.id⟩
  show offersCount _ t.id = _
  rw [build_getOffers, List.length_map, offersCount_eq]
  refine List.countP_eq_length.mpr fun d hd => ?_
  simpa using ((Collection.mem_whereEqualTo _ _ _ _).mp hd).2

theorem winners_pos_iff :
    0 < winners w.store t.id ↔ ∃ uid, noticeOf t .accepted ∈ w.notices uid := by
  simp only [winners, Collection.count_pos, mem_notices ht, acceptedOn, Bool.and_eq_true,
    decide_eq_true_eq]
  grind

/-! ## The providers' pages -/

omit ht in
/-- At rest, an offer that is gone has left a rejection behind. -/
theorem exists_rejected (hw : Reachable app w) (hquiet : w.Quiet) {d : Doc Offer}
    (hsub : Submitted w.log d.id d.data) (hgone : d ∉ w.store.offers.docs) :
    ∃ n ∈ w.store.notifs.docs, n.data.user = d.data.provider ∧ n.data.task = d.data.task ∧
      n.data.status = .rejected := by
  have hdeleted : 0 < w.logged (Call.deletes d.id) := by
    simpa [mem_offers_iff hw, hsub, Nat.pos_iff_ne_zero] using hgone
  rw [← hquiet.tells_eq_deletes hw hsub] at hdeleted
  obtain ⟨e, he, htells⟩ := logged_pos.mp hdeleted
  have hnotifs : 0 < w.store.notifs.count (notified .rejected d.data.task d.data.provider) := by
    rw [notifs_eq_logged hw]
    exact logged_pos.mpr ⟨e, he, (Bool.and_eq_true _ _ ▸ htells).2⟩
  obtain ⟨n, hn, hnotified⟩ := (Collection.count_pos _ _).mp hnotifs
  simp only [notified, Bool.and_eq_true, decide_eq_true_eq] at hnotified
  exact ⟨n, hn, hnotified.1.2, hnotified.1.1, hnotified.2⟩

/-! ## Agreement -/

/-- What the pages of all users show of the task. -/
structure PagesAgree (w : World) (t : Doc Task) : Prop where
  chips : ∃ shown, chips t.data.author t w.store = some shown ∧
    shown.count = ((getOffers (.ofDoc t)).build w.store).length ∧
    (shown.isaccepted = true ↔ ∃ uid, noticeOf t .accepted ∈ w.notices uid)
  added : ∀ uid, (w.notices uid).count (noticeOf t .added) =
    if t.data.author = uid then w.logged (Call.onOffer (onTask t.id)) else 0
  asked : ∀ uid documents, documents.Perm (w.store.offers.whereEqualTo Offer.task t.id) →
    (hasOffered documents uid = true ↔ .ok (.ofDoc [] t) ∉ w.offersOf uid)
  offered : ∀ uid, HasSubmitted w.log uid t.id ↔
    .ok (.ofDoc [] t) ∈ w.offersOf uid ∨ noticeOf t .rejected ∈ w.notices uid

omit ht in
/-- When no write is on its way, the author has one notification for every offer ever stored, a
provider may offer exactly if My Offers does not show the task, and whoever has offered finds the
task there or has been told of a rejection. -/
theorem pages_agree (hw : Reachable app w) (hquiet : w.Quiet) (ht : t ∈ w.store.tasks.docs) :
    PagesAgree w t where
  chips := by
    obtain ⟨shown, hshown, hcount, haccepted⟩ := chips_author w t
    exact ⟨shown, hshown, hcount, haccepted.trans (winners_pos_iff ht)⟩
  added uid := by
    rw [count_added ht hw, notifs_eq_logged hw, hquiet.logged_eq_issued, hquiet.logged_eq_issued,
      issued_added hw]
  asked uid documents hdocuments := by
    rw [hasOffered_perm hdocuments, hasOffered_eq, beq_iff_eq, List.countP_eq_zero,
      mem_offersOf ht]
    simp only [Collection.mem_whereEqualTo, decide_eq_true_eq]
    grind
  offered uid := by
    rw [mem_offersOf ht, mem_notices ht]
    constructor
    · rintro ⟨e, he, o, hwrite, htask, hprovider⟩
      by_cases hlive : ⟨e.id, o⟩ ∈ w.store.offers.docs
      · exact .inl ⟨_, hlive, hprovider, htask⟩
      · obtain ⟨n, hn, huser, hon, hstatus⟩ :=
          exists_rejected hw hquiet (d := ⟨e.id, o⟩) ⟨e, he, hwrite, rfl⟩ hlive
        exact .inr ⟨n, hn, huser.trans hprovider, hon.trans htask, hstatus⟩
    · rintro (⟨d, hd, hprovider, htask⟩ | ⟨n, hn, huser, hon, hstatus⟩)
      · obtain ⟨e, he, hwrite, -⟩ := (provenance hw).offers d hd
        exact ⟨e, he, _, hwrite, htask, hprovider⟩
      · obtain ⟨author, -, -, -, hsubmitted⟩ :=
          (provenance hw).verdict hn (by simp [hstatus])
        rwa [huser, hon] at hsubmitted

omit ht in
/-- After an acceptance the loser has a rejection and the winner an offer. -/
theorem pages_agree_oneAccept :
    (app.final app.init Scenario.oneAccept).store.tasks.docs.length = 1 ∧
      ∀ t ∈ (app.final app.init Scenario.oneAccept).store.tasks.docs,
        PagesAgree (app.final app.init Scenario.oneAccept) t := by
  have run := app.run_steps app.init Scenario.oneAccept (by decide +kernel)
  exact ⟨by decide +kernel, fun t ht => pages_agree ⟨_, run⟩ (by decide +kernel) ht⟩

end Oun
