import Oun.Verification.Market.Representation

/-! # The moves on one task

What each handler issues, and what each offer stored, does to the lot of its task. -/

namespace Oun

open Firestore Market Regex Transition

/-! ## What the Accept loop issues -/

theorem countP_accept_awards (t : DocId) (item : Item) (documents : List (Doc Offer)) (p : Uid) :
    (accept t item documents).countP (Call.awards t p) =
      if item.prov = p then documents.countP (fun d => decide (d.id = item.offerId)) else 0 := by
  induction documents with
  | nil => simp [accept]
  | cons d documents ih =>
      rw [accept_cons, List.countP_append, ih, List.countP_cons]
      by_cases hid : d.id = item.offerId <;> by_cases hp : item.prov = p <;>
        simp [accept, Call.awards, Call.onNotif, notified, hid, hp, add_comm]

theorem countP_accept_refuses (t : DocId) (item : Item) (documents : List (Doc Offer)) (p : Uid) :
    (accept t item documents).countP (Call.refuses t p) = documents.countP fun d =>
      decide (d.id ≠ item.offerId) && decide (d.data.provider = p) := by
  induction documents with
  | nil => rfl
  | cons d documents ih =>
      rw [accept_cons, List.countP_append, ih, List.countP_cons]
      by_cases hid : d.id = item.offerId <;> by_cases hp : d.data.provider = p <;>
        simp [accept, Call.refuses, Call.onNotif, notified, hid, hp, add_comm]

theorem countP_accept_deletes {t : DocId} {item : Item} {documents : List (Doc Offer)}
    {d : Doc Offer} (hd : d ∈ documents) :
    (accept t item documents).countP (Call.deletes d.id) = 0 ↔ d.id = item.offerId := by
  rw [List.countP_eq_zero]
  constructor
  · intro h
    by_contra hne
    exact h _ (mem_accept.mpr ⟨d, hd, .inl ⟨hne, .inl rfl⟩⟩) (by simp [Call.deletes])
  · rintro hid c hc hdeletes
    obtain ⟨x, -, ⟨hx, rfl | rfl⟩ | ⟨-, rfl⟩⟩ := mem_accept.mp hc
    · exact hx ((Write.deleteOffer.inj (of_decide_eq_true hdeletes)).trans hid)
    · simp [Call.deletes] at hdeletes
    · simp [Call.deletes] at hdeletes

/-- All that the loop issues is about its own task. -/
theorem accept_concerns {w : World} (hw : Reachable app w) {t s : DocId} {item : Item}
    {documents : List (Doc Offer)}
    (hdocuments : documents.Perm (w.store.offers.whereEqualTo Offer.task t)) {c : Call}
    (hc : c ∈ accept t item documents) (h : c.Concerns w s) : s = t := by
  obtain ⟨x, hx, ⟨-, rfl | rfl⟩ | ⟨-, rfl⟩⟩ := mem_accept.mp hc
  · obtain ⟨o, hsub, rfl⟩ := h
    obtain ⟨hlive, htask⟩ := (w.store.offers.mem_whereEqualTo _ _ x).mp (hdocuments.mem_iff.mp hx)
    rw [← htask, hsub.unique hw ((mem_offers_iff hw x).mp hlive).1]
  · exact h.1.symm
  · exact h.1.symm

/-! ## Moves -/

variable {w : World} {a : Action} {t : DocId} {lot : TaskLot}

theorem Shown.winner_none (hw : Reachable app w) (hs : Shown w t lot) (hopen : ¬ Settled w t) :
    lot.winner = none := by
  refine Option.eq_none_iff_forall_ne_some.mpr fun p hp => hopen ?_
  have htells : ∀ c : Call, c.awards t p = true → c.onNotif (acceptedOn t) = true := by
    intro c hc
    obtain ⟨n, hwrite, hn⟩ := Call.onNotif_iff.mp hc
    exact Call.onNotif_iff.mpr ⟨n, hwrite, by simp_all [acceptedOn, notified]⟩
  rw [settled_iff hw, issued_pos]
  rcases issued_pos.mp ((hs.winner p).mp hp) with ⟨e, he, hc⟩ | ⟨q, hq, c, hmem, hc⟩
  · exact .inl ⟨e, he, htells _ hc⟩
  · exact .inr ⟨q, hq, c, hmem, htells _ hc⟩

/-- A bid is one offer. -/
theorem Shown.isSome_iff (hs : Shown w t lot) (p : Uid) :
    (lot.bids p).isSome = true ↔
      ∃ d, Standing w d ∧ d.data.task = t ∧ d.data.provider = p := by
  rw [Option.isSome_iff_exists]
  constructor
  · rintro ⟨price, hprice⟩
    obtain ⟨d, hd, htask, hprovider, -⟩ := (hs.bids p price).mp hprice
    exact ⟨d, hd, htask, hprovider⟩
  · rintro ⟨d, hd, htask, hprovider⟩
    exact ⟨d.data.price, (hs.bids p _).mpr ⟨d, hd, htask, hprovider, rfl⟩⟩

theorem Shown.report (hw : Reachable app w) (h : Enabled w a) (hs : Shown w t lot)
    (hlands : lands w a = none) {furniture : Furniture} (ht : furniture.id = t) {uid : Uid}
    {reason : Reason} (hissues : issues w a = Oun.report furniture uid reason) :
    Shown (perform w a) t (lot.play (.report uid)) := by
  subst ht
  refine hs.step h rfl (fun p price => ?_) (fun p => ?_) (fun p => ?_) (fun p => ?_) (fun u => ?_)
    fun p stars => ?_
  · exact (hs.bids p price).trans (bid_perform hw h (by simp [hissues, Oun.report])
      (by simp [hlands]) p price).symm
  · simp [hissues, Oun.report, Lot.play, Call.awards, Call.onNotif]
  · simp [hlands, Lot.play]
  · simp [hissues, Oun.report, Lot.play, Call.refuses, Call.onNotif]
  · by_cases huid : uid = u <;> simp [hissues, Oun.report, Lot.play, Call.reports, Call.adds,
      Write.violation?, hasKey, Violation.key, huid, eq_comm]
  · simp [hissues, Oun.report, Lot.play, Call.grades, Call.adds, Write.rate?]

theorem Shown.rate (hw : Reachable app w) (h : Enabled w a) (hs : Shown w t lot)
    (hlands : lands w a = none) (hunrated : lot.rating = none) {furniture : Furniture}
    (ht : furniture.id = t) {snapshot : Option (List (Doc Rate))} {provider : Uid} {rating : Stars}
    (hissues : issues w a = Oun.rate furniture snapshot provider rating) :
    Shown (perform w a) t (lot.play (.rate provider rating)) := by
  subst ht
  refine hs.step h rfl (fun p price => ?_) (fun p => ?_) (fun p => ?_) (fun p => ?_) (fun u => ?_)
    fun p stars => ?_
  · exact (hs.bids p price).trans (bid_perform hw h (by simp [hissues, Oun.rate])
      (by simp [hlands]) p price).symm
  · simp [hissues, Oun.rate, Lot.play, Call.awards, Call.onNotif]
  · simp [hlands, Lot.play]
  · simp [hissues, Oun.rate, Lot.play, Call.refuses, Call.onNotif]
  · simp [hissues, Oun.rate, Lot.play, Call.reports, Call.adds, Write.violation?]
  · simp [hissues, Oun.rate, Lot.play, Call.grades, Call.adds, Write.rate?, hasKey, hunrated,
      and_comm]

/-- The bids on a task after a step in which no offer is stored. -/
theorem bid_of_not_lands (hw : Reachable app w) (h : Enabled w a) (hlands : lands w a = none)
    (p : Uid) (price : Text) :
    Bid (perform w a) t p price ↔ ∃ d, Standing w d ∧
      (issues w a).countP (Call.deletes d.id) = 0 ∧ d.data.task = t ∧ d.data.provider = p ∧
        d.data.price = price := by
  simp [Bid, standing_perform hw h, hlands, and_assoc]

theorem Shown.refuse (hw : Reachable app w) (h : Enabled w a) (hs : Shown w t lot)
    (hlands : lands w a = none) (hsingle : SingleBids w) {item : Item} {d : Doc Offer}
    (hd : Standing w d) (htask : d.data.task = t) (hitem : item = .ofDoc d)
    (hissues : issues w a = reject t item) :
    Shown (perform w a) t (lot.play (.refuse item.prov)) := by
  classical
  have hprov : item.prov = d.data.provider := by rw [hitem]; rfl
  have hid : item.offerId = d.id := by rw [hitem]; rfl
  have hdeletes : ∀ x : Doc Offer, (issues w a).countP (Call.deletes x.id) = 0 ↔ x.id ≠ d.id := by
    intro x
    by_cases hx : d.id = x.id <;> simp [hissues, reject, Call.deletes, hid, hx, eq_comm]
  refine hs.step h rfl (fun p price => ?_) (fun p => ?_) (fun p => ?_) (fun p => ?_) (fun u => ?_)
    fun p stars => ?_
  · simp only [bid_of_not_lands hw h hlands, hdeletes]
    by_cases hp : p = item.prov
    · subst hp
      refine iff_of_false (by simp [Lot.refuse_bids_self]) ?_
      rintro ⟨x, hx, hne, hon, hby, -⟩
      exact hne (congrArg Doc.id (hsingle x d hx hd (hon.trans htask.symm) (hby.trans hprov)))
    · rw [Lot.refuse_bids_of_ne lot hp]
      refine (hs.bids p price).trans (exists_congr fun x => ?_)
      refine and_congr_right fun hx => ⟨fun hbid => ⟨fun heq => hp ?_, hbid⟩, fun hbid => hbid.2⟩
      rw [← hbid.2.1, w.store.offers.eq_of_id_eq hx.1 hd.1 heq, hprov]
  · simp [hissues, reject, Lot.play, Call.awards, Call.onNotif, notified]
  · simp [hlands, Lot.play]
  · by_cases hp : p = item.prov
    · subst hp
      rw [Lot.refuse_refusals_self]
      simp [hissues, reject, Call.refuses, Call.onNotif, notified]
    · rw [Lot.refuse_refusals_of_ne lot hp]
      simp [hissues, reject, Call.refuses, Call.onNotif, notified, Ne.symm hp]
  · simp [hissues, reject, Lot.play, Call.reports, Call.adds, Write.violation?]
  · simp [hissues, reject, Lot.play, Call.grades, Call.adds, Write.rate?]

/-- What the loop refuses is one bid of every other bidder. -/
private theorem countP_others (hs : Shown w t lot) (hsingle : SingleBids w)
    {documents : List (Doc Offer)}
    (hdocuments : documents.Perm (w.store.offers.whereEqualTo Offer.task t))
    (hstanding : ∀ x ∈ documents, Standing w x) {d : Doc Offer} (hd : d ∈ documents) (p : Uid) :
    (documents.countP fun x => decide (x.id ≠ d.id) && decide (x.data.provider = p)) =
      if p ≠ d.data.provider ∧ (lot.bids p).isSome = true then 1 else 0 := by
  have hmem : ∀ x, x ∈ documents ↔ Standing w x ∧ x.data.task = t := by
    intro x
    rw [hdocuments.mem_iff, Collection.mem_whereEqualTo]
    refine and_congr_left fun hon => ⟨fun hx => hstanding x ?_, fun hx => hx.1⟩
    exact hdocuments.mem_iff.mpr ((w.store.offers.mem_whereEqualTo _ _ x).mpr ⟨hx, hon⟩)
  have hsame : ∀ x ∈ documents, ∀ y ∈ documents, x.data.provider = y.data.provider → x = y := by
    intro x hx y hy
    have hon := ((hmem x).mp hx).2.trans ((hmem y).mp hy).2.symm
    exact hsingle x y ((hmem x).mp hx).1 ((hmem y).mp hy).1 hon
  split
  · rename_i hcond
    obtain ⟨hne, hsome⟩ := hcond
    obtain ⟨x, hx, hon, rfl⟩ := (hs.isSome_iff p).mp hsome
    have hx : x ∈ documents := (hmem x).mpr ⟨hx, hon⟩
    have hcongr : ∀ y ∈ documents,
        (decide (y.id ≠ d.id) && decide (y.data.provider = x.data.provider)) = true ↔
          (y == x) = true := by
      intro y hy
      rw [Bool.and_eq_true, decide_eq_true_iff, decide_eq_true_iff, beq_iff_eq]
      refine ⟨fun hby => hsame y hy x hx hby.2, ?_⟩
      rintro rfl
      refine ⟨fun hid => hne ?_, rfl⟩
      rw [w.store.offers.eq_of_id_eq ((hmem y).mp hx).1.1 ((hmem d).mp hd).1.1 hid]
    rw [List.countP_congr hcongr]
    exact List.count_eq_one_of_mem
      (hdocuments.nodup_iff.mpr (w.store.offers.nodup_whereEqualTo _ _)) hx
  · rename_i hcond
    refine List.countP_eq_zero.mpr fun x hx hby => hcond ?_
    simp only [Bool.and_eq_true, decide_eq_true_eq] at hby
    obtain ⟨hne, rfl⟩ := hby
    refine ⟨fun hp => hne (by rw [hsame x hx d hd hp]), (hs.isSome_iff _).mpr ⟨x, ?_⟩⟩
    exact ⟨((hmem x).mp hx).1, ((hmem x).mp hx).2, rfl⟩

theorem Shown.award (hw : Reachable app w) (h : Enabled w a) (hs : Shown w t lot)
    (hlands : lands w a = none) (hsingle : SingleBids w) (hopen : lot.winner = none) {item : Item}
    {documents : List (Doc Offer)}
    (hdocuments : documents.Perm (w.store.offers.whereEqualTo Offer.task t))
    (hstanding : ∀ x ∈ documents, Standing w x) {d : Doc Offer} (hd : d ∈ documents)
    (hitem : item = .ofDoc d) (hissues : issues w a = accept t item documents) :
    Shown (perform w a) t (lot.play (.award item.prov)) := by
  have hprov : item.prov = d.data.provider := by rw [hitem]; rfl
  have hid : item.offerId = d.id := by rw [hitem]; rfl
  have hlive : ∀ x, Standing w x → x.data.task = t → x ∈ documents := fun x hx hon =>
    hdocuments.mem_iff.mpr ((w.store.offers.mem_whereEqualTo _ _ x).mpr ⟨hx.1, hon⟩)
  have hchosen : 0 < documents.countP fun x => decide (x.id = item.offerId) :=
    List.countP_pos_iff.mpr ⟨d, hd, by simp [hid]⟩
  have hon : d.data.task = t :=
    ((w.store.offers.mem_whereEqualTo _ _ d).mp (hdocuments.mem_iff.mp hd)).2
  refine hs.step h rfl (fun p price => ?_) (fun p => ?_) (fun p => ?_) (fun p => ?_) (fun u => ?_)
    fun p stars => ?_
  · -- Of the standing offers on the task, only the chosen one is not deleted.
    rw [bid_of_not_lands hw h hlands, hissues]
    by_cases hp : p = item.prov
    · rw [hp, Lot.award_bids_self]
      refine (hs.bids _ price).trans (exists_congr fun x => and_congr_right fun hx => ?_)
      refine ⟨fun hbid => ⟨?_, hbid⟩, fun hbid => hbid.2⟩
      obtain rfl : x = d := hsingle x d hx (hstanding d hd) (hbid.1.trans hon.symm)
        (hbid.2.1.trans hprov)
      rw [countP_accept_deletes hd, hid]
    · rw [Lot.award_bids_of_ne lot hp]
      refine iff_of_false (by simp) ?_
      rintro ⟨x, hx, hzero, hxt, hby, -⟩
      rw [countP_accept_deletes (hlive x hx hxt), hid] at hzero
      rw [w.store.offers.eq_of_id_eq hx.1 (hstanding d hd).1 hzero, ← hprov] at hby
      exact hp hby.symm
  · rw [hissues, countP_accept_awards, hopen]
    by_cases hp : item.prov = p
    · simpa [Lot.play, hp] using hchosen
    · simp [Lot.play, hp]
  · simp [hlands, Lot.play]
  · rw [hissues, countP_accept_refuses, hid, countP_others hs hsingle hdocuments hstanding hd,
      ← hprov, Lot.award_refusals]
  · rw [hissues, List.countP_eq_zero.mpr fun c hc => ?_]
    · simp [Lot.play]
    · obtain ⟨x, -, ⟨-, rfl | rfl⟩ | ⟨-, rfl⟩⟩ := mem_accept.mp hc <;>
        simp [Call.reports, Call.adds, Write.violation?]
  · rw [hissues, List.countP_eq_zero.mpr fun c hc => ?_]
    · simp [Lot.play]
    · obtain ⟨x, -, ⟨-, rfl | rfl⟩ | ⟨-, rfl⟩⟩ := mem_accept.mp hc <;>
        simp [Call.grades, Call.adds, Write.rate?]

theorem Shown.bid (hw : Reachable app w) (h : Enabled w a) (hs : Shown w t lot) {c : Call}
    (hc : c ∈ lands w a) {o : Offer} (hwrite : c.write = .addOffer o) (ht : o.task = t)
    (hnone : lot.bids o.provider = none) :
    Shown (perform w a) t (lot.play (.bid o.provider o.price)) := by
  subst ht
  have hissues := issues_of_lands hc
  have hlands : ∀ x, x ∈ lands w a ↔ x = c := fun x =>
    ⟨fun hx => Option.mem_unique hx hc, fun hx => hx ▸ hc⟩
  refine hs.step h rfl (fun p price => ?_) (fun p => ?_) (fun p => ?_) (fun p => ?_) (fun u => ?_)
    fun p stars => ?_
  · have hbid : Bid (perform w a) o.task p price ↔
        Bid w o.task p price ∨ o.provider = p ∧ o.price = price := by
      simp only [Bid, standing_perform hw h, hlands, exists_eq_left, hwrite, or_and_right,
        exists_or, hissues, List.countP_nil, and_true]
      refine or_congr_right ⟨?_, ?_⟩
      · rintro ⟨d, ⟨heq, -⟩, -, rfl, rfl⟩
        obtain rfl := Write.addOffer.inj heq
        exact ⟨rfl, rfl⟩
      · rintro ⟨rfl, rfl⟩
        exact ⟨⟨w.store.offers.next, o⟩, ⟨rfl, rfl⟩, rfl, rfl, rfl⟩
    rw [hbid, ← hs.bids]
    by_cases hp : p = o.provider
    · subst hp
      simp [Lot.bid_bids_self, hnone]
    · simp [Lot.bid_bids_of_ne lot o.price hp, Ne.symm hp]
  · simp [hissues, Lot.play]
  · rw [Option.mem_def.mp hc]
    by_cases hp : p = o.provider
    · subst hp
      simp [Lot.bid_placed_self, Call.onOffer, hwrite, offeredBy]
    · simp [Lot.bid_placed_of_ne lot o.price hp, Call.onOffer, hwrite, offeredBy, Ne.symm hp]
  · simp [hissues, Lot.play]
  · simp [hissues, Lot.play]
  · simp [hissues, Lot.play]

theorem not_hasTask_next (w : World) (author : Uid) :
    ¬ HasTask w.store w.store.tasks.next author := by
  rintro ⟨d, hd, hid, -⟩
  exact absurd (hid ▸ w.store.tasks.fresh d hd) (Nat.lt_irrefl _)

/-- A new task has been spoken of by nobody. -/
theorem Shown.posted (hw : Reachable app w) (h : Enabled w a) {c : Call} (hc : c ∈ lands w a)
    {task : Task} (hwrite : c.write = .addTask task) :
    Shown (perform w a) w.store.tasks.next (.posted task.author) := by
  have hissues := issues_of_lands hc
  have hnone := not_hasTask_next w
  have hzero : ∀ q : Call → Bool, (∀ c, q c = true → c.Concerns w w.store.tasks.next) →
      (perform w a).issued q = 0 := by
    intro q hq
    rw [issued_perform h, hissues, issued_eq_zero_of_not_task hw hnone hq]
    rfl
  have hsubmitted : ∀ id o, Submitted w.log id o → o.task ≠ w.store.tasks.next :=
    fun id o hsub htask => hnone o.taskOwner (htask ▸ ((provenance hw).submitted hsub).1)
  have hother : ∀ x ∈ lands w a, ∀ o, x.write ≠ .addOffer o := by
    intro x hx o hx'
    obtain rfl := Option.mem_unique hx hc
    simp [hwrite] at hx'
  refine ⟨?_, fun p price => ?_, fun p => ?_, fun p => ?_, fun p => ?_, fun u => ?_,
    fun p stars => ?_⟩
  · rw [(perform_of_lands h hc).1, hwrite]
    exact ⟨_, (w.store.tasks.mem_add task _).mpr (.inr rfl), rfl, rfl⟩
  · rw [bid_perform hw h (by simp [hissues]) fun x hx o ho => absurd ho (hother x hx o)]
    refine iff_of_false (by simp [Lot.posted]) ?_
    rintro ⟨d, hd, htask, -⟩
    exact hsubmitted d.id d.data (hd.submitted hw) htask
  · simp [hzero _ fun c => Call.concerns_of_awards, Lot.posted]
  · rw [logged_perform h, List.countP_eq_zero.mpr fun x hx hq => ?_, Nat.add_zero, World.logged,
      List.countP_eq_zero.mpr fun e he hq => ?_]
    · rfl
    · obtain ⟨o, ho, hby⟩ := Call.onOffer_iff.mp hq
      simp only [offeredBy, Bool.and_eq_true, decide_eq_true_eq] at hby
      exact hsubmitted e.id o ⟨e, he, ho, rfl⟩ hby.1
    · obtain ⟨o, ho, -⟩ := Call.onOffer_iff.mp hq
      exact hother x (Option.mem_toList.mp hx) o ho
  · simp [hzero _ fun c => Call.concerns_of_refuses, Lot.posted]
  · simp [hzero _ fun c => Call.concerns_of_reports, Lot.posted]
  · simp [hzero _ fun c => Call.concerns_of_grades, Lot.posted]

end Oun
