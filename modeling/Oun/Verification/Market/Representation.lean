import Oun.Abstract.Market
import Oun.Library.Simulation
import Oun.Verification.Offers.Ledger
import Oun.Verification.Rating.Once
import Oun.Verification.Reports.Once
import Oun.Verification.Roles.Authority

/-! # The market behind the collections

What the collections and the writes on their way say of a task. An offer stands for a bid
until its delete is issued, and verdicts, reports and ratings count from when they are
issued. -/

namespace Oun

open Firestore Market Regex Transition

abbrev TaskLot := Lot Uid Text Stars

/-- A live offer that is not to be deleted. -/
def Standing (w : World) (d : Doc Offer) : Prop :=
  d ∈ w.store.offers.docs ∧ w.issued (Call.deletes d.id) = 0

instance (w : World) (d : Doc Offer) : Decidable (Standing w d) :=
  decidable_of_iff (∃ e ∈ w.store.offers.docs, e = d ∧ w.issued (Call.deletes d.id) = 0)
    (by simp [Standing])

def Bid (w : World) (t : DocId) (p : Uid) (price : Text) : Prop :=
  ∃ d, Standing w d ∧ d.data.task = t ∧ d.data.provider = p ∧ d.data.price = price

def Call.awards (t : DocId) (p : Uid) : Call → Bool :=
  Call.onNotif (notified .accepted t p)

def Call.refuses (t : DocId) (p : Uid) : Call → Bool :=
  Call.onNotif (notified .rejected t p)

def Call.reports (t : DocId) (u : Uid) : Call → Bool :=
  Call.adds Write.violation? (hasKey Violation.key (t, u))

def Call.grades (t : DocId) (p : Uid) (stars : Stars) : Call → Bool :=
  Call.adds Write.rate? (hasKey id ⟨stars, t, p⟩)

/-- The lot of the task `t`. -/
structure Shown (w : World) (t : DocId) (lot : TaskLot) : Prop where
  author : HasTask w.store t lot.author
  bids : ∀ p price, lot.bids p = some price ↔ Bid w t p price
  winner : ∀ p, lot.winner = some p ↔ 0 < w.issued (Call.awards t p)
  placed : ∀ p, lot.placed p = w.logged (Call.onOffer (offeredBy t p))
  refusals : ∀ p, lot.refusals p = w.issued (Call.refuses t p)
  reporters : ∀ u, u ∈ lot.reporters ↔ 0 < w.issued (Call.reports t u)
  rating : ∀ p stars, lot.rating = some (p, stars) ↔ 0 < w.issued (Call.grades t p stars)

def SingleBids (w : World) : Prop :=
  ∀ d d', Standing w d → Standing w d' → d.data.task = d'.data.task →
    d.data.provider = d'.data.provider → d = d'

structure Represents (w : World) (m : DocId → Option (TaskLot)) : Prop where
  unposted : ∀ t, m t = none → ∀ author, ¬ HasTask w.store t author
  posted : ∀ t lot, m t = some lot → Shown w t lot
  single : SingleBids w

/-! ## Standing offers -/

theorem Standing.submitted {w : World} (hw : Reachable app w) {d : Doc Offer}
    (h : Standing w d) : Submitted w.log d.id d.data :=
  ((mem_offers_iff hw d).mp h.1).1

/-- An offer stands until its delete is issued; a new one stands. -/
theorem standing_perform {w : World} (hw : Reachable app w) {a : Action} (h : Enabled w a)
    (d : Doc Offer) :
    Standing (perform w a) d ↔
      (Standing w d ∧ (issues w a).countP (Call.deletes d.id) = 0) ∨
        ∃ c ∈ lands w a, c.write = .addOffer d.data ∧ d.id = w.store.offers.next := by
  rw [Standing, mem_offers_perform h, issued_perform h, Nat.add_eq_zero_iff]
  constructor
  · rintro ⟨⟨hd, -⟩ | hnew, hzero⟩
    · exact .inl ⟨⟨hd, hzero.1⟩, hzero.2⟩
    · exact .inr hnew
  · rintro (⟨⟨hd, hzero⟩, hissues⟩ | ⟨c, hc, hwrite, hid⟩)
    · refine ⟨.inl ⟨hd, fun c hc hwrite => ?_⟩, hzero, hissues⟩
      -- A delete that lands was issued before.
      obtain ⟨k, uid, job, calls, -, hget⟩ := lands_inversion hc
      have hpos : 0 < w.issued (Call.deletes d.id) :=
        issued_pos.mpr (.inr ⟨_, List.mem_of_getElem? hget, c, List.mem_cons_self, by
          simp [Call.deletes, hwrite]⟩)
      omega
    · obtain ⟨k, uid, job, calls, rfl, hget⟩ := lands_inversion hc
      refine ⟨.inr ⟨c, hc, hwrite, hid⟩, Nat.eq_zero_of_not_pos fun hpos => ?_, rfl⟩
      obtain ⟨o, hsub⟩ := submitted_of_deletes hw hpos
      exact absurd (hid ▸ hsub.lt hw) (Nat.lt_irrefl _)

theorem singleBids_perform {w : World} (hw : Reachable app w) {a : Action} (h : Enabled w a)
    (hsingle : SingleBids w)
    (hfree : ∀ c ∈ lands w a, ∀ o, c.write = .addOffer o →
      ∀ d, Standing w d → d.data.task = o.task → d.data.provider ≠ o.provider) :
    SingleBids (perform w a) := by
  intro d d' hd hd' htask hprovider
  rcases (standing_perform hw h d).mp hd with ⟨hd, -⟩ | ⟨c, hc, hwrite, hid⟩ <;>
    rcases (standing_perform hw h d').mp hd' with ⟨hd', -⟩ | ⟨c', hc', hwrite', hid'⟩
  · exact hsingle d d' hd hd' htask hprovider
  · exact absurd hprovider (hfree c' hc' _ hwrite' d hd htask)
  · exact absurd hprovider.symm (hfree c hc _ hwrite d' hd' htask.symm)
  · obtain rfl := Option.mem_unique hc hc'
    obtain ⟨id, o⟩ := d
    obtain ⟨id', o'⟩ := d'
    rw [hwrite] at hwrite'
    simp_all

/-! ## One step -/

/-- The call changes what is said of the task. -/
def Call.Concerns (w : World) (t : DocId) (c : Call) : Prop :=
  match c.write with
  | .deleteOffer id => ∃ o, Submitted w.log id o ∧ o.task = t
  | .addNotif n => n.task = t ∧ n.status ≠ .added
  | .addViolation v => v.taskId = t
  | .addRate r => r.task = t
  | _ => False

theorem Call.concerns_of_onNotif {w : World} {t : DocId} {p : Uid} {status : Status} {c : Call}
    (hstatus : status ≠ .added) (h : c.onNotif (notified status t p) = true) : c.Concerns w t := by
  obtain ⟨n, hwrite, hn⟩ := Call.onNotif_iff.mp h
  simp only [notified, Bool.and_eq_true, decide_eq_true_eq] at hn
  obtain ⟨⟨htask, -⟩, rfl⟩ := hn
  simp only [Call.Concerns, hwrite]
  exact ⟨htask, hstatus⟩

theorem Call.concerns_of_awards {w : World} {t : DocId} {p : Uid} {c : Call}
    (h : c.awards t p = true) : c.Concerns w t :=
  concerns_of_onNotif (by simp) h

theorem Call.concerns_of_refuses {w : World} {t : DocId} {p : Uid} {c : Call}
    (h : c.refuses t p = true) : c.Concerns w t :=
  concerns_of_onNotif (by simp) h

theorem Call.concerns_of_reports {w : World} {t : DocId} {u : Uid} {c : Call}
    (h : c.reports t u = true) : c.Concerns w t := by
  obtain ⟨write, awaited, about⟩ := c
  cases write with
  | addViolation v => exact (Prod.mk.inj (of_decide_eq_true h)).1
  | _ => exact absurd h Bool.false_ne_true

theorem Call.concerns_of_grades {w : World} {t : DocId} {p : Uid} {stars : Stars} {c : Call}
    (h : c.grades t p stars = true) : c.Concerns w t := by
  obtain ⟨write, awaited, about⟩ := c
  cases write with
  | addRate r => exact congrArg Rate.task (of_decide_eq_true h)
  | _ => exact absurd h Bool.false_ne_true

/-- The lot after a step is the old one with what the step has issued and stored. -/
theorem Shown.step {w : World} {a : Action} (h : Enabled w a) {t : DocId}
    {lot lot' : TaskLot} (hs : Shown w t lot) (hauthor : lot'.author = lot.author)
    (hbids : ∀ p price, lot'.bids p = some price ↔ Bid (perform w a) t p price)
    (hwinner : ∀ p, lot'.winner = some p ↔
      lot.winner = some p ∨ 0 < (issues w a).countP (Call.awards t p))
    (hplaced : ∀ p, lot'.placed p =
      lot.placed p + (lands w a).toList.countP (Call.onOffer (offeredBy t p)))
    (hrefusals : ∀ p, lot'.refusals p =
      lot.refusals p + (issues w a).countP (Call.refuses t p))
    (hreporters : ∀ u, u ∈ lot'.reporters ↔
      u ∈ lot.reporters ∨ 0 < (issues w a).countP (Call.reports t u))
    (hrating : ∀ p stars, lot'.rating = some (p, stars) ↔
      lot.rating = some (p, stars) ∨ 0 < (issues w a).countP (Call.grades t p stars)) :
    Shown (perform w a) t lot' where
  author := hauthor ▸ hs.author.mono (extends_perform h)
  bids := hbids
  winner p := by rw [hwinner, hs.winner, issued_perform h, Nat.add_pos_iff_pos_or_pos]
  placed p := by rw [hplaced, hs.placed, logged_perform h]
  refusals p := by rw [hrefusals, hs.refusals, issued_perform h]
  reporters u := by rw [hreporters, hs.reporters, issued_perform h, Nat.add_pos_iff_pos_or_pos]
  rating p stars := by rw [hrating, hs.rating, issued_perform h, Nat.add_pos_iff_pos_or_pos]

/-- The bids on a task of which no delete is issued and for which no offer is stored. -/
theorem bid_perform {w : World} (hw : Reachable app w) {a : Action} (h : Enabled w a) {t : DocId}
    (hissues : ∀ c ∈ issues w a, ∀ id o, c.write = .deleteOffer id → Submitted w.log id o →
      o.task ≠ t)
    (hlands : ∀ c ∈ lands w a, ∀ o, c.write = .addOffer o → o.task ≠ t) (p : Uid) (price : Text) :
    Bid (perform w a) t p price ↔ Bid w t p price := by
  refine exists_congr fun d => and_congr_left fun ⟨htask, _⟩ => ?_
  rw [standing_perform hw h]
  constructor
  · rintro (⟨hd, -⟩ | ⟨c, hc, hwrite, -⟩)
    · exact hd
    · exact absurd htask (hlands c hc _ hwrite)
  · intro hd
    refine .inl ⟨hd, List.countP_eq_zero.mpr fun c hc hdeletes => ?_⟩
    exact hissues c hc d.id d.data (of_decide_eq_true hdeletes) (hd.submitted hw) htask

/-- A step that issues nothing about a task and stores no offer on it leaves its lot alone. -/
theorem Shown.keep {w : World} (hw : Reachable app w) {a : Action} (h : Enabled w a) {t : DocId}
    {lot : TaskLot} (hs : Shown w t lot)
    (hissues : ∀ c ∈ issues w a, ¬ c.Concerns w t)
    (hlands : ∀ c ∈ lands w a, ∀ o, c.write = .addOffer o → o.task ≠ t) :
    Shown (perform w a) t lot := by
  have hzero : ∀ q : Call → Bool, (∀ c, q c = true → c.Concerns w t) →
      (issues w a).countP q = 0 := fun q hq =>
    List.countP_eq_zero.mpr fun c hc hqc => hissues c hc (hq c hqc)
  refine hs.step h rfl (fun p price => ?_) (fun p => ?_) (fun p => ?_) (fun p => ?_) (fun u => ?_)
    fun p stars => ?_
  · rw [hs.bids, bid_perform hw h (fun c hc id o hwrite hsub htask => hissues c hc ?_) hlands]
    simp only [Call.Concerns, hwrite]
    exact ⟨o, hsub, htask⟩
  · simp [hzero _ fun c => Call.concerns_of_awards]
  · rw [List.countP_eq_zero.mpr fun c hc hq => ?_, Nat.add_zero]
    obtain ⟨o, hwrite, ho⟩ := Call.onOffer_iff.mp hq
    simp only [offeredBy, Bool.and_eq_true, decide_eq_true_eq] at ho
    exact hlands c (Option.mem_toList.mp hc) o hwrite ho.1
  · simp [hzero _ fun c => Call.concerns_of_refuses]
  · simp [hzero _ fun c => Call.concerns_of_reports]
  · simp [hzero _ fun c => Call.concerns_of_grades]

/-! ## Tasks that do not exist -/

/-- Whatever has been issued is about tasks that exist. -/
theorem exists_task_of_concerns {w : World} (hw : Reachable app w) {uid : Uid} {c : Call}
    (hproper : c.Proper w uid) (hrightful : c.Rightful w uid) {t : DocId}
    (hc : c.Concerns w t) : ∃ author, HasTask w.store t author := by
  obtain ⟨write, awaited, about⟩ := c
  cases write with
  | deleteOffer id =>
      obtain ⟨-, o, hsub, htask⟩ := hproper
      obtain ⟨o', hsub', rfl⟩ := hc
      exact ⟨uid, hsub'.unique hw hsub ▸ htask⟩
  | addNotif n =>
      obtain ⟨user, task, status, new⟩ := n
      obtain ⟨rfl, hstatus⟩ := hc
      cases status with
      | added => exact absurd rfl hstatus
      | _ => exact ⟨uid, hproper.1⟩
  | addViolation v =>
      obtain ⟨-, author, htask, -⟩ := hproper
      exact ⟨author, (show v.taskId = t from hc) ▸ htask⟩
  | addRate r => exact ⟨uid, (show r.task = t from hc) ▸ hrightful.1⟩
  | _ => exact hc.elim

theorem issued_eq_zero_of_not_task {w : World} (hw : Reachable app w) {t : DocId}
    (hnone : ∀ author, ¬ HasTask w.store t author) {q : Call → Bool}
    (hq : ∀ c, q c = true → c.Concerns w t) : w.issued q = 0 := by
  refine Nat.eq_zero_of_not_pos fun hpos => ?_
  rcases issued_pos.mp hpos with ⟨e, he, hc⟩ | ⟨⟨uid, handler⟩, hp, c, hc, hqc⟩
  · obtain ⟨author, htask⟩ := exists_task_of_concerns hw ((provenance hw).log e he)
      ((rightful hw).log e he) (hq _ hc)
    exact hnone author htask
  · cases handler with
    | writing job calls =>
        obtain ⟨author, htask⟩ := exists_task_of_concerns hw ((provenance hw).processes _ hp c hc)
          ((rightful hw).processes _ hp c hc) (hq _ hqc)
        exact hnone author htask
    | _ => simp [Handler.calls] at hc

end Oun
