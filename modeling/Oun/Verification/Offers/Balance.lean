import Oun.Verification.Offers.Verdicts
import Oun.Verification.Winner.Single

/-! # The balance of submitted, live and rejected offers

Accept and Reject delete and tell in two separate writes, and a delete that comes too
late succeeds. The balance is kept as long as no delete comes too late. -/

namespace Oun

open Firestore Regex Transition

/-- The `rejected` notifications of a provider for a task. -/
def rejections (s : Store) (t : DocId) (p : Uid) : ℕ :=
  s.notifs.count (notified .rejected t p)

structure Balanced (w : World) : Prop where
  total : ∀ t p, w.logged (Call.onOffer (offeredBy t p)) =
    liveOffers w.store t p + rejections w.store t p
  told : ∀ d, Submitted w.log d.id d.data →
    w.logged (Call.tells .rejected d) = if d ∈ w.store.offers.docs then 0 else 1
  exclusive : ∀ d, Submitted w.log d.id d.data → 0 < w.logged (Call.tells .accepted d) →
    w.logged (Call.tells .rejected d) = 0

/-- If an offer is deleted in this action, it is live and no Accept handler has chosen it. -/
def DeletesStanding (w : World) (a : Action) : Prop :=
  ∀ c ∈ lands w a, ∀ id ∈ c.write.deleteOffer?, ∃ d ∈ w.store.offers.docs, d.id = id ∧ ¬ Chosen w d

instance (w : World) (a : Action) : Decidable (DeletesStanding w a) := by
  unfold DeletesStanding; infer_instance

/-! ## Deletes that have landed -/

theorem lands_deletes {w : World} {a : Action} {id : DocId}
    (h : 0 < (lands w a).toList.countP (Call.deletes id)) :
    ∃ c ∈ lands w a, c.write = .deleteOffer id := by
  obtain ⟨c, hc, hdeletes⟩ := List.countP_pos_iff.mp h
  exact ⟨c, Option.mem_toList.mp hc, of_decide_eq_true hdeletes⟩

private theorem countP_lands_le (w : World) (a : Action) (q : Call → Bool) :
    (lands w a).toList.countP q ≤ 1 := by
  refine List.countP_le_length.trans ?_
  cases lands w a <;> simp

/-- Standing deletes reach every offer at most once, and a chosen one never. -/
theorem deletes_of_standing {trace : List (World × Action)} {w : World}
    (run : Run app World.init trace w) (hC : Meets DeletesStanding trace) :
    (∀ id, w.logged (Call.deletes id) ≤ 1) ∧
      ∀ d, Submitted w.log d.id d.data → Chosen w d → w.logged (Call.deletes d.id) = 0 := by
  suffices h : (∀ id, w.logged (Call.deletes id) ≤ 1) ∧
      ∀ d, NoOther w.log d → Chosen w d → w.logged (Call.deletes d.id) = 0 from
    ⟨h.1, fun d hsub => h.2 d (hsub.noOther ⟨trace, run⟩)⟩
  refine run.invariant_init (I := fun w => (∀ id, w.logged (Call.deletes id) ≤ 1) ∧
    ∀ d, NoOther w.log d → Chosen w d → w.logged (Call.deletes d.id) = 0) hC ?_ ?_
  · simp [World.logged, app, World.init]
  rintro u a hreach ⟨hone, hnone⟩ ha hstanding
  have hfound : ∀ id, 0 < (lands u a).toList.countP (Call.deletes id) →
      ∃ d ∈ u.store.offers.docs, d.id = id ∧ ¬ Chosen u d := by
    intro id hpos
    obtain ⟨c, hc, hwrite⟩ := lands_deletes hpos
    exact hstanding c hc id (by simp [hwrite, Write.deleteOffer?])
  constructor
  · intro id
    show (perform u a).logged _ ≤ 1
    rw [logged_perform ha]
    rcases Nat.eq_zero_or_pos ((lands u a).toList.countP (Call.deletes id)) with h | h
    · simpa [h] using hone id
    · obtain ⟨d, hd, rfl, -⟩ := hfound id h
      have hzero := ((mem_offers_iff hreach d).mp hd).2
      have hle := countP_lands_le u a (Call.deletes d.id)
      omega
  · intro d hd hchosen
    have hd' : NoOther u.log d := hd.before (extends_perform ha)
    show (perform u a).logged _ = 0
    rw [logged_perform ha]
    by_cases hbefore : Chosen u d
    · have hzero := hnone d hd' hbefore
      rcases Nat.eq_zero_or_pos ((lands u a).toList.countP (Call.deletes d.id)) with h | h
      · omega
      · obtain ⟨x, hx, hid, hnot⟩ := hfound d.id h
        exact absurd (hd'.eq hreach hx hid ▸ hbefore) hnot
    · -- The offer is chosen in this step, so that it is live, and no delete lands in it.
      have hchooses := ((chosen_perform ha d).mp hchosen).resolve_left hbefore
      have hzero := ((mem_offers_iff hreach d).mp (mem_offers_of_chooses hreach ha hd' hchooses)).2
      obtain ⟨-, -, -, -, rfl, -⟩ := chooses_inversion ha hchooses
      simpa [lands] using hzero

/-! ## Counting the offers of a provider on a task -/

private theorem rejection_about {w : World} (hw : Reachable app w) {e : Event} (he : e ∈ w.log)
    {t : DocId} {p : Uid} (hq : e.call.onNotif (notified .rejected t p) = true) :
    ∃ id o, e.call.about = some id ∧ Submitted w.log id o ∧ offeredBy t p o = true := by
  obtain ⟨n, hwrite, hn⟩ := Call.onNotif_iff.mp hq
  simp only [notified, Bool.and_eq_true, decide_eq_true_eq] at hn
  obtain ⟨⟨htask, huser⟩, hstatus⟩ := hn
  obtain ⟨-, id, o, habout, hsub, hon, hby⟩ :=
    (provenance hw).verdict_call he hwrite (by simp [hstatus])
  exact ⟨id, o, habout, hsub, by simp [offeredBy, hon, hby, htask, huser]⟩

private theorem countP_live {w : World} (hw : Reachable app w) {t : DocId} {p : Uid} {id : DocId}
    {o : Offer} (hsub : Submitted w.log id o) (ho : offeredBy t p o = true) :
    (w.store.offers.docs.countP fun d => offeredBy t p d.data && decide (d.id = id)) =
      if ⟨id, o⟩ ∈ w.store.offers.docs then 1 else 0 := by
  have hcongr : ∀ d ∈ w.store.offers.docs,
      (offeredBy t p d.data && decide (d.id = id)) = true ↔ (d == ⟨id, o⟩) = true := by
    intro d hd
    rw [beq_iff_eq]
    constructor
    · intro h
      have hid : d.id = id := of_decide_eq_true (Bool.and_eq_true_iff.mp h).2
      have hdata := ((mem_offers_iff hw d).mp hd).1.unique hw (hid ▸ hsub)
      cases d
      simp_all
    · rintro rfl
      simp [ho]
  rw [List.countP_congr hcongr]
  split
  · exact List.count_eq_one_of_mem w.store.offers.nodup_docs ‹_›
  · exact List.count_eq_zero_of_not_mem ‹_›

private theorem countP_rejections {w : World} (hw : Reachable app w) {t : DocId} {p : Uid}
    {id : DocId} {o : Offer} (ho : offeredBy t p o = true) :
    (w.log.countP fun e => e.call.onNotif (notified .rejected t p) &&
      decide (e.call.about.getD 0 = id)) = w.logged (Call.tells .rejected ⟨id, o⟩) := by
  obtain ⟨rfl, rfl⟩ : o.task = t ∧ o.provider = p := by simpa [offeredBy] using ho
  refine List.countP_congr fun e he => ?_
  simp only [Call.tells, Bool.and_eq_true, decide_eq_true_eq]
  constructor
  · rintro ⟨hq, hid⟩
    obtain ⟨id', o', habout, -⟩ := rejection_about hw he hq
    rw [habout] at hid ⊢
    exact ⟨congrArg some hid, hq⟩
  · rintro ⟨habout, hq⟩
    exact ⟨hq, by rw [habout]; rfl⟩

/-- If every submitted offer is either live or told of its rejection once, the numbers
add up. -/
theorem total_of_told {w : World} (hw : Reachable app w)
    (htold : ∀ d, Submitted w.log d.id d.data →
      w.logged (Call.tells .rejected d) = if d ∈ w.store.offers.docs then 0 else 1)
    (t : DocId) (p : Uid) :
    w.logged (Call.onOffer (offeredBy t p)) =
      liveOffers w.store t p + rejections w.store t p := by
  let ids := (w.log.filter fun e => e.call.onOffer (offeredBy t p)).map Event.id
  have hids : ∀ id, id ∈ ids ↔ ∃ o, Submitted w.log id o ∧ offeredBy t p o = true := by
    intro id
    simp only [ids, List.mem_map, List.mem_filter, Call.onOffer_iff, Submitted]
    constructor
    · rintro ⟨e, ⟨he, o, hwrite, ho⟩, hid⟩
      exact ⟨o, ⟨e, he, hwrite, hid⟩, ho⟩
    · rintro ⟨o, ⟨e, he, hwrite, hid⟩, ho⟩
      exact ⟨e, ⟨he, o, hwrite, ho⟩, hid⟩
  have hnodup : ids.Nodup := by
    have hall : ((submissions w.log).map Event.id).Nodup := by
      rw [submission_ids hw]
      exact List.nodup_range
    refine hall.sublist (List.Sublist.map _ (List.monotone_filter_right _ fun e he => ?_))
    obtain ⟨o, hwrite, -⟩ := Call.onOffer_iff.mp he
    exact Call.onOffer_iff.mpr ⟨o, hwrite, rfl⟩
  have hlive : liveOffers w.store t p = Pool.total (fun id =>
      w.store.offers.docs.countP fun d => offeredBy t p d.data && decide (d.id = id)) ids :=
    Pool.countP_eq_total hnodup Doc.id _ fun d hd hq =>
      (hids d.id).mpr ⟨d.data, ((mem_offers_iff hw d).mp hd).1, hq⟩
  have hrejected : rejections w.store t p = Pool.total (fun id => w.log.countP fun e =>
      e.call.onNotif (notified .rejected t p) && decide (e.call.about.getD 0 = id)) ids := by
    rw [rejections, notifs_eq_logged hw]
    refine Pool.countP_eq_total hnodup (fun e : Event => e.call.about.getD 0) _ fun e he hq => ?_
    obtain ⟨id, o, habout, hsub, ho⟩ := rejection_about hw he hq
    rw [habout]
    exact (hids id).mpr ⟨o, hsub, ho⟩
  have hone : ∀ id ∈ ids,
      (w.store.offers.docs.countP fun d => offeredBy t p d.data && decide (d.id = id)) +
        (w.log.countP fun e => e.call.onNotif (notified .rejected t p) &&
          decide (e.call.about.getD 0 = id)) = 1 := by
    intro id hid
    obtain ⟨o, hsub, ho⟩ := (hids id).mp hid
    have htells := htold ⟨id, o⟩ hsub
    rw [countP_live hw hsub ho, countP_rejections hw ho, htells]
    split <;> rfl
  rw [hlive, hrejected, ← Pool.total_add, Pool.total_congr hone, Pool.total_one]
  simp only [ids, List.length_map, World.logged, List.countP_eq_length_filter]

/-! ## The balance -/

theorem World.Quiet.tells_eq_deletes {w : World} (hquiet : w.Quiet) (hw : Reachable app w)
    {d : Doc Offer} (hsub : Submitted w.log d.id d.data) :
    w.logged (Call.tells .rejected d) = w.logged (Call.deletes d.id) := by
  rw [hquiet.logged_eq_issued, hquiet.logged_eq_issued, issued_deletes_eq_tells hw hsub]

/-- In balance, a delete that landed has hit a live offer that was not chosen: it was the
only delete of its offer, and a chosen offer has none. -/
theorem standing_of_balanced {trace : List (World × Action)} {w : World}
    (run : Run app World.init trace w) (hquiet : w.Quiet) (hbalanced : Balanced w) :
    Meets DeletesStanding trace := by
  have hw : Reachable app w := ⟨trace, run⟩
  rintro ⟨u, a⟩ hmem c hc id hid
  obtain ⟨front, back, -, hfront, ha, hback⟩ := run.split hmem
  have hu : Reachable app u := ⟨front, hfront⟩
  have hwrite : c.write = .deleteOffer id := by
    cases hcw : c.write <;> simp_all [Write.deleteOffer?]
  obtain ⟨uid, hproper⟩ := lands_proper hu hc
  simp only [Call.Proper, hwrite] at hproper
  obtain ⟨-, o, hsub, -⟩ := hproper
  have hsub' : Submitted w.log id o :=
    (hsub.mono (extends_perform ha)).mono (extends_run hback)
  have hlanded : u.logged (Call.deletes id) + 1 ≤ w.logged (Call.deletes id) := by
    have hperform : (perform u a).logged (Call.deletes id) =
        u.logged (Call.deletes id) + 1 := by
      rw [logged_perform ha, Option.mem_def.mp hc]
      simp [Call.deletes, hwrite]
    rw [← hperform]
    exact logged_mono hback _
  have hdeletes := hquiet.tells_eq_deletes hw (d := ⟨id, o⟩) hsub'
  have htimes := hbalanced.told ⟨id, o⟩ hsub'
  have hle : w.logged (Call.deletes id) ≤ 1 := by
    rw [← hdeletes, htimes]
    split <;> omega
  have hfirst : u.logged (Call.deletes id) = 0 := by omega
  refine ⟨⟨id, o⟩, (mem_offers_iff hu _).mpr ⟨hsub, hfirst⟩, rfl, fun hchosen => ?_⟩
  have haccepted : 0 < w.logged (Call.tells .accepted ⟨id, o⟩) := by
    rw [hquiet.logged_eq_issued]
    exact lt_of_lt_of_le hchosen (issued_mono ((Run.snoc a .nil ha).trans hback) _)
  have hnone : w.logged (Call.deletes id) = 0 := by
    rw [← hdeletes]
    exact hbalanced.exclusive ⟨id, o⟩ hsub' haccepted
  omega

theorem balanced_of_standing {trace : List (World × Action)} {w : World}
    (run : Run app World.init trace w) (hquiet : w.Quiet) (hC : Meets DeletesStanding trace) :
    Balanced w := by
  have hw : Reachable app w := ⟨trace, run⟩
  obtain ⟨hone, hnone⟩ := deletes_of_standing run hC
  have htold : ∀ d, Submitted w.log d.id d.data →
      w.logged (Call.tells .rejected d) = if d ∈ w.store.offers.docs then 0 else 1 := by
    intro d hsub
    have hle := hone d.id
    have hlive := mem_offers_iff hw d
    rw [hquiet.tells_eq_deletes hw hsub]
    split
    · exact (hlive.mp ‹_›).2
    · have hpos : w.logged (Call.deletes d.id) ≠ 0 := fun h => ‹¬ _› (hlive.mpr ⟨hsub, h⟩)
      omega
  refine ⟨total_of_told hw htold, htold, fun d hsub haccepted => ?_⟩
  rw [hquiet.logged_eq_issued] at haccepted
  rw [hquiet.tells_eq_deletes hw hsub]
  exact hnone d hsub haccepted

/-- In every state of a run whose deletes all hit a live offer that is not chosen, once
no write is on its way the offers are in balance; and if they are, all deletes were so. -/
theorem offers_balanced {trace : List (World × Action)} {w : World}
    (run : Run app World.init trace w) (hquiet : w.Quiet) :
    Balanced w ↔ Meets DeletesStanding trace :=
  ⟨standing_of_balanced run hquiet, balanced_of_standing run hquiet⟩

namespace Scenario

/-- Both phones reject the same offer. -/
def bothReject : List Action :=
  offered ++ owner 0 2 ++ owner 1 3 ++
    [.pressReject 2 (offer 0 2 sixty), .pressReject 3 (offer 0 2 sixty),
      .process 3 .ok, .process 4 .ok, .write 3, .write 4, .write 3, .write 4]

end Scenario

/-- After one acceptance the loser's offer is told of and the winner's is live. -/
theorem offers_balanced_oneAccept :
    Balanced (app.final app.init Scenario.oneAccept) :=
  (offers_balanced (app.run_steps _ Scenario.oneAccept (by decide +kernel))
    (by decide +kernel)).mpr (by decide +kernel)

/-- An offer can be rejected twice. -/
theorem unbalanced_reachable :
    ¬ ∀ w, Reachable app w → w.Quiet → Balanced w := by
  intro h
  have htotal := (h _ ⟨_, app.run_steps _ Scenario.bothReject (by decide +kernel)⟩
    (by decide +kernel)).total 0 2
  exact absurd htotal (by decide +kernel)

end Oun
