import Oun.Verification.Offers.Ledger
import Oun.Verification.Sessions.Questions
import Oun.Verification.Winner.Single

/-! # One live offer for each provider and task

`HasOffered()` is asked when the dialog opens, the offer is written later and without
asking again. -/

namespace Oun

open Firestore Regex Transition

/-- If an offer is written in this action, `HasOffered()` would still let its provider
offer. -/
def StillFree (w : World) (a : Action) : Prop :=
  ∀ c ∈ lands w a, ∀ o ∈ c.write.offer?,
    hasOffered (w.store.offers.whereEqualTo Offer.task o.task) o.provider = true

instance (w : World) (a : Action) : Decidable (StillFree w a) := by
  unfold StillFree; infer_instance

/-! ## The question and the count -/

/-- On every answer to its query, `HasOffered()` says whether the provider has no offer. -/
theorem hasOffered_iff {s : Store} {t : DocId} {documents : List (Doc Offer)}
    (h : documents.Perm (s.offers.whereEqualTo Offer.task t)) (uid : Uid) :
    hasOffered documents uid = true ↔ liveOffers s t uid = 0 := by
  have hcount : documents.countP (fun d => decide (d.data.provider = uid)) =
      liveOffers s t uid := by
    rw [h.countP_eq, s.offers.countP_whereEqualTo _ _ fun o => decide (o.provider = uid)]
    simp only [liveOffers, Bool.and_comm]
    rfl
  rw [hasOffered_eq, hcount, beq_iff_eq]

/-! ## One step and whole runs -/

/-- A step keeps the offers at one each exactly when it writes no offer of a provider who
has one. -/
theorem liveOffers_step {w : World} {a : Action} (ha : Enabled w a)
    (hle : ∀ t p, liveOffers w.store t p ≤ 1) :
    StillFree w a ↔ ∀ t p, liveOffers (perform w a).store t p ≤ 1 := by
  have hoffers := offers_perform ha
  have hkeep : (perform w a).store.offers = w.store.offers →
      ∀ t p, liveOffers (perform w a).store t p ≤ 1 := by
    intro hsame t p
    rw [liveOffers, hsame]
    exact hle t p
  cases hlands : lands w a with
  | none =>
      rw [hlands] at hoffers
      exact iff_of_true (by simp [StillFree, hlands]) (hkeep hoffers)
  | some c =>
      obtain ⟨write, awaited, about⟩ := c
      rw [hlands] at hoffers
      cases write with
      | addOffer o =>
          have hcount : ∀ t p, liveOffers (perform w a).store t p =
              liveOffers w.store t p + if offeredBy t p o then 1 else 0 := by
            intro t p
            rw [liveOffers, hoffers]
            exact w.store.offers.count_add o _
          have hfree : StillFree w a ↔ liveOffers w.store o.task o.provider = 0 := by
            rw [← hasOffered_iff (.refl _)]
            simp [StillFree, hlands, Write.offer?]
          rw [hfree]
          constructor
          · intro hnone t p
            rw [hcount]
            by_cases hpair : offeredBy t p o = true
            · obtain ⟨rfl, rfl⟩ : o.task = t ∧ o.provider = p := by simpa [offeredBy] using hpair
              simp [hnone, hpair]
            · simpa [hpair] using hle t p
          · intro hone
            have hself := hone o.task o.provider
            rw [hcount] at hself
            simp only [offeredBy, decide_true, Bool.and_true, ite_true] at hself
            omega
      | deleteOffer id =>
          refine iff_of_true (by simp [StillFree, hlands, Write.offer?]) fun t p => ?_
          rw [liveOffers, hoffers]
          exact (w.store.offers.count_delete_le id _).trans (hle t p)
      | _ => exact iff_of_true (by simp [StillFree, hlands, Write.offer?]) (hkeep hoffers)

/-- All along a run every provider has at most one live offer on every task, exactly when
every offer is written at a moment where `HasOffered()` would still allow it. -/
theorem one_offer_per_provider {trace : List (World × Action)} {w : World}
    (run : Run app World.init trace w) :
    (∀ u ∈ visited trace w, ∀ t p, liveOffers u.store t p ≤ 1) ↔ Meets StillFree trace :=
  run.forall_visited_iff (I := fun u => ∀ t p, liveOffers u.store t p ≤ 1) ⟨[], .nil⟩
    (fun _ _ => Nat.zero_le _) fun _ _ _ hle ha => liveOffers_step ha hle

namespace Scenario

/-- A provider on two phones: both ask before either writes. -/
def offeredTwice : List Action :=
  posted ++ [.signIn 3 2] ++ visit 2 0 [] ++ visit 3 1 [] ++
    submit 0 1 [] sixty ++ submit 1 2 [] seventy ++ [.write 1, .write 2]

end Scenario

/-- Two providers offer, each once. -/
theorem one_offer_per_provider_offered :
    Meets StillFree (app.steps app.init Scenario.offered) ∧
      ∀ u ∈ visited (app.steps app.init Scenario.offered) (app.final app.init Scenario.offered),
        ∀ t p, liveOffers u.store t p ≤ 1 :=
  ⟨by decide +kernel,
    (one_offer_per_provider (app.run_steps _ Scenario.offered (by decide +kernel))).mpr
      (by decide +kernel)⟩

/-- A provider with two live offers on one task is reachable. -/
theorem two_offers_reachable :
    ¬ ∀ w, Reachable app w → ∀ t p, liveOffers w.store t p ≤ 1 := by
  intro h
  have htwo : liveOffers (app.final app.init Scenario.offeredTwice).store 0 2 = 2 := by
    decide +kernel
  have hle := h _ ⟨_, app.run_steps _ Scenario.offeredTwice (by decide +kernel)⟩ 0 2
  omega

end Oun
