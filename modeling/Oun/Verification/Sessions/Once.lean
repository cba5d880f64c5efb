import Oun.Verification.Sessions.Accounting

/-! # Documents that are added once

A handler that is to add one document for a key looks for an earlier one long before it
writes. The documents have distinct keys as long as none is issued for a key that is
already taken. -/

namespace Oun

open Firestore Regex Transition

section Once

variable {α κ : Type} [DecidableEq κ] {docs : Store → Collection α} {added : Write → Option α}

def hasKey (key : α → κ) (k : κ) (a : α) : Bool :=
  decide (key a = k)

/-- A document with the key is stored, or issued and on its way. -/
def Taken (docs : Store → Collection α) (added : Write → Option α) (key : α → κ) (w : World)
    (k : κ) : Prop :=
  0 < (docs w.store).count (hasKey key k) ∨
    ∃ p ∈ w.processes, ∃ c ∈ p.handler.calls, c.adds added (hasKey key k) = true

variable (grows : Grows docs added) {key : α → κ}
include grows

theorem Grows.taken_iff {w : World} (hw : Reachable app w) (k : κ) :
    Taken docs added key w k ↔ 0 < w.issued (Call.adds added (hasKey key k)) := by
  rw [Taken, grows.count_eq_logged hw, ← pending_pos, World.issued]
  omega

/-- If every document is issued for a key that is not taken, no state of the run has two
documents with one key; and once its writes have landed, a run without two such documents
has issued every document so. -/
theorem Grows.once {C : World → Action → Prop}
    (hC : ∀ u a, C u a ↔ ∀ c ∈ issues u a, ∀ x ∈ added c.write, ¬ Taken docs added key u (key x))
    (hsingle : ∀ u a, Enabled u a → ∀ k, (issues u a).countP (Call.adds added (hasKey key k)) ≤ 1)
    {trace : List (World × Action)} {w : World} (run : Run app World.init trace w) :
    (Meets C trace → ∀ u ∈ visited trace w, ∀ k, (docs u.store).count (hasKey key k) ≤ 1) ∧
      (w.Quiet → (∀ k, (docs w.store).count (hasKey key k) ≤ 1) → Meets C trace) := by
  constructor
  · intro hmeets u hu k
    have hle : w.issued (Call.adds added (hasKey key k)) ≤ 1 := by
      refine issued_le_one run hmeets fun v a hv ha hCa => ?_
      rcases Nat.eq_zero_or_pos ((issues v a).countP (Call.adds added (hasKey key k))) with h | h
      · exact .inl h
      · obtain ⟨c, hc, hadds⟩ := List.countP_pos_iff.mp h
        obtain ⟨x, hx, hkey⟩ := Call.adds_iff.mp hadds
        have hnew := (hC v a).mp hCa c hc x hx
        rw [grows.taken_iff hv, of_decide_eq_true hkey] at hnew
        exact .inr ⟨by omega, le_antisymm (hsingle v a ha k) h⟩
    obtain ⟨front, back, -, hfront, hback⟩ := run.split_visited hu
    calc
      (docs u.store).count (hasKey key k) = u.logged (Call.adds added (hasKey key k)) :=
        grows.count_eq_logged ⟨front, hfront⟩ _
      _ ≤ u.issued (Call.adds added (hasKey key k)) := Nat.le_add_right _ _
      _ ≤ w.issued (Call.adds added (hasKey key k)) := issued_mono hback _
      _ ≤ 1 := hle
  · rintro hquiet hle ⟨u, a⟩ hmem
    refine (hC u a).mpr fun c hc x hx htaken => ?_
    obtain ⟨front, back, -, hfront, ha, hback⟩ := run.split hmem
    have hself : c.adds added (hasKey key (key x)) = true :=
      Call.adds_iff.mpr ⟨x, hx, by simp [hasKey]⟩
    have htwo := two_le_issued ha ((grows.taken_iff ⟨front, hfront⟩ _).mp htaken)
      (List.countP_pos_iff.mpr ⟨c, hc, hself⟩) hback
    rw [← hquiet.logged_eq_issued, ← grows.count_eq_logged ⟨trace, run⟩] at htwo
    exact absurd (hle (key x)) (by omega)

end Once

end Oun
