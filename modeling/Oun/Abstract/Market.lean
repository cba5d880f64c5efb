import Mathlib.Data.Set.Insert
import Mathlib.Logic.Function.Basic
import Oun.Library.Transition

/-! # A market of tasks

What the app is for. An author posts a task, others bid on it once each, and the author
refuses bids or awards the task to one of them, which refuses the rest. Everybody else may
report the task once, and when it is awarded the author rates the work once. -/

namespace Market

open Transition

/-- A task on the market. `placed` and `refusals` count the bids of each user that were ever
placed and refused. -/
structure Lot (U P S : Type*) where
  author : U
  bids : U → Option P
  winner : Option U
  placed : U → ℕ
  refusals : U → ℕ
  reporters : Set U
  rating : Option (U × S)

inductive Move (U P S : Type*) where
  | bid (p : U) (price : P)
  | refuse (p : U)
  | award (p : U)
  | report (u : U)
  | rate (p : U) (stars : S)
  deriving DecidableEq

inductive Deed (T U P S : Type*) where
  | post (t : T) (author : U)
  | on (t : T) (move : Move U P S)
  deriving DecidableEq

variable {T U P S : Type*}

def Lot.posted (author : U) : Lot U P S :=
  ⟨author, fun _ => none, none, fun _ => 0, fun _ => 0, ∅, none⟩

def Lot.Allows (lot : Lot U P S) : Move U P S → Prop
  | .bid p _ => lot.winner = none ∧ lot.bids p = none ∧ p ≠ lot.author
  | .refuse p | .award p => lot.winner = none ∧ (lot.bids p).isSome = true
  | .report u => u ∉ lot.reporters ∧ u ≠ lot.author
  | .rate p _ => lot.winner = some p ∧ lot.rating = none

open Classical in
noncomputable def Lot.play (lot : Lot U P S) : Move U P S → Lot U P S
  | .bid p price => { lot with
      bids := Function.update lot.bids p (some price)
      placed := Function.update lot.placed p (lot.placed p + 1) }
  | .refuse p => { lot with
      bids := Function.update lot.bids p none
      refusals := Function.update lot.refusals p (lot.refusals p + 1) }
  | .award p => { lot with
      bids := fun u => if u = p then lot.bids u else none
      winner := some p
      refusals := fun u =>
        lot.refusals u + if u ≠ p ∧ (lot.bids u).isSome = true then 1 else 0 }
  | .report u => { lot with reporters := insert u lot.reporters }
  | .rate p stars => { lot with rating := some (p, stars) }

open Classical in
/-- The market, which starts without tasks. -/
noncomputable def market (T U P S : Type*) : System (T → Option (Lot U P S)) (Deed T U P S) where
  init _ := none
  Enabled m
    | .post t _ => m t = none
    | .on t move => ∃ lot ∈ m t, lot.Allows move
  perform m
    | .post t author => Function.update m t (some (.posted author))
    | .on t move => Function.update m t ((m t).map fun lot => lot.play move)

/-- The market that numbers its tasks one after the other and takes no other prices. -/
noncomputable def numbered (U S : Type*) {P : Type*} (Priced : P → Prop) :
    System (ℕ → Option (Lot U P S)) (Deed ℕ U P S) where
  init := (market ℕ U P S).init
  Enabled m deed := (market ℕ U P S).Enabled m deed ∧
    match deed with
    | .post t _ => ∀ s < t, (m s).isSome = true
    | .on _ (.bid _ price) => Priced price
    | _ => True
  perform := (market ℕ U P S).perform

section Play

open Classical

variable (lot : Lot U P S) {p q : U}

theorem Lot.bid_bids_self (price : P) : (lot.play (.bid p price)).bids p = some price :=
  Function.update_self p _ lot.bids

theorem Lot.bid_bids_of_ne (price : P) (h : q ≠ p) :
    (lot.play (.bid p price)).bids q = lot.bids q :=
  Function.update_of_ne h _ lot.bids

theorem Lot.bid_placed_self (price : P) :
    (lot.play (.bid p price)).placed p = lot.placed p + 1 :=
  Function.update_self p _ lot.placed

theorem Lot.bid_placed_of_ne (price : P) (h : q ≠ p) :
    (lot.play (.bid p price)).placed q = lot.placed q :=
  Function.update_of_ne h _ lot.placed

theorem Lot.refuse_bids_self : (lot.play (.refuse p)).bids p = none :=
  Function.update_self p _ lot.bids

theorem Lot.refuse_bids_of_ne (h : q ≠ p) : (lot.play (.refuse p)).bids q = lot.bids q :=
  Function.update_of_ne h _ lot.bids

theorem Lot.refuse_refusals_self :
    (lot.play (.refuse p)).refusals p = lot.refusals p + 1 :=
  Function.update_self p _ lot.refusals

theorem Lot.refuse_refusals_of_ne (h : q ≠ p) :
    (lot.play (.refuse p)).refusals q = lot.refusals q :=
  Function.update_of_ne h _ lot.refusals

theorem Lot.award_bids_self : (lot.play (.award p)).bids p = lot.bids p :=
  if_pos rfl

theorem Lot.award_bids_of_ne (h : q ≠ p) : (lot.play (.award p)).bids q = none :=
  if_neg h

theorem Lot.award_refusals (p u : U) [Decidable (u ≠ p ∧ (lot.bids u).isSome = true)] :
    (lot.play (.award p)).refusals u =
      lot.refusals u + if u ≠ p ∧ (lot.bids u).isSome = true then 1 else 0 := by
  simp only [play]
  congr

variable {m : T → Option (Lot U P S)} {s t : T}

theorem market_post_self (author : U) :
    (market T U P S).perform m (.post t author) t = some (.posted author) :=
  Function.update_self t _ m

theorem market_post_of_ne (author : U) (h : s ≠ t) :
    (market T U P S).perform m (.post t author) s = m s :=
  Function.update_of_ne h _ m

variable {lot} in
theorem market_on_self (hlot : m t = some lot) (move : Move U P S) :
    (market T U P S).perform m (.on t move) t = some (lot.play move) := by
  simp [market, hlot]

theorem market_on_of_ne (move : Move U P S) (h : s ≠ t) :
    (market T U P S).perform m (.on t move) s = m s :=
  Function.update_of_ne h _ m

end Play

/-! ## What a market guarantees -/

/-- The author has no part in the bidding, a winner stands alone, every bid is accounted for,
and only winners are rated. -/
structure Lot.Fair (lot : Lot U P S) : Prop where
  outside : lot.bids lot.author = none ∧ lot.author ∉ lot.reporters
  single : ∀ p ∈ lot.winner, ∀ u, (lot.bids u).isSome = true ↔ u = p
  account : ∀ u, lot.placed u = (if (lot.bids u).isSome = true then 1 else 0) + lot.refusals u
  rated : ∀ r ∈ lot.rating, lot.winner = some r.1

theorem Lot.posted_fair (author : U) : (Lot.posted author : Lot U P S).Fair where
  outside := ⟨rfl, fun h => h⟩
  single p hp := by simp [posted] at hp
  account u := rfl
  rated r hr := by simp [posted] at hr

theorem Lot.Fair.play {lot : Lot U P S} (h : lot.Fair) {move : Move U P S}
    (hallows : lot.Allows move) : (lot.play move).Fair := by
  classical
  cases move with
  | bid p price =>
      obtain ⟨hopen, hnone, hne⟩ := hallows
      refine ⟨⟨?_, h.outside.2⟩, fun q hq => ?_, fun u => ?_, h.rated⟩
      · exact (Function.update_of_ne hne.symm _ _).trans h.outside.1
      · exact absurd (hopen.symm.trans hq) (by simp)
      · have haccount := h.account u
        by_cases hu : u = p
        · subst hu
          rw [hnone] at haccount
          simp only [Lot.play, Function.update_self, haccount, Option.isSome_some]
          simp
          omega
        · simpa only [Lot.play, Function.update_of_ne hu] using haccount
  | refuse p =>
      obtain ⟨hopen, hsome⟩ := hallows
      refine ⟨⟨?_, h.outside.2⟩, fun q hq => ?_, fun u => ?_, h.rated⟩
      · by_cases hp : lot.author = p
        · simp only [Lot.play, hp, Function.update_self]
        · exact (Function.update_of_ne hp _ _).trans h.outside.1
      · exact absurd (hopen.symm.trans hq) (by simp)
      · have haccount := h.account u
        by_cases hu : u = p
        · subst hu
          simp only [hsome, ite_true] at haccount
          simp only [Lot.play, Function.update_self, haccount, Option.isSome_none]
          simp
          omega
        · simpa only [Lot.play, Function.update_of_ne hu] using haccount
  | award p =>
      obtain ⟨hopen, hsome⟩ := hallows
      have hne : lot.author ≠ p := by
        rintro rfl
        simp [h.outside.1] at hsome
      refine ⟨⟨if_neg hne, h.outside.2⟩, fun q hq u => ?_, fun u => ?_, fun r hr => ?_⟩
      · obtain rfl : p = q := Option.some.inj hq
        by_cases hu : u = p <;> simp [Lot.play, hu, hsome]
      · have haccount := h.account u
        by_cases hu : u = p
        · subst hu
          simpa [Lot.play, hsome] using haccount
        · by_cases hbid : (lot.bids u).isSome = true
          · simp only [hbid, ite_true] at haccount
            simp [Lot.play, hu, hbid, haccount]
            omega
          · simpa [Lot.play, hu, hbid] using haccount
      · exact absurd (hopen.symm.trans (h.rated r hr)) (by simp)
  | report u =>
      obtain ⟨-, hne⟩ := hallows
      refine ⟨⟨h.outside.1, ?_⟩, h.single, h.account, h.rated⟩
      simpa [Lot.play, hne.symm] using h.outside.2
  | rate p stars =>
      refine ⟨h.outside, h.single, h.account, fun r hr => ?_⟩
      obtain rfl := Option.some.inj hr
      exact hallows.1

/-- All lots of all reachable markets are fair. -/
theorem market_fair {m : T → Option (Lot U P S)} (hm : Reachable (market T U P S) m) :
    ∀ t, ∀ lot ∈ m t, lot.Fair := by
  refine hm.invariant (I := fun m => ∀ t, ∀ lot ∈ m t, lot.Fair) (fun t lot h => by cases h) ?_
  rintro m deed - hfair henabled t lot hlot
  cases deed with
  | post s author =>
      by_cases ht : t = s
      · subst ht
        obtain rfl := Option.some.inj ((market_post_self author).symm.trans hlot)
        exact Lot.posted_fair author
      · exact hfair t lot ((market_post_of_ne author ht).symm.trans hlot)
  | on s move =>
      by_cases ht : t = s
      · subst ht
        obtain ⟨old, hold, hallows⟩ := henabled
        obtain rfl := Option.some.inj ((market_on_self hold move).symm.trans hlot)
        exact (hfair t old hold).play hallows
      · exact hfair t lot ((market_on_of_ne move ht).symm.trans hlot)

end Market
