import Oun.Verification.Winner.Choices

/-! # At most one winner for a task

The Accept handler does not look whether the task has been accepted meanwhile. A task
has one winner as long as no second choice is made for it. -/

namespace Oun

open Firestore Regex Transition

/-- An `accepted` notification for the task is stored, or issued and on its way. -/
def Settled (w : World) (t : DocId) : Prop :=
  0 < winners w.store t ∨
    ∃ p ∈ w.processes, ∃ c ∈ p.handler.calls, c.onNotif (acceptedOn t) = true

instance (w : World) (t : DocId) : Decidable (Settled w t) := by
  unfold Settled; infer_instance

/-- If an Accept handler finds its offer in this action, then its task is not settled. -/
def ChoosesUnsettled (w : World) (a : Action) : Prop :=
  ∀ choice ∈ chosen w a, ¬ Settled w choice.1

instance (w : World) (a : Action) : Decidable (ChoosesUnsettled w a) := by
  unfold ChoosesUnsettled; infer_instance

/-! ## Choices made so far -/

theorem settled_iff {w : World} (hw : Reachable app w) (t : DocId) :
    Settled w t ↔ 0 < w.issued (Call.onNotif (acceptedOn t)) := by
  rw [Settled, winners, notifs_eq_logged hw, ← pending_pos, World.issued]
  omega

theorem winners_le_issued {w : World} (hw : Reachable app w) (t : DocId) :
    winners w.store t ≤ w.issued (Call.onNotif (acceptedOn t)) := by
  rw [winners, notifs_eq_logged hw]
  exact Nat.le_add_right _ _

theorem winners_eq_issued {w : World} (hw : Reachable app w) (hquiet : w.Quiet)
    (t : DocId) : winners w.store t = w.issued (Call.onNotif (acceptedOn t)) := by
  rw [winners, notifs_eq_logged hw, hquiet.logged_eq_issued]

/-- Choices for unsettled tasks keep the number of issued acceptances at one. -/
theorem issued_accepted_le_one {w : World} {trace : List (World × Action)}
    (run : Run app World.init trace w) (hC : Meets ChoosesUnsettled trace) (t : DocId) :
    w.issued (Call.onNotif (acceptedOn t)) ≤ 1 := by
  refine issued_le_one run hC fun u a hu ha hchoice => ?_
  rw [countP_issues_accepted ha]
  cases hchosen : chosen u a with
  | none => exact .inl rfl
  | some choice =>
      by_cases ht : choice.1 = t
      · have hunsettled := hchoice choice hchosen
        rw [settled_iff hu, ht] at hunsettled
        exact .inr ⟨by omega, by simp [ht]⟩
      · exact .inl (by simp [ht])

/-- A second choice leaves two acceptances issued from then on. -/
theorem two_le_issued_of_chosen {w w' : World} {a : Action} {trace : List (World × Action)}
    {choice : DocId × Item} (hw : Reachable app w) (ha : Enabled w a)
    (hchosen : chosen w a = some choice) (hsettled : Settled w choice.1)
    (run : Run app (perform w a) trace w') :
    2 ≤ w'.issued (Call.onNotif (acceptedOn choice.1)) := by
  refine two_le_issued ha ((settled_iff hw _).mp hsettled) ?_ run
  rw [countP_issues_accepted ha, hchosen]
  simp

/-- If every choice of a run is made for an unsettled task, no state of the run has two
winners for a task; and once its writes have landed, a run without two winners made
every choice so. -/
theorem single_winner {trace : List (World × Action)} {w : World}
    (run : Run app World.init trace w) :
    (Meets ChoosesUnsettled trace → ∀ t, winners w.store t ≤ 1) ∧
      (w.Quiet → (∀ t, winners w.store t ≤ 1) → Meets ChoosesUnsettled trace) := by
  have hw : Reachable app w := ⟨trace, run⟩
  constructor
  · intro hC t
    exact (winners_le_issued hw t).trans (issued_accepted_le_one run hC t)
  · rintro hquiet hle ⟨u, a⟩ hmem choice hchosen hsettled
    obtain ⟨front, back, -, hfront, ha, hback⟩ := run.split hmem
    have htwo := two_le_issued_of_chosen ⟨front, hfront⟩ ha hchosen hsettled hback
    rw [← winners_eq_issued hw hquiet] at htwo
    exact absurd (hle choice.1) (by omega)

/-! ## Two owner sessions

User 1 posts a task and is signed in on two phones; users 2 and 3 make an offer each. -/

namespace Scenario

def profile : User :=
  ⟨1000000000, text ['a', '@', 'b', '.', 's', 'a'], text ['A'], text ['p', 'a', 's', 's', 'w', 'o',
    'r', 'd'], text ['5', '0', '0', '0', '0', '0', '0', '0', '0'], .value 0⟩

def title : Text := text ['F', 'i', 'x', ' ', 'm', 'y', ' ', 's', 'i', 'n', 'k']

def task : Doc Task := ⟨0, ⟨1, title, title, .riyadh, .maintenance⟩⟩

def sixty : Text := text ['6', '0']

def seventy : Text := text ['7', '0']

def offer (id : DocId) (uid : Uid) (price : Text) : Doc Offer := ⟨id, ⟨0, uid, 1, price⟩⟩

def added (id : DocId) : Doc Notif := ⟨id, ⟨1, 0, .added, true⟩⟩

def notif (id : DocId) (uid : Uid) (status : Status) : Doc Notif := ⟨id, ⟨uid, 0, status, true⟩⟩

/-- The accounts exist, sessions 0 and 1 belong to the owner, 2 and 3 to the providers. -/
def posted : List Action :=
  [.signUp 1 profile, .signUp 2 profile, .signUp 3 profile,
    .signIn 0 1, .signIn 1 1, .signIn 2 2, .signIn 3 3,
    .sendNewTask 0 title title .riyadh .maintenance, .write 0]

/-- A session opens the task and its first `isAccepted()` reads `notifs`. -/
def visit (session screen : ℕ) (notifs : List (Doc Notif)) : List Action :=
  [.openScreen session task, .isAccepted screen notifs]

/-- The OFFER button up to the press of ADD. -/
def submit (screen process : ℕ) (offers : List (Doc Offer)) (price : Text) : List Action :=
  [.pressOffer screen, .process process (.offers offers), .process process (.add price)]

def offered : List Action :=
  posted ++ visit 2 0 [] ++ submit 0 1 [] sixty ++ [.write 1, .write 1] ++
    visit 3 1 [added 0] ++ submit 1 2 [offer 0 2 sixty] seventy ++ [.write 2, .write 2]

/-- The owner opens the task on the given session and sees both offers. -/
def owner (session screen : ℕ) : List Action :=
  visit session screen [added 0, added 1] ++
    [.offersEvent screen [offer 0 2 sixty, offer 1 3 seventy]]

def confirmAccept (screen process : ℕ) (d : Doc Offer) : List Action :=
  [.pressAccept screen d, .process process .ok]

/-- The Accept handler of one session runs alone. -/
def oneAccept : List Action :=
  offered ++ owner 0 2 ++ confirmAccept 2 3 (offer 0 2 sixty) ++
    [.process 3 (.offers [offer 1 3 seventy, offer 0 2 sixty]), .write 3, .write 3, .write 3]

/-- Both phones accept, each another offer, and both queries run before any write. -/
def bothAccept : List Action :=
  offered ++ owner 0 2 ++ owner 1 3 ++
    confirmAccept 2 3 (offer 0 2 sixty) ++ confirmAccept 3 4 (offer 1 3 seventy) ++
    [.process 3 (.offers [offer 0 2 sixty, offer 1 3 seventy]),
      .process 4 (.offers [offer 0 2 sixty, offer 1 3 seventy]),
      .write 3, .write 3, .write 3, .write 4, .write 4, .write 4]

theorem bothAccept_enabled : Meets app.Enabled (app.steps app.init bothAccept) := by
  decide +kernel

end Scenario

/-- One Accept handler alone, reading the offers in either order. -/
theorem single_winner_oneAccept :
    Meets ChoosesUnsettled (app.steps app.init Scenario.oneAccept) ∧
      winners (app.final app.init Scenario.oneAccept).store 0 ≤ 1 :=
  ⟨by decide +kernel,
    (single_winner (app.run_steps _ Scenario.oneAccept (by decide +kernel))).1
      (by decide +kernel) 0⟩

/-- A task with two winners is reachable. -/
theorem two_winners_reachable :
    ¬ ∀ w, Reachable app w → ∀ t, winners w.store t ≤ 1 := by
  intro h
  have htwo : winners (app.final app.init Scenario.bothAccept).store 0 = 2 := by decide +kernel
  have hle := h _ ⟨_, app.run_steps _ _ Scenario.bothAccept_enabled⟩ 0
  omega

end Oun
