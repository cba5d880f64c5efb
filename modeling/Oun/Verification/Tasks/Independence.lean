import Mathlib.Logic.Relation
import Oun.Verification.Tasks.Progress
import Oun.Verification.Winner.Single

/-! # Operations on different tasks do not interfere

Two operations on different tasks lead to the same store in every order of their steps,
up to the names of the documents they create. -/

namespace Oun

open Firestore Regex Transition

/-! ## What two operations have done together -/

/-- Each operation has made progress as if alone, the store is where the writes of both
lead, and a task of which nothing has been written is as it was. -/
structure Joined (ops : Side → Operation) (s : Store) (done : Side → Multiset Write)
    (d : Pair) : Prop where
  progress : ∀ side, Progress s (ops side) (done side) (d.handlers side)
  reached : Reached s (done .first + done .second) d.store
  same : ∀ t, (∀ side, (ops side).task = t → done side = 0) → SameOnTask t s d.store

private theorem total_update (done : Side → Multiset Write) (side : Side) (w : Write) :
    let next := Function.update done side (w ::ₘ done side)
    next .first + next .second = w ::ₘ (done .first + done .second) := by
  cases side <;> simp

section

variable {ops : Side → Operation} {s : Store} (haddressed : ∀ side, (ops side).Addressed s)
  (hne : (ops .first).task ≠ (ops .second).task)
include haddressed hne

theorem joined_step {done : Side → Multiset Write} {d : Pair} (h : Joined ops s done d)
    {turn : Turn} (henabled : (together ops s).Enabled d turn) :
    ∃ done', Joined ops s done' ((together ops s).perform d turn) := by
  obtain ⟨side, move⟩ := turn
  have hside : ∀ side', (ops side').task = (ops side).task → side' = side := by
    intro side' htask
    cases side <;> cases side' <;>
      first | rfl | exact absurd htask hne | exact absurd htask.symm hne
  cases move with
  | input input =>
      have hsame : done side = 0 → SameOnTask (ops side).task s d.store := fun hzero =>
        h.same _ fun side' htask => (hside side' htask).symm ▸ hzero
      refine ⟨done, fun side' => ?_, h.reached, h.same⟩
      by_cases heq : side' = side
      · subst heq
        simpa [together, Pair.put, Operation.move] using (h.progress side').input hsame henabled
      · simpa [together, Pair.put, heq] using h.progress side'
  | write =>
      have hprogress := h.progress side
      cases hhandler : d.handlers side with
      | writing job calls =>
          cases calls with
          | nil => simp [together, Operation.Can, hhandler, Handler.calls] at henabled
          | cons call calls =>
              rw [hhandler] at hprogress
              obtain ⟨hmem, hnext⟩ := hprogress.write
              have hon := (ops side).writes_on (haddressed side) _ hmem
              refine ⟨Function.update done side (call.write ::ₘ done side), fun side' => ?_, ?_, ?_⟩
              · by_cases heq : side' = side
                · subst heq
                  simpa [together, Pair.put, Operation.move, hhandler] using hnext
                · simpa [together, Pair.put, heq] using h.progress side'
              · rw [total_update]
                simpa [together, Pair.put, Operation.move, hhandler] using h.reached.write hon
              · intro t hzero
                have htask : (ops side).task ≠ t := fun htask => by simpa using hzero side htask
                have hbefore : SameOnTask t s d.store := h.same t fun side' htask' => by
                  have hother : side' ≠ side := by
                    rintro rfl
                    exact htask htask'
                  simpa [hother] using hzero side' htask'
                simpa [together, Pair.put, Operation.move, hhandler] using
                  hbefore.write h.reached htask hon
      | _ => simp [together, Operation.Can, hhandler, Handler.calls] at henabled

theorem joined_of_run {trace : List (Pair × Turn)} {d : Pair}
    (run : Run (together ops s) (together ops s).init trace d) :
    ∃ done, Joined ops s done d := by
  refine run.invariant (C := fun _ _ => True) (I := fun d => ∃ done, Joined ops s done d)
    (fun _ _ => trivial) ⟨fun _ => 0, fun side => .start s (ops side), ?_, fun t _ => .refl t s⟩
    fun u turn hu hturn _ => ?_
  · simpa [together] using Reached.refl s
  · obtain ⟨done, hjoined⟩ := hu
    exact joined_step haddressed hne hjoined hturn

/-- Where two finished operations lead does not depend on the order of their steps. -/
theorem reached_of_finished {trace : List (Pair × Turn)} {d : Pair}
    (run : Run (together ops s) (together ops s).init trace d) (hfinished : d.Finished) :
    Reached s (↑((ops .first).writes s) + ↑((ops .second).writes s)) d.store := by
  obtain ⟨done, hjoined⟩ := joined_of_run haddressed hne run
  have hall : ∀ side, done side = ↑((ops side).writes s) := fun side =>
    (hjoined.progress side).finished (hfinished side)
  rw [← hall, ← hall]
  exact hjoined.reached

end

/-! ## An operation alone -/

/-- A step of the operation alone. -/
def Operation.Advances (op : Operation) (x y : Store × Handler) : Prop :=
  ∃ move, op.Can x.1 x.2 move ∧ y = op.move x.1 x.2 move

open Relation (ReflTransGen)

theorem Operation.advances_input (op : Operation) {s : Store} {handler : Handler} (input : Input)
    (henters : op.Enters input) (henabled : handler.Enabled s input) :
    ReflTransGen op.Advances (s, handler) (s, handler.next op.uid input) :=
  .single ⟨.input input, ⟨henters, henabled⟩, rfl⟩

/-- All issued writes can be made. -/
theorem Operation.advances_writes (op : Operation) (s : Store) (job : Job) (calls : List Call) :
    ∃ s', ReflTransGen op.Advances (s, .writing job calls) (s', .writing job []) := by
  induction calls generalizing s with
  | nil => exact ⟨s, .refl⟩
  | cons call calls ih =>
      obtain ⟨s', hrest⟩ := ih (call.write.apply s)
      exact ⟨s', .head ⟨.write, List.cons_ne_nil call calls, rfl⟩ hrest⟩

/-- Alone, an operation can always be completed. -/
theorem Operation.completes (op : Operation) (s : Store) :
    ∃ s' handler, ReflTransGen op.Advances (s, op.start) (s', handler) ∧ handler.Finished := by
  cases op with
  | offer uid furniture price =>
      have hask := (offer uid furniture price).advances_input
        (.offers (s.offers.whereEqualTo Offer.task furniture.id)) trivial
        (show (Handler.hasOffered furniture).Enabled s _ from .refl _)
      by_cases hnone : hasOffered (s.offers.whereEqualTo Offer.task furniture.id) uid = true
      · simp only [Handler.next, Operation.uid, hnone, ite_true] at hask
        have hadd := (offer uid furniture price).advances_input (.add price.val) rfl
          (show (Handler.offerDialog furniture).Enabled s _ from price.property)
        obtain ⟨s', hwrites⟩ := (offer uid furniture price).advances_writes s .offer
          (addOffer furniture uid price.val)
        exact ⟨s', _, (hask.trans hadd).trans hwrites, trivial⟩
      · simp only [Handler.next, Operation.uid, hnone] at hask
        exact ⟨s, _, hask, trivial⟩
  | accept uid taskId item =>
      have hok := (accept uid taskId item).advances_input .ok trivial
        (show (Handler.acceptDialog taskId item).Enabled s _ from trivial)
      have hread := (accept uid taskId item).advances_input
        (.offers (s.offers.whereEqualTo Offer.task taskId)) trivial
        (show (Handler.acceptGet taskId item).Enabled s _ from .refl _)
      obtain ⟨s', hwrites⟩ := (accept uid taskId item).advances_writes s (.accept taskId item)
        (Oun.accept taskId item (s.offers.whereEqualTo Offer.task taskId))
      exact ⟨s', _, (hok.trans hread).trans hwrites, trivial⟩
  | reject uid taskId item =>
      have hok := (reject uid taskId item).advances_input .ok trivial
        (show (Handler.rejectDialog taskId item).Enabled s _ from trivial)
      obtain ⟨s', hwrites⟩ := (reject uid taskId item).advances_writes s (.reject taskId item)
        (Oun.reject taskId item)
      exact ⟨s', _, hok.trans hwrites, trivial⟩
  | report uid furniture reason =>
      have hask := (report uid furniture reason).advances_input
        (.violations (s.violations.whereEqualTo Violation.taskId furniture.id)) trivial
        (show (Handler.noReported furniture).Enabled s _ from .refl _)
      by_cases hnone :
          noReported (s.violations.whereEqualTo Violation.taskId furniture.id) uid = true
      · simp only [Handler.next, Operation.uid, hnone, ite_true] at hask
        have hsubmit := (report uid furniture reason).advances_input (.submit reason) rfl
          (show (Handler.reportDialog furniture).Enabled s _ from trivial)
        obtain ⟨s', hwrites⟩ := (report uid furniture reason).advances_writes s .report
          (Oun.report furniture uid reason)
        exact ⟨s', _, (hask.trans hsubmit).trans hwrites, trivial⟩
      · simp only [Handler.next, Operation.uid, hnone] at hask
        exact ⟨s, _, hask, trivial⟩

/-! ## One after the other -/

theorem Pair.put_self (d : Pair) (side : Side) : d.put side (d.store, d.handlers side) = d := by
  simp [put]

/-- What an operation can do alone it can do while the other waits. -/
theorem run_of_advances {ops : Side → Operation} (s : Store) (d : Pair) {side : Side}
    {x : Store × Handler}
    (h : ReflTransGen (ops side).Advances (d.store, d.handlers side) x) :
    ∃ trace, Run (together ops s) d trace (d.put side x) ∧ ∀ step ∈ trace, step.2.side = side := by
  induction h with
  | refl => exact ⟨[], by rw [Pair.put_self]; exact .nil, by simp⟩
  | @tail x y _ hstep ih =>
      obtain ⟨trace, run, hall⟩ := ih
      obtain ⟨move, hcan, rfl⟩ := hstep
      have hperform : (together ops s).perform (d.put side x) ⟨side, move⟩ =
          d.put side ((ops side).move x.1 x.2 move) := by
        simp [together, Pair.put]
      rw [← hperform]
      refine ⟨trace ++ [(d.put side x, ⟨side, move⟩)], run.snoc _ ?_, ?_⟩
      · simpa [together, Pair.put] using hcan
      · intro step hmem
        rcases List.mem_append.mp hmem with hmem | hmem
        · exact hall step hmem
        · rw [List.mem_singleton.mp hmem]

/-- A run in which the operation of one side is completed before the other starts. -/
def SerialRun (ops : Side → Operation) (s : Store) (order : Side) (d : Pair) : Prop :=
  ∃ front back, Run (together ops s) (together ops s).init (front ++ back) d ∧ d.Finished ∧
    (∀ step ∈ front, step.2.side = order) ∧ ∀ step ∈ back, step.2.side = order.other

theorem exists_serialRun (ops : Side → Operation) (s : Store) (order : Side) :
    ∃ d, SerialRun ops s order d := by
  obtain ⟨s₁, handler₁, hadvances₁, hfinished₁⟩ := (ops order).completes s
  obtain ⟨front, run₁, hfront⟩ : ∃ front, Run (together ops s) (together ops s).init front
      ((together ops s).init.put order (s₁, handler₁)) ∧ ∀ step ∈ front, step.2.side = order :=
    run_of_advances s _ hadvances₁
  obtain ⟨s₂, handler₂, hadvances₂, hfinished₂⟩ := (ops order.other).completes s₁
  have hstart : ((together ops s).init.put order (s₁, handler₁)).handlers order.other =
      (ops order.other).start := by
    cases order <;> rfl
  rw [← hstart] at hadvances₂
  obtain ⟨back, run₂, hback⟩ :=
    run_of_advances s ((together ops s).init.put order (s₁, handler₁)) hadvances₂
  refine ⟨_, front, back, run₁.trans run₂, fun side => ?_, hfront, hback⟩
  cases order <;> cases side <;> first | exact hfinished₁ | exact hfinished₂

/-! ## Independence -/

/-- The operations have ended in the store in which they end one after the other, in
either order. -/
def SerialAlike (ops : Side → Operation) (s : Store) (d : Pair) : Prop :=
  ∀ order, (∃ d', SerialRun ops s order d') ∧
    ∀ d', SerialRun ops s order d' → SameUpToIds s d.store d'.store

/-- In every interleaving two operations on different tasks end as they do one after the
other, and leave the documents of all further tasks as they were. -/
theorem different_tasks_independent {ops : Side → Operation} {s : Store}
    (haddressed : ∀ side, (ops side).Addressed s)
    (hne : (ops .first).task ≠ (ops .second).task) {trace : List (Pair × Turn)} {d : Pair}
    (run : Run (together ops s) (together ops s).init trace d) (hfinished : d.Finished) :
    SerialAlike ops s d ∧
      (d.store.tasks = s.tasks ∧ d.store.rate = s.rate ∧ d.store.users = s.users) ∧
      ∀ t, (∀ side, (ops side).task ≠ t) → SameOnTask t s d.store := by
  have hreached := reached_of_finished haddressed hne run hfinished
  refine ⟨fun order => ⟨exists_serialRun ops s order, ?_⟩,
    ⟨hreached.tasks, hreached.rate, hreached.users⟩, fun t ht => ?_⟩
  · rintro d' ⟨front, back, run', hfinished', -⟩
    exact hreached.sameUpToIds (reached_of_finished haddressed hne run' hfinished')
  · obtain ⟨done, hjoined⟩ := joined_of_run haddressed hne run
    exact hjoined.same t fun side htask => absurd htask (ht side)

/-- The Reject dialogs of the app are about offers of their own tasks. -/
theorem reject_addressed {w : World} (hw : Reachable app w) {uid : Uid} {taskId : DocId}
    {item : Item} (hp : ⟨uid, .rejectDialog taskId item⟩ ∈ w.processes) :
    (Operation.reject uid taskId item).Addressed w.store := by
  obtain ⟨o, hsub, htask, -⟩ := ((provenance hw).processes _ hp).2
  refine ⟨hsub.lt hw, fun d hd hid => ?_⟩
  rw [((mem_offers_iff hw d).mp hd).1.unique hw (hid ▸ hsub)]
  exact htask

namespace Scenario

/-- The owner accepts an offer while a provider offers on another task. -/
def acceptAndOffer : Side → Operation
  | .first => .accept 1 0 ⟨sixty, 2, 0⟩
  | .second => .offer 3 { (Furniture.ofDoc task) with id := 1 } ⟨seventy, by decide⟩

def acceptAndOfferTurns : List Turn :=
  [⟨.second, .input (.offers [])⟩, ⟨.first, .input .ok⟩, ⟨.second, .input (.add seventy)⟩,
    ⟨.first, .input (.offers [offer 1 3 seventy, offer 0 2 sixty])⟩, ⟨.second, .write⟩,
    ⟨.first, .write⟩, ⟨.first, .write⟩, ⟨.second, .write⟩, ⟨.first, .write⟩]

end Scenario

/-- An Accept and an offer on another task, with their steps interleaved. -/
theorem different_tasks_independent_acceptAndOffer :
    SerialAlike Scenario.acceptAndOffer (app.final app.init Scenario.offered).store
      ((together Scenario.acceptAndOffer (app.final app.init Scenario.offered).store).final
        (together Scenario.acceptAndOffer (app.final app.init Scenario.offered).store).init
        Scenario.acceptAndOfferTurns) :=
  (different_tasks_independent (fun side => by cases side <;> trivial) (by decide)
    (System.run_steps _ _ Scenario.acceptAndOfferTurns (by decide +kernel))
    (fun side => by cases side <;> decide +kernel)).1

end Oun
