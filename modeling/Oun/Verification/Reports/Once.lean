import Oun.Verification.Sessions.Once
import Oun.Verification.Sessions.Questions
import Oun.Verification.Winner.Single

/-! # At most one report of a task by a user

`noReported()` is asked before the report dialog opens, and Submit writes without asking
again. -/

namespace Oun

open Firestore Regex Transition

/-- The stored reports of a task by a user. -/
def reports (s : Store) (t : DocId) (reporter : Uid) : ℕ :=
  (s.violations.whereEqualTo Violation.taskId t).countP fun d => decide (d.data.reporter = reporter)

/-- A report of the task by the user is stored, so that `noReported()` answers no, or issued
and on its way. -/
def Reported (w : World) (t : DocId) (uid : Uid) : Prop :=
  noReported (w.store.violations.whereEqualTo Violation.taskId t) uid = false ∨
    ∃ p ∈ w.processes, ∃ c ∈ p.handler.calls, ∃ v ∈ c.write.violation?,
      v.taskId = t ∧ v.reporter = uid

/-- Submit is pressed only by a user who has not reported the task. -/
def ReportsUnreported (w : World) (a : Action) : Prop :=
  ∀ c ∈ issues w a, ∀ v ∈ c.write.violation?, ¬ Reported w v.taskId v.reporter

instance (w : World) (t : DocId) (uid : Uid) : Decidable (Reported w t uid) := by
  unfold Reported; infer_instance

instance (w : World) (a : Action) : Decidable (ReportsUnreported w a) := by
  unfold ReportsUnreported; infer_instance

def Violation.key (v : Violation) : DocId × Uid :=
  (v.taskId, v.reporter)

theorem reports_eq_count (s : Store) (t : DocId) (uid : Uid) :
    reports s t uid = s.violations.count (hasKey Violation.key (t, uid)) := by
  rw [reports, s.violations.countP_whereEqualTo _ _ fun v => decide (v.reporter = uid)]
  congr
  funext v
  simp [hasKey, Violation.key, Bool.and_comm]

theorem reported_iff_taken (w : World) (k : DocId × Uid) :
    Reported w k.1 k.2 ↔ Taken Store.violations Write.violation? Violation.key w k := by
  have hcall : ∀ c : Call, (∃ v ∈ c.write.violation?, v.taskId = k.1 ∧ v.reporter = k.2) ↔
      c.adds Write.violation? (hasKey Violation.key k) = true := by
    intro c
    simp [Call.adds_iff, hasKey, Violation.key, Prod.ext_iff]
  have hreports : noReported (w.store.violations.whereEqualTo Violation.taskId k.1) k.2 = false ↔
      0 < reports w.store k.1 k.2 := by
    rw [noReported_eq, beq_eq_false_iff_ne, ← Nat.pos_iff_ne_zero, reports]
  rw [Reported, Taken, hreports, reports_eq_count]
  simp only [hcall]

/-- If Submit is only pressed by users who have not reported the task, no state of the run
has two reports of one task by one user; and once its writes have landed, a run without
two such reports has pressed Submit so only. -/
theorem reported_once {trace : List (World × Action)} {w : World}
    (run : Run app World.init trace w) :
    (Meets ReportsUnreported trace →
        ∀ u ∈ visited trace w, ∀ t uid, reports u.store t uid ≤ 1) ∧
      (w.Quiet → (∀ t uid, reports w.store t uid ≤ 1) → Meets ReportsUnreported trace) := by
  have hC : ∀ u a, ReportsUnreported u a ↔ ∀ c ∈ issues u a, ∀ v ∈ c.write.violation?,
      ¬ Taken Store.violations Write.violation? Violation.key u v.key := by
    intro u a
    simp only [ReportsUnreported, ← reported_iff_taken, Violation.key]
  have hsingle : ∀ u a, Enabled u a → ∀ k,
      (issues u a).countP (Call.adds Write.violation? (hasKey Violation.key k)) ≤ 1 :=
    fun u a ha k => countP_issues_le_one ha (fun _ _ _ => rfl) (fun _ _ _ => rfl)
      fun _ _ _ _ => rfl
  simpa only [Prod.forall, ← reports_eq_count] using violations_grow.once hC hsingle run

namespace Scenario

/-- A user on two phones: both ask before either writes. -/
def reportDialogs : List Action :=
  posted ++ [.signIn 3 2] ++ visit 2 0 [] ++ visit 3 1 [] ++ [.pressReport 0, .pressReport 1,
    .process 1 (.violations []), .process 2 (.violations [])]

def reportedOnce : List Action :=
  reportDialogs ++ [.process 1 (.submit .spam), .process 2 .dismiss, .write 1]

def reportedTwice : List Action :=
  reportDialogs ++ [.process 1 (.submit .spam), .process 2 (.submit .scam), .write 1, .write 2]

end Scenario

/-- Of two open dialogs one is submitted. -/
theorem reported_once_reportedOnce :
    Meets ReportsUnreported (app.steps app.init Scenario.reportedOnce) ∧
      ∀ u ∈ visited (app.steps app.init Scenario.reportedOnce)
        (app.final app.init Scenario.reportedOnce), ∀ t uid, reports u.store t uid ≤ 1 :=
  have hmeets : Meets ReportsUnreported (app.steps app.init Scenario.reportedOnce) := by
    decide +kernel
  ⟨hmeets, (reported_once (app.run_steps _ Scenario.reportedOnce (by decide +kernel))).1 hmeets⟩

/-- Two reports of one task by one user are reachable. -/
theorem two_reports_reachable :
    ¬ ∀ w, Reachable app w → ∀ t uid, reports w.store t uid ≤ 1 := by
  intro h
  have htwo : reports (app.final app.init Scenario.reportedTwice).store 0 2 = 2 := by
    decide +kernel
  have hle := h _ ⟨_, app.run_steps _ Scenario.reportedTwice (by decide +kernel)⟩ 0 2
  omega

end Oun
