import Oun.Verification.Roles.Preservation
import Oun.Verification.Winner.Single

/-! # Roles and references of the stored documents

No rule of the server protects the collections. That tasks exist, and that owners and
providers are who they should be, follows from where the documents came from. -/

namespace Oun

open Firestore Regex Transition

/-- The user is the one who wrote the notification. -/
def WroteNotif (log : List Event) (uid : Uid) (d : Doc Notif) : Prop :=
  ∃ e ∈ log, e.call.write = .addNotif d.data ∧ e.id = d.id ∧ e.uid = uid

/-- The provider has submitted an offer on the task, whatever became of it. -/
def HasSubmitted (log : List Event) (provider : Uid) (t : DocId) : Prop :=
  ∃ e ∈ log, ∃ o, e.call.write = .addOffer o ∧ o.task = t ∧ o.provider = provider

structure References (w : World) : Prop where
  offers : ∀ d ∈ w.store.offers.docs,
    HasTask w.store d.data.task d.data.taskOwner ∧ d.data.provider ≠ d.data.taskOwner
  added : ∀ d ∈ w.store.notifs.docs, d.data.status = .added →
    HasTask w.store d.data.task d.data.user
  verdicts : ∀ d ∈ w.store.notifs.docs, d.data.status = .accepted ∨ d.data.status = .rejected →
    ∃ author, HasTask w.store d.data.task author ∧ WroteNotif w.log author d ∧
      d.data.user ≠ author ∧ HasSubmitted w.log d.data.user d.data.task
  violations : ∀ d ∈ w.store.violations.docs,
    ∃ author, HasTask w.store d.data.taskId author ∧ d.data.reporter ≠ author

/-- A submitted offer was not made by the author of its task. -/
theorem Provenance.submitted {w : World} (hw : Provenance w) {id : DocId} {o : Offer}
    (h : Submitted w.log id o) : HasTask w.store o.task o.taskOwner ∧ o.provider ≠ o.taskOwner := by
  obtain ⟨e, he, hwrite, -⟩ := h
  have hproper := hw.log e he
  simp only [Call.Proper, hwrite] at hproper
  obtain ⟨htask, hprovider, hne, -⟩ := hproper
  exact ⟨htask, hprovider ▸ hne⟩

theorem Provenance.verdict {w : World} (hw : Provenance w) {d : Doc Notif}
    (hd : d ∈ w.store.notifs.docs) (hstatus : d.data.status ≠ .added) :
    ∃ author, HasTask w.store d.data.task author ∧ WroteNotif w.log author d ∧
      d.data.user ≠ author ∧ HasSubmitted w.log d.data.user d.data.task := by
  obtain ⟨e, he, hwrite, hid⟩ := hw.notifs d hd
  obtain ⟨htask, id, o, -, hsub, hon, hby⟩ := hw.verdict_call he hwrite hstatus
  obtain ⟨hauthor, hne⟩ := hw.submitted hsub
  -- The owner named by the offer is the author who wrote the verdict.
  have howner : o.taskOwner = e.uid := (hon ▸ hauthor).unique htask
  refine ⟨e.uid, htask, ⟨e, he, hwrite, hid, rfl⟩, ?_, ?_⟩
  · rw [← hby, ← howner]
    exact hne
  · obtain ⟨e', he', hwrite', -⟩ := hsub
    exact ⟨e', he', o, hwrite', hon, hby⟩

/-- In every reachable state all stored documents refer to a task and keep the roles. -/
theorem roles_and_references {w : World} (hw : Reachable app w) : References w where
  offers := fun d hd => (provenance hw).submitted ((provenance hw).offers d hd)
  added := by
    intro d hd hstatus
    obtain ⟨e, he, hwrite, -⟩ := (provenance hw).notifs d hd
    have hproper := (provenance hw).log e he
    simpa only [Call.Proper, hwrite, hstatus] using hproper
  verdicts := by
    intro d hd hstatus
    refine (provenance hw).verdict hd ?_
    rcases hstatus with h | h <;> simp [h]
  violations := by
    intro d hd
    obtain ⟨e, he, hwrite, -⟩ := (provenance hw).violations d hd
    have hproper := (provenance hw).log e he
    simp only [Call.Proper, hwrite] at hproper
    obtain ⟨hreporter, author, htask, hne⟩ := hproper
    exact ⟨author, htask, hreporter ▸ hne⟩

namespace Scenario

/-- After the acceptance the losing provider reports the task. -/
def reported : List Action :=
  oneAccept ++ [.pressReport 1, .process 4 (.violations []), .process 4 (.submit .spam), .write 4]

end Scenario

/-- Every collection is in use when the owner has accepted and a provider reported. -/
theorem roles_and_references_reported :
    (app.final app.init Scenario.reported).store.violations.docs ≠ [] ∧
      References (app.final app.init Scenario.reported) :=
  ⟨by decide +kernel,
    roles_and_references ⟨_, app.run_steps _ Scenario.reported (by decide +kernel)⟩⟩

end Oun
