import Oun.Verification.Offers.Balance

/-! # Who has been told what

Each offer is stored and each delete is issued together with one notification, whatever
else goes on. Once the writes have landed, authors know of every offer, and an offer is
gone exactly when its provider has been told so. -/

namespace Oun

open Firestore Regex Transition

def onTask (t : DocId) (o : Offer) : Bool :=
  decide (o.task = t)

def addedOn (t : DocId) (n : Notif) : Bool :=
  decide (n.task = t) && decide (n.status = .added)

theorem countP_issues_added {w : World} {a : Action} (h : Enabled w a) (t : DocId) :
    (issues w a).countP (Call.onNotif (addedOn t)) =
      (issues w a).countP (Call.onOffer (onTask t)) := by
  have hissues := issues_inversion h
  generalize issues w a = calls at hissues
  cases hissues with
  | nothing => rfl
  | newTask => simp [sendNewTask, Call.onNotif, Call.onOffer]
  | @process k uid handler input hget henabled =>
      have hmoves := moves uid henabled
      generalize handler.next uid input = next at hmoves
      generalize handler.issued uid input = issued at hmoves
      cases hmoves with
      | offer furniture price =>
          by_cases ht : furniture.id = t <;>
            simp [addOffer, Call.onNotif, Call.onOffer, addedOn, onTask, ht]
      | accept taskId item documents =>
          rw [List.countP_eq_zero.mpr fun c hc => ?_, List.countP_eq_zero.mpr fun c hc => ?_]
          all_goals
            obtain ⟨x, -, ⟨-, rfl | rfl⟩ | ⟨-, rfl⟩⟩ := mem_accept.mp hc <;>
              simp [Call.onNotif, Call.onOffer, addedOn]
      | _ => simp [reject, report, rate, Call.onNotif, Call.onOffer, addedOn]

theorem issued_added {w : World} (hw : Reachable app w) (t : DocId) :
    w.issued (Call.onNotif (addedOn t)) = w.issued (Call.onOffer (onTask t)) := by
  refine hw.invariant (I := fun w => w.issued (Call.onNotif (addedOn t)) =
    w.issued (Call.onOffer (onTask t))) ?_ fun u a _ hu ha => ?_
  · simp [World.issued, World.logged, World.pending, app, World.init]
  · show (perform u a).issued _ = (perform u a).issued _
    rw [issued_perform ha, issued_perform ha, hu, countP_issues_added ha]

/-- When no write is on its way, the author of a task has been told of as many offers as were
ever stored on it, and an offer that was stored is gone exactly when its provider has been told
of a rejection of it. -/
theorem told_when_quiet {w : World} (hw : Reachable app w) (hquiet : w.Quiet) :
    (∀ t, w.store.notifs.count (addedOn t) = w.logged (Call.onOffer (onTask t))) ∧
      ∀ d, Submitted w.log d.id d.data →
        (d ∉ w.store.offers.docs ↔ 0 < w.logged (Call.tells .rejected d)) := by
  constructor
  · intro t
    rw [notifs_eq_logged hw, hquiet.logged_eq_issued, hquiet.logged_eq_issued, issued_added hw]
  · intro d hsub
    rw [hquiet.tells_eq_deletes hw hsub, mem_offers_iff hw]
    simp [hsub, Nat.pos_iff_ne_zero]

/-- Two Accept handlers on one task have told every provider of what they have deleted. -/
theorem told_when_quiet_bothAccept :
    (∀ t, (app.final app.init Scenario.bothAccept).store.notifs.count (addedOn t) =
        (app.final app.init Scenario.bothAccept).logged (Call.onOffer (onTask t))) ∧
      ∀ d, Submitted (app.final app.init Scenario.bothAccept).log d.id d.data →
        (d ∉ (app.final app.init Scenario.bothAccept).store.offers.docs ↔
          0 < (app.final app.init Scenario.bothAccept).logged (Call.tells .rejected d)) :=
  told_when_quiet ⟨_, app.run_steps _ _ Scenario.bothAccept_enabled⟩ (by decide +kernel)

end Oun
