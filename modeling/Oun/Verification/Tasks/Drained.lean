import Oun.Verification.Tasks.Writes
import Oun.Verification.Winner.Single

/-! # When the writes on their way land

Nothing stops an issued write. When the app issues no more, the writes of all handlers land
in some order, and up to the names of new documents all orders lead to one store, except
that the last of several updates of one rate wins. -/

namespace Oun

open Firestore Regex Transition

def Write.task? : Write → Option Task
  | .addTask t => some t
  | _ => none

theorem tasks_grow : Grows Store.tasks Write.task? where
  empty := rfl
  same h := h.tasks
  add {write _} h _ := by
    cases write <;> cases h
    rfl
  keep {write} h _ := by cases write <;> cases h <;> rfl
  docId {write _} h _ := by
    cases write <;> cases h
    rfl

/-- The writes on their way. -/
def World.outstanding (w : World) : Multiset Write :=
  ↑(w.processes.flatMap fun p => p.handler.calls.map Call.write)

theorem mem_outstanding {w : World} {x : Write} :
    x ∈ w.outstanding ↔ ∃ p ∈ w.processes, ∃ c ∈ p.handler.calls, c.write = x := by
  simp [World.outstanding]

theorem count_outstanding (w : World) (x : Write) :
    w.outstanding.count x = w.pending fun c => decide (c.write = x) := by
  rw [World.outstanding, Multiset.coe_count, List.count_flatMap, World.pending, Pool.total]
  congr 1
  refine List.map_congr_left fun p _ => ?_
  simp only [Function.comp_def, List.count, List.countP_map]
  exact List.countP_congr (by simp)

theorem World.Quiet.outstanding {w : World} (hquiet : w.Quiet) : w.outstanding = 0 := by
  refine Multiset.eq_zero_of_forall_notMem fun x hx => ?_
  obtain ⟨p, hp, c, hc, -⟩ := mem_outstanding.mp hx
  simp [hquiet p hp] at hc

/-- A write that lands is one of those on their way. -/
theorem outstanding_perform {w : World} {k : ℕ} (h : Enabled w (.write k)) :
    ∃ c, lands w (.write k) = some c ∧
      w.outstanding = c.write ::ₘ (perform w (.write k)).outstanding := by
  obtain ⟨⟨uid, handler⟩, hget, hcalls⟩ := (w.onProcess_iff k _).mp h
  obtain ⟨c, calls, heq⟩ := List.exists_cons_of_ne_nil hcalls
  have hc : lands w (.write k) = some c := by simp [lands, hget, heq]
  refine ⟨c, hc, Multiset.ext.mpr fun x => ?_⟩
  have hpending := pending_perform h fun c => decide (c.write = x)
  rw [hc] at hpending
  simp only [issues, spawned, Option.map_none, Option.getD_none, List.countP_nil, Nat.add_zero,
    Option.toList_some, List.countP_singleton, decide_eq_true_eq] at hpending
  rw [Multiset.count_cons, count_outstanding, count_outstanding, ← hpending]
  congr 1
  exact if_congr eq_comm rfl rfl

/-- What a step issues is on its way after it. -/
theorem outstanding_of_not_lands {w : World} {a : Action} (h : Enabled w a)
    (hlands : lands w a = none) :
    (perform w a).outstanding = w.outstanding + ↑((issues w a).map Call.write) := by
  refine Multiset.ext.mpr fun x => ?_
  have hpending := pending_perform h fun c => decide (c.write = x)
  rw [hlands] at hpending
  rw [Multiset.count_add, count_outstanding, count_outstanding, Multiset.coe_count, List.count,
    List.countP_map]
  exact hpending

/-! ## Where writes lead -/

/-- `s'` is `s` after the writes in some order, up to the names of the documents created. -/
structure Landed (s : Store) (writes : Multiset Write) (s' : Store) : Prop where
  grown : ∀ {α : Type} {docs : Store → Collection α} {added : Write → Option α},
    Grows docs added → (docs s).next ≤ (docs s').next ∧
      (docs s').view (docs s).next = (docs s).view (docs s).next + created added writes
  offers : s.offers.next ≤ s'.offers.next ∧ s'.offers.view s.offers.next =
    (s.offers.view s.offers.next).filter (fun x => ∀ id ∈ x.1, Write.deleteOffer id ∉ writes) +
      created Write.offer? writes
  users : ∀ p, ((∀ rate, Write.updateRate p rate ∉ writes) ∧ s'.users p = s.users p) ∨
    ∃ rate, Write.updateRate p rate ∈ writes ∧
      s'.users p = (s.users p).map fun user => { user with rate }

theorem Landed.refl (s : Store) : Landed s 0 s where
  grown _ := ⟨le_rfl, by simp [created]⟩
  offers := ⟨le_rfl, by simp [created]⟩
  users p := .inl ⟨by simp, rfl⟩

private theorem Landed.write_offers {s s' : Store} {writes : Multiset Write}
    (h : Landed s writes s') {x : Write} (hold : ∀ id, x = .deleteOffer id → id < s.offers.next) :
    s.offers.next ≤ (x.apply s').offers.next ∧ (x.apply s').offers.view s.offers.next =
      (s.offers.view s.offers.next).filter
          (fun y => ∀ id ∈ y.1, Write.deleteOffer id ∉ x ::ₘ writes) +
        created Write.offer? (x ::ₘ writes) := by
  obtain ⟨hnext, hview⟩ := h.offers
  cases x with
  | addOffer o =>
      refine ⟨Nat.le_succ_of_le hnext, ?_⟩
      rw [created_cons_some Write.offer? rfl, ← Multiset.add_assoc]
      refine (s'.offers.view_add hnext o).trans ?_
      rw [hview]
      simp
  | deleteOffer id =>
      refine ⟨hnext, ?_⟩
      rw [created_cons_none rfl]
      refine (s'.offers.view_delete (hold id rfl)).trans ?_
      rw [hview, Multiset.filter_add, Multiset.filter_filter]
      congr 1
      · refine Multiset.filter_congr fun y _ => ?_
        simp only [Multiset.mem_cons, Write.deleteOffer.injEq, not_or]
        constructor
        · rintro ⟨hid, hkept⟩ i hi
          exact ⟨fun heq => hid (heq ▸ hi), hkept i hi⟩
        · intro hkept
          exact ⟨fun hid => (hkept id hid).1 rfl, fun i hi => (hkept i hi).2⟩
      · -- The names of new documents are none that the delete knows.
        refine Multiset.filter_eq_self.mpr fun y hy => ?_
        obtain ⟨o, -, rfl⟩ := Multiset.mem_map.mp hy
        simp
  | _ =>
      refine ⟨hnext, hview.trans ?_⟩
      rw [created_cons_none rfl]
      simp

theorem Landed.write {s s' : Store} {writes : Multiset Write} (h : Landed s writes s') {x : Write}
    (hold : ∀ id, x = .deleteOffer id → id < s.offers.next) :
    Landed s (x ::ₘ writes) (x.apply s') where
  grown {α docs added} hgrows := by
    obtain ⟨hnext, hview⟩ := h.grown hgrows
    cases hadded : added x with
    | none =>
        rw [hgrows.keep hadded, created_cons_none hadded]
        exact ⟨hnext, hview⟩
    | some a =>
        rw [hgrows.add hadded, created_cons_some added hadded, ← Multiset.add_assoc, ← hview]
        exact ⟨Nat.le_succ_of_le hnext, (docs s').view_add hnext a⟩
  offers := h.write_offers hold
  users p := by
    by_cases hx : ∃ rate, x = .updateRate p rate
    · obtain ⟨rate, rfl⟩ := hx
      refine .inr ⟨rate, Multiset.mem_cons_self _ _, ?_⟩
      rcases h.users p with ⟨-, hsame⟩ | ⟨rate', -, hset⟩
      · simp [Write.apply, hsame]
      · simp [Write.apply, hset, Function.comp_def]
    · have hkeep : (x.apply s').users p = s'.users p := by
        cases x with
        | updateRate q rate =>
            have hne : p ≠ q := by
              rintro rfl
              exact hx ⟨rate, rfl⟩
            exact if_neg hne
        | _ => rfl
      rw [hkeep]
      rcases h.users p with ⟨hnone, hsame⟩ | ⟨rate, hmem, hset⟩
      · refine .inl ⟨fun rate hmem => ?_, hsame⟩
        rcases Multiset.mem_cons.mp hmem with heq | hmem
        · exact hx ⟨rate, heq.symm⟩
        · exact hnone rate hmem
      · exact .inr ⟨rate, Multiset.mem_cons_of_mem hmem, hset⟩

/-! ## Runs of writes -/

def OnlyWrites (_ : World) : Action → Prop
  | .write _ => True
  | _ => False

instance (w : World) (a : Action) : Decidable (OnlyWrites w a) := by
  apply Action.casesOn (motive := fun a => Decidable (OnlyWrites w a)) a <;> intros <;>
    unfold OnlyWrites <;> infer_instance

/-- The run lets all writes on their way land, and does nothing else. -/
structure Drains (w : World) (trace : List (World × Action)) (w' : World) : Prop where
  run : Run app w trace w'
  writes : Meets OnlyWrites trace
  quiet : w'.Quiet

theorem exists_write {w : World} (h : ¬ w.Quiet) : ∃ k, Enabled w (.write k) := by
  simp only [World.Quiet, not_forall] at h
  obtain ⟨p, hp, hcalls⟩ := h
  obtain ⟨k, hget⟩ := List.mem_iff_getElem?.mp hp
  exact ⟨k, (w.onProcess_iff k _).mpr ⟨p, hget, hcalls⟩⟩

theorem exists_drains (w : World) : ∃ trace w', Drains w trace w' := by
  have hstep : ∀ u : World, True → ¬ u.Quiet → ∃ a, app.Enabled u a ∧ OnlyWrites u a ∧ True ∧
      (app.perform u a).outstanding.card < u.outstanding.card := by
    intro u _ hu
    obtain ⟨k, hk⟩ := exists_write hu
    obtain ⟨c, -, heq⟩ := outstanding_perform hk
    refine ⟨.write k, hk, trivial, trivial, ?_⟩
    rw [heq, Multiset.card_cons]
    exact Nat.lt_succ_self _
  obtain ⟨trace, w', run, hmeets, hquiet⟩ :=
    exists_run_to (fun u => u.outstanding.card) hstep (s := w) trivial
  exact ⟨trace, w', run, hmeets, hquiet⟩

/-- What has landed in a run of writes is what is no longer on its way. -/
theorem landed_of_run {w w' : World} {trace : List (World × Action)} (hw : Reachable app w)
    (run : Run app w trace w') (hwrites : Meets OnlyWrites trace) :
    ∃ writes, Landed w.store writes w'.store ∧ w.outstanding = writes + w'.outstanding ∧
      trace.length = writes.card := by
  induction run with
  | nil => exact ⟨0, .refl w.store, (Multiset.zero_add _).symm, rfl⟩
  | @snoc trace u a run ha ih =>
      rw [meets_append, meets_singleton] at hwrites
      obtain ⟨writes, hlanded, houtstanding, hlength⟩ := ih hwrites.1
      cases a with
      | write k =>
          have ha : Enabled u (.write k) := ha
          obtain ⟨c, hc, heq⟩ := outstanding_perform ha
          refine ⟨c.write ::ₘ writes, ?_, ?_, by simp [hlength]⟩
          · show Landed w.store _ (perform u (.write k)).store
            rw [(perform_of_lands ha hc).1]
            refine hlanded.write fun id hid => ?_
            -- The delete was on its way before the run.
            have hmem : Write.deleteOffer id ∈ w.outstanding := by
              rw [houtstanding, heq, hid]
              simp
            obtain ⟨p, hp, x, hx, hwrite⟩ := mem_outstanding.mp hmem
            have hdeletes : 0 < w.issued (Call.deletes id) :=
              issued_pos.mpr (.inr ⟨p, hp, x, hx, by simp [Call.deletes, hwrite]⟩)
            obtain ⟨o, hsub⟩ := submitted_of_deletes hw hdeletes
            exact hsub.lt hw
          · rw [houtstanding, heq]
            simp [app]
      | _ => exact hwrites.2.elim

theorem Drains.landed {w w' : World} {trace : List (World × Action)} (hw : Reachable app w)
    (h : Drains w trace w') :
    Landed w.store w.outstanding w'.store ∧ trace.length = w.outstanding.card := by
  obtain ⟨writes, hlanded, houtstanding, hlength⟩ := landed_of_run hw h.run h.writes
  rw [h.quiet.outstanding, Multiset.add_zero] at houtstanding
  rw [houtstanding]
  exact ⟨hlanded, hlength⟩

/-! ## One outcome -/

/-- The stores agree up to the names of the documents created since `s`, and on all users of
whom no two different rates are among the writes. -/
structure AgreeAfter (s : Store) (writes : Multiset Write) (s₁ s₂ : Store) : Prop where
  tasks : s₁.tasks.view s.tasks.next = s₂.tasks.view s.tasks.next
  offers : s₁.offers.view s.offers.next = s₂.offers.view s.offers.next
  notifs : s₁.notifs.view s.notifs.next = s₂.notifs.view s.notifs.next
  violations : s₁.violations.view s.violations.next = s₂.violations.view s.violations.next
  rate : s₁.rate.view s.rate.next = s₂.rate.view s.rate.next
  users : ∀ p, (∀ r₁ r₂, Write.updateRate p r₁ ∈ writes → Write.updateRate p r₂ ∈ writes →
    r₁ = r₂) → s₁.users p = s₂.users p

theorem Landed.agree {s s₁ s₂ : Store} {writes : Multiset Write} (h₁ : Landed s writes s₁)
    (h₂ : Landed s writes s₂) : AgreeAfter s writes s₁ s₂ where
  tasks := (h₁.grown tasks_grow).2.trans (h₂.grown tasks_grow).2.symm
  offers := h₁.offers.2.trans h₂.offers.2.symm
  notifs := (h₁.grown notifs_grow).2.trans (h₂.grown notifs_grow).2.symm
  violations := (h₁.grown violations_grow).2.trans (h₂.grown violations_grow).2.symm
  rate := (h₁.grown rate_grows).2.trans (h₂.grown rate_grows).2.symm
  users p hsame := by
    rcases h₁.users p with ⟨hnone, h₁⟩ | ⟨r₁, hr₁, h₁⟩ <;>
      rcases h₂.users p with ⟨hnone', h₂⟩ | ⟨r₂, hr₂, h₂⟩
    · rw [h₁, h₂]
    · exact absurd hr₂ (hnone r₂)
    · exact absurd hr₁ (hnone' r₁)
    · rw [h₁, h₂, hsame r₁ r₂ hr₁ hr₂]

/-- From every reachable state the writes on their way can all land, one step for each, and
in whatever order they do, they lead to the same store. -/
theorem drained {w : World} (hw : Reachable app w) :
    (∃ trace w', Drains w trace w') ∧
      ∀ trace₁ trace₂ w₁ w₂, Drains w trace₁ w₁ → Drains w trace₂ w₂ →
        trace₁.length = trace₂.length ∧ AgreeAfter w.store w.outstanding w₁.store w₂.store := by
  refine ⟨exists_drains w, fun trace₁ trace₂ w₁ w₂ h₁ h₂ => ?_⟩
  obtain ⟨hlanded₁, hlength₁⟩ := h₁.landed hw
  obtain ⟨hlanded₂, hlength₂⟩ := h₂.landed hw
  exact ⟨hlength₁.trans hlength₂.symm, hlanded₁.agree hlanded₂⟩

namespace Scenario

/-- Both phones of the owner have accepted, and none of the writes has landed. -/
def bothInFlight : List Action :=
  offered ++ owner 0 2 ++ owner 1 3 ++
    confirmAccept 2 3 (offer 0 2 sixty) ++ confirmAccept 3 4 (offer 1 3 seventy) ++
    [.process 3 (.offers [offer 0 2 sixty, offer 1 3 seventy]),
      .process 4 (.offers [offer 0 2 sixty, offer 1 3 seventy])]

end Scenario

/-- Six writes of two Accept handlers in any order. -/
theorem drained_bothInFlight :
    (app.final app.init Scenario.bothInFlight).outstanding.card = 6 ∧
      ∀ trace₁ trace₂ w₁ w₂, Drains (app.final app.init Scenario.bothInFlight) trace₁ w₁ →
        Drains (app.final app.init Scenario.bothInFlight) trace₂ w₂ →
        trace₁.length = trace₂.length ∧
          AgreeAfter (app.final app.init Scenario.bothInFlight).store
            (app.final app.init Scenario.bothInFlight).outstanding w₁.store w₂.store :=
  ⟨by decide +kernel,
    (drained ⟨_, app.run_steps _ Scenario.bothInFlight (by decide +kernel)⟩).2⟩

end Oun
