import Oun.Verification.Roles.Provenance

/-! # Provenance is kept by every step -/

namespace Oun

open Firestore Regex Transition

/-! ## Handlers -/

theorem accept_proper {w : World} (hw : Provenance w) {uid : Uid} {taskId : DocId} {item : Item}
    {documents : List (Doc Offer)} (htask : HasTask w.store taskId uid)
    (hitem : item.Proper w taskId)
    (hdocuments : documents.Perm (w.store.offers.whereEqualTo Offer.task taskId)) :
    ∀ c ∈ accept taskId item documents, c.Proper w uid := by
  intro c hc
  obtain ⟨d, hd, hc⟩ := mem_accept.mp hc
  obtain ⟨hstored, rfl⟩ := (w.store.offers.mem_whereEqualTo _ _ d).mp (hdocuments.mem_iff.mp hd)
  have hsub := hw.offers d hstored
  rcases hc with ⟨-, rfl | rfl⟩ | ⟨-, rfl⟩
  · exact ⟨rfl, d.data, hsub, htask⟩
  · exact ⟨htask, d.id, d.data, rfl, hsub, rfl, rfl⟩
  · obtain ⟨o, hsub, htask', hitem⟩ := hitem
    exact ⟨htask, item.offerId, o, rfl, hsub, htask', by rw [hitem]; rfl⟩

theorem reject_proper {w : World} {uid : Uid} {taskId : DocId} {item : Item}
    (htask : HasTask w.store taskId uid) (hitem : item.Proper w taskId) :
    ∀ c ∈ reject taskId item, c.Proper w uid := by
  obtain ⟨o, hsub, rfl, hitem⟩ := hitem
  simp only [reject, List.forall_mem_cons, List.not_mem_nil, false_implies, implies_true, and_true]
  exact ⟨⟨rfl, o, hsub, htask⟩, htask, item.offerId, o, rfl, hsub, rfl, by rw [hitem]; rfl⟩

/-- An input leaves a handler proper, and so are the calls it issues. -/
theorem moves_proper {w : World} (hw : Provenance w) {uid : Uid} {handler next : Handler}
    {input : Input} {issued : List Call} (h : handler.Proper w uid)
    (hmoves : Moves w.store uid handler input next issued) :
    next.Proper w uid ∧ ∀ c ∈ issued, c.Proper w uid := by
  cases hmoves with
  | offerAllowed | reportAllowed | confirmAccept => exact ⟨h, by simp⟩
  | offerRefused | reportRefused | dismiss => exact ⟨trivial, by simp⟩
  | offer furniture price hprice =>
      have hcalls : ∀ c ∈ addOffer furniture uid price, c.Proper w uid := by
        simp only [addOffer, List.forall_mem_cons, List.not_mem_nil, false_implies,
          implies_true, and_true]
        exact ⟨⟨h.1, rfl, h.2, hprice⟩, h.1⟩
      exact ⟨hcalls, hcalls⟩
  | accept taskId item documents hdocuments =>
      exact ⟨accept_proper hw h.1 h.2 hdocuments, accept_proper hw h.1 h.2 hdocuments⟩
  | reject taskId item => exact ⟨reject_proper h.1 h.2, reject_proper h.1 h.2⟩
  | report furniture reason =>
      have hcalls : ∀ c ∈ report furniture uid reason, c.Proper w uid := by
        simp only [report, List.forall_mem_cons, List.not_mem_nil, false_implies,
          implies_true, and_true]
        exact ⟨rfl, furniture.author, h⟩
      exact ⟨hcalls, hcalls⟩
  | rate session furniture snapshot provider rating =>
      have hcalls : ∀ c ∈ rate furniture snapshot provider rating, c.Proper w uid := by
        simp only [rate, List.forall_mem_cons, List.not_mem_nil, false_implies,
          implies_true, and_true]
        exact ⟨trivial, trivial⟩
      exact ⟨hcalls, hcalls⟩

/-! ## Screens and started processes -/

theorem spawned_proper {w : World} {a : Action} (hw : Provenance w) (henabled : Enabled w a)
    {p : Process} (h : spawned w a = some p) : p.handler.Proper w p.uid := by
  cases a <;> simp only [spawned, Option.map_eq_some_iff, reduceCtorEq] at h
  case sendNewTask =>
    obtain ⟨uid, -, rfl⟩ := h
    simp only [Handler.Proper, sendNewTask, List.forall_mem_cons, List.not_mem_nil,
      false_implies, implies_true, and_true]
    trivial
  all_goals
    obtain ⟨screen, hget, rfl⟩ := h
    obtain ⟨screen', hget', henabled⟩ := (w.onScreen_iff _ _).mp henabled
    obtain rfl : screen = screen' := Option.some.inj (hget.symm.trans hget')
    have hscreen := hw.screens screen (List.mem_of_getElem? hget)
  case pressOffer => exact ⟨hscreen.1, henabled.2.1⟩
  case pressReport => exact ⟨hscreen.1, henabled.2.symm⟩
  case pressRate => trivial
  -- The item is drawn from an entry of the owner's list.
  all_goals
    obtain ⟨⟨-, howner, -⟩, hmem, -⟩ := henabled
    obtain ⟨hsub, htask⟩ := hscreen.2 _ hmem
    exact ⟨howner ▸ hscreen.1, _, hsub, htask, rfl⟩

theorem screens_proper {w : World} {a : Action} (hw : Provenance w) (henabled : Enabled w a) :
    ∀ screen ∈ (perform w a).screens, screen.Proper w := by
  have hkeep : ∀ i (P : Screen → Prop) (f : Screen → World), w.OnScreen i P →
      (∀ screen, w.screens[i]? = some screen → P screen → screen.Proper w →
        ∀ s ∈ (f screen).screens, s.Proper w) →
      ∀ s ∈ (w.withScreen i f).screens, s.Proper w := by
    intro i P f hscreen hf
    obtain ⟨screen, hget, hP⟩ := (w.onScreen_iff i P).mp hscreen
    rw [World.withScreen_of_get f hget]
    exact hf screen hget hP (hw.screens screen (List.mem_of_getElem? hget))
  cases a with
  | openScreen session task =>
      obtain ⟨huser, htask⟩ := henabled
      obtain ⟨uid, huid⟩ := Option.isSome_iff_exists.mp huser
      simp only [perform, huid]
      exact Pool.forall_append hw.screens ⟨⟨task, htask, rfl, rfl⟩, by simp⟩
  | sendNewTask session _ _ _ _ =>
      obtain ⟨uid, huid⟩ := Option.isSome_iff_exists.mp henabled.1
      simp only [perform, huid]
      exact hw.screens
  | offersEvent i documents =>
      refine hkeep i _ _ henabled fun screen _ hP hproper => Pool.forall_set hw.screens ?_
      refine ⟨hproper.1, fun d hd => ?_⟩
      have hmem := (w.store.offers.mem_whereEqualTo _ _ d).mp (hP.2.mem_iff.mp hd)
      exact ⟨hw.offers d hmem.1, hmem.2⟩
  | closeScreen i | build i | isAccepted i _ | israted i _ | rateEvent i _ =>
      exact hkeep i _ _ henabled fun screen _ _ hproper => Pool.forall_set hw.screens hproper
  | pressOffer i | pressAccept i _ | pressReject i _ | pressReport i | pressRate i _ =>
      exact hkeep i _ _ henabled fun screen _ _ _ => hw.screens
  | process k input =>
      obtain ⟨⟨uid, handler⟩, hget, -⟩ := (w.onProcess_iff k _).mp henabled
      simp only [perform, World.process, hget]
      exact hw.screens
  | write k =>
      simp only [perform, World.write]
      split <;> exact hw.screens
  | _ => exact hw.screens

/-! ## The invariant -/

private theorem processes_proper {w : World} {a : Action} (hw : Provenance w)
    (henabled : Enabled w a) :
    (∀ p ∈ (perform w a).processes, p.handler.Proper w p.uid) ∧
      ∀ e ∈ (perform w a).log, e.call.Proper w e.uid := by
  have heffect := effect henabled
  generalize perform w a = w' at heffect
  cases heffect with
  | idle _ _ _ hprocesses hlog =>
      rw [hprocesses, hlog]
      exact ⟨hw.processes, hw.log⟩
  | signUp uid user => exact ⟨hw.processes, hw.log⟩
  | spawn p hspawned _ _ _ hprocesses hlog =>
      rw [hprocesses, hlog]
      exact ⟨Pool.forall_append hw.processes (spawned_proper hw henabled hspawned), hw.log⟩
  | @process _ uid _ input hget hinput =>
      have hproper := hw.processes _ (List.mem_of_getElem? hget)
      exact ⟨Pool.forall_set hw.processes (moves_proper hw hproper (moves _ hinput)).1, hw.log⟩
  | @write k uid job call calls hget =>
      have hproper : ∀ c ∈ call :: calls, c.Proper w uid :=
        hw.processes _ (List.mem_of_getElem? hget)
      exact ⟨Pool.forall_set hw.processes fun c hc => hproper c (List.mem_cons_of_mem _ hc),
        Pool.forall_append hw.log (hproper call List.mem_cons_self)⟩

/-- Documents that come from the log come from it after a step too. -/
private theorem origin_perform {α : Type*} {w : World} {a : Action} (h : Enabled w a)
    (docs : Store → List (Doc α)) {add : α → Write}
    (hsame : ∀ {s s'}, SameDocs s s' → docs s' = docs s)
    (happly : ∀ {write s d}, d ∈ docs (write.apply s) →
      d ∈ docs s ∨ write = add d.data ∧ write.docId s = d.id)
    (hw : ∀ d ∈ docs w.store, ∃ e ∈ w.log, e.call.write = add d.data ∧ e.id = d.id) :
    ∀ d ∈ docs (perform w a).store,
      ∃ e ∈ (perform w a).log, e.call.write = add d.data ∧ e.id = d.id := by
  intro d hd
  cases hlands : lands w a with
  | none =>
      obtain ⟨hdocs, hlog⟩ := perform_of_not_lands h hlands
      rw [hlog]
      exact hw d (hsame hdocs ▸ hd)
  | some c =>
      obtain ⟨hstore, uid, hlog⟩ := perform_of_lands h hlands
      rw [hlog]
      rw [hstore] at hd
      rcases happly hd with hd | ⟨hwrite, hid⟩
      · obtain ⟨e, he, h⟩ := hw d hd
        exact ⟨e, List.mem_append_left _ he, h⟩
      · exact ⟨_, List.mem_append_right _ List.mem_cons_self, hwrite, hid⟩

theorem provenance_perform {w : World} {a : Action} (hw : Provenance w) (h : Enabled w a) :
    Provenance (perform w a) := by
  have hext := extends_perform h
  obtain ⟨hprocesses, hlog⟩ := processes_proper hw h
  exact {
    screens := fun screen hs => (screens_proper hw h screen hs).mono hext
    processes := fun p hp => (hprocesses p hp).mono hext
    log := fun e he => (hlog e he).mono hext
    offers := origin_perform h (fun s => s.offers.docs) (fun hs => by rw [hs.offers])
      mem_offers_apply hw.offers
    notifs := origin_perform h (fun s => s.notifs.docs) (fun hs => by rw [hs.notifs])
      mem_notifs_apply hw.notifs
    violations := origin_perform h (fun s => s.violations.docs)
      (fun hs => by rw [hs.violations]) mem_violations_apply hw.violations }

theorem provenance {w : World} (hw : Reachable app w) : Provenance w := by
  refine hw.invariant (I := Provenance) ?_ fun u a _ hu ha => provenance_perform hu ha
  constructor <;> simp [app, World.init, Store.empty]

/-- A write that takes effect refers to what it should. -/
theorem lands_proper {w : World} (hw : Reachable app w) {a : Action} {c : Call}
    (hc : c ∈ lands w a) : ∃ uid, c.Proper w uid := by
  obtain ⟨k, uid, job, calls, -, hget⟩ := lands_inversion hc
  exact ⟨uid, (provenance hw).processes _ (List.mem_of_getElem? hget) c List.mem_cons_self⟩

/-- Tasks and log only grow along a run. -/
theorem extends_run {w w' : World} {trace : List (World × Action)} (run : Run app w trace w') :
    Extends w w' := by
  refine run.invariant (C := fun _ _ => True) (I := Extends w) (fun _ _ => trivial)
    ⟨fun _ h => h, fun _ h => h⟩ fun u a hu ha _ => ?_
  have hstep := extends_perform ha
  exact ⟨fun d hd => hstep.tasks d (hu.tasks d hd), fun e he => hstep.log e (hu.log e he)⟩

end Oun
