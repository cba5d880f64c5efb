import Mathlib.Data.Fintype.EquivFin
import Oun.Verification.Entrance.Attempts
import Oun.Verification.Market.Answers
import Oun.Verification.Roles.Acting

/-! # A visit to a detail screen

What it takes to play a deed at rest: a session signs in, opens the screen of the task, and the
screen asks its questions, which are answered by the lot of the task. -/

namespace Oun

open Firestore Market Regex Transition

/-! ## Runs with few deeds -/

/-- Who is stored is at work already, and the document is one that the form can hold. -/
def Registers (w : World) : Action → Prop
  | .signUp uid user => w.Acts uid ∧ user.Typed
  | _ => True

/-- A permitted run that plays the deeds. -/
def Leads (w : World) (deeds : List TaskDeed) (w' : World) : Prop :=
  ∃ trace, Run app w trace w' ∧ Meets (fun v a => Permitted v a ∧ Registers v a) trace ∧
    labels deed trace = deeds

theorem Leads.trans {w w' w'' : World} {deeds deeds' : List TaskDeed} (h : Leads w deeds w')
    (h' : Leads w' deeds' w'') : Leads w (deeds ++ deeds') w'' := by
  obtain ⟨trace, run, hpermitted, hdeeds⟩ := h
  obtain ⟨trace', run', hpermitted', hdeeds'⟩ := h'
  refine ⟨trace ++ trace', run.trans run', (meets_append _ _ _).mpr ⟨hpermitted, hpermitted'⟩, ?_⟩
  rw [labels_append, hdeeds, hdeeds']

theorem Leads.step {w : World} {a : Action} (h : Enabled w a) (hpermitted : Permitted w a)
    (hregisters : Registers w a) : Leads w (deed w a).toList (perform w a) := by
  refine ⟨[(w, a)], Run.single h, (meets_singleton _ _ _).mpr ⟨hpermitted, hregisters⟩, ?_⟩
  cases hdeed : deed w a <;> simp [labels, hdeed]

/-- A run that plays one deed and comes to rest. -/
def Plays (w : World) (b : TaskDeed) : Prop := ∃ w', Leads w [b] w' ∧ w'.Quiet

theorem Leads.plays {w w' : World} {b : TaskDeed} (h : Leads w [] w') (h' : Plays w' b) :
    Plays w b := by
  obtain ⟨w'', hleads, hquiet⟩ := h'
  exact ⟨w'', h.trans hleads, hquiet⟩

/-- No write on its way plays a deed. -/
def Undone (w : World) : Prop := ∀ x ∈ w.outstanding, ∀ s, Write.deed s x = none

theorem Undone.write {w : World} (h : Undone w) (hbusy : ¬ w.Quiet) :
    ∃ a, Enabled w a ∧ ((Permitted w a ∧ Registers w a) ∧ deed w a = none) ∧
      Undone (perform w a) ∧ (perform w a).outstanding.card < w.outstanding.card := by
  obtain ⟨k, hk⟩ := exists_write hbusy
  obtain ⟨c, hc, heq⟩ := outstanding_perform hk
  have hdeed := h c.write (heq ▸ Multiset.mem_cons_self _ _)
  refine ⟨.write k, hk, ⟨⟨fun x hx => ?_, trivial⟩, ?_⟩, fun x hx => h x ?_, ?_⟩
  · obtain rfl := Option.some.inj (hc.symm.trans hx)
    cases hwrite : c.write with
    | addOffer o => exact absurd (hdeed w.store) (by simp [hwrite, Write.deed])
    | _ => trivial
  · simp [deed, hc, hdeed]
  · exact heq ▸ Multiset.mem_cons_of_mem hx
  · rw [heq, Multiset.card_cons]
    exact Nat.lt_succ_self _

/-- Then all of them land without any. -/
theorem Undone.leads {w : World} (h : Undone w) : ∃ w', Leads w [] w' ∧ w'.Quiet := by
  obtain ⟨trace, w', run, hmeets, hquiet⟩ := exists_run_to (S := app)
    (fun u => u.outstanding.card) (fun _ hu hbusy => Undone.write hu hbusy) h
  refine ⟨w', ⟨trace, run, fun step hstep => (hmeets step hstep).1, ?_⟩, hquiet⟩
  exact List.filterMap_eq_nil_iff.mpr fun step hstep => (hmeets step hstep).2

/-! ## At rest -/

/-- A permitted run has led here, no write is on its way, and the market is `m`. -/
structure Rest (w : World) (m : DocId → Option TaskLot) : Prop where
  permitted : ∃ trace, Run app World.init trace w ∧ Meets Permitted trace
  quiet : w.Quiet
  represents : Represents w m

variable {w w' : World} {m : DocId → Option TaskLot}

theorem Rest.reachable (h : Rest w m) : Reachable app w := by
  obtain ⟨trace, run, -⟩ := h.permitted
  exact ⟨trace, run⟩

theorem Rest.leads (h : Rest w m) (hleads : Leads w [] w') (hquiet : w'.Quiet) : Rest w' m := by
  obtain ⟨front, hfront, hpermitted⟩ := h.permitted
  obtain ⟨trace, run, hmeets, hdeeds⟩ := hleads
  have hmeets : Meets Permitted trace := fun step hstep => (hmeets step hstep).1
  refine ⟨⟨front ++ trace, hfront.trans run, (meets_append _ _ _).mpr ⟨hpermitted, hmeets⟩⟩,
    hquiet, ?_⟩
  exact app_simulates.silent run h.reachable h.represents hmeets hdeeds

theorem Rest.next (h : Rest w m) {a : Action} (henabled : Enabled w a)
    (hpermitted : Permitted w a) (hdeed : deed w a = none) :
    Reachable app (perform w a) ∧ Represents (perform w a) m :=
  ⟨(Run.single (a := a) henabled).reachable h.reachable,
    app_simulates.stutter (a := a) h.reachable h.represents henabled hpermitted hdeed⟩

/-- At rest, the lot of a task answers all questions. -/
theorem Rest.answers (h : Rest w m) {t : DocId} {lot : TaskLot} (hlot : m t = some lot) :
    Answers w.store t lot := by
  obtain ⟨trace, run, hpermitted⟩ := h.permitted
  refine (h.represents.posted t lot hlot).answers h.reachable h.quiet ?_
  refine (winners_le_issued h.reachable t).trans (issued_accepted_le_one run ?_ _)
  exact fun step hstep => chooses_of_permitted (hpermitted step hstep)

/-- A step of a screen or of a session starts no write and plays no deed. -/
theorem Rest.step (h : Rest w m) {a : Action} (henabled : Enabled w a)
    (hpermitted : Permitted w a) (hregisters : Registers w a) (hdeed : deed w a = none)
    (hquiet : (perform w a).Quiet) : Leads w [] (perform w a) ∧ Rest (perform w a) m := by
  have hleads := Leads.step henabled hpermitted hregisters
  rw [hdeed] at hleads
  exact ⟨hleads, h.leads hleads hquiet⟩

/-! ## Visits -/

/-- What a visit does not change. -/
structure Visits (w w' : World) (m : DocId → Option TaskLot) : Prop where
  leads : Leads w [] w'
  rest : Rest w' m
  store : w'.store = w.store

theorem Visits.trans {w'' : World} (h : Visits w w' m) (h' : Visits w' w'' m) : Visits w w'' m :=
  ⟨h.leads.trans h'.leads, h'.rest, h'.store.trans h.store⟩

theorem Rest.visit (h : Rest w m) {a : Action} (henabled : Enabled w a)
    (hpermitted : Permitted w a) (hregisters : Registers w a) (hdeed : deed w a = none)
    (hstore : (perform w a).store = w.store) (hprocesses : (perform w a).processes = w.processes) :
    Visits w (perform w a) m := by
  have hquiet : (perform w a).Quiet := by
    unfold World.Quiet
    rw [hprocesses]
    exact h.quiet
  obtain ⟨hleads, hrest⟩ := h.step henabled hpermitted hregisters hdeed hquiet
  exact ⟨hleads, hrest, hstore⟩

theorem Visits.plays {b : TaskDeed} (h : Visits w w' m) (h' : Plays w' b) : Plays w b :=
  h.leads.plays h'

/-- A session in which no screen is open. -/
theorem exists_session (w : World) :
    ∃ session, ∀ screen ∈ w.screens, screen.session ≠ session := by
  obtain ⟨session, hsession⟩ :=
    Infinite.exists_notMem_finset (w.screens.map Screen.session).toFinset
  refine ⟨session, fun screen hscreen heq => hsession ?_⟩
  simpa using ⟨screen, hscreen, heq⟩

theorem Rest.signIn (h : Rest w m) (uid : Uid) :
    ∃ w' session, Visits w w' m ∧ (w'.sessions session).user = some uid := by
  obtain ⟨session, hfree⟩ := exists_session w
  refine ⟨perform w (.signIn session uid), session, h.visit ?_ trivial trivial rfl rfl rfl, ?_⟩
  · exact fun screen hscreen _ => hfree screen hscreen
  · simp [perform, World.updateSession]

/-- A user who is not registered signs up first. -/
theorem Rest.signUp (h : Rest w m) {p : Uid} (hacts : w.Acts p) :
    ∃ w', Leads w [] w' ∧ Rest w' m ∧ w'.store.tasks = w.store.tasks ∧
      (w'.store.users p).isSome = true := by
  by_cases hp : (w.store.users p).isSome = true
  · exact ⟨w, ⟨[], .nil, meets_nil _, rfl⟩, h, rfl, hp⟩
  · have henabled : Enabled w (.signUp p ⟨0, [], [], [], [], .value 0⟩) := by
      simpa [Enabled] using hp
    have htyped : User.Typed ⟨0, [], [], [], [], .value 0⟩ :=
      ⟨⟨[], [], text ['0'], [], [], []⟩, 0, by decide, rfl⟩
    obtain ⟨hleads, hrest⟩ := h.step henabled trivial ⟨hacts, htyped⟩ rfl h.quiet
    exact ⟨_, hleads, hrest, rfl, by simp [perform, World.signUp]⟩

/-- The user has the screen of the task open, and it has learned whether the task is awarded. -/
structure Visiting (w : World) (i : ℕ) (d : Doc Task) (lot : TaskLot) (uid : Uid)
    (screen : Screen) : Prop where
  get : w.screens[i]? = some screen
  uid : screen.uid = uid
  furniture : screen.furniture = .ofDoc d
  isOpen : screen.isOpen = true
  accepted : screen.accepted = some lot.winner.isSome
  provider : ∀ p, lot.winner = some p → (w.sessions screen.session).provider = some p

theorem Rest.openScreen (h : Rest w m) {session : SessionId} {uid : Uid}
    (hsession : (w.sessions session).user = some uid) {d : Doc Task}
    (hd : d ∈ w.store.tasks.docs) :
    ∃ (w' : World) (i : ℕ), Visits w w' m ∧ w'.screens[i]? = some
      ⟨session, uid, .ofDoc d, true, acceptedFutures uid d.data.author, none, [], none⟩ := by
  have hperform : perform w (.openScreen session d) = w.openScreen session uid d := by
    simp [perform, hsession]
  have henabled : Enabled w (.openScreen session d) := ⟨by simp [hsession], hd⟩
  refine ⟨_, w.screens.length, h.visit henabled trivial trivial rfl ?_ ?_, ?_⟩ <;> rw [hperform]
  · rfl
  · rfl
  · simp [World.openScreen]

theorem acceptedFutures_pos (uid author : Uid) : 0 < acceptedFutures uid author := by
  unfold acceptedFutures
  split <;> decide

theorem Rest.isAccepted (h : Rest w m) {i : ℕ} {screen : Screen}
    (hget : w.screens[i]? = some screen) (hpending : 0 < screen.pending)
    (hopen : screen.isOpen = true) {lot : TaskLot} (hlot : m screen.furniture.id = some lot) :
    ∃ w', Visits w w' m ∧ w'.screens[i]? = some { screen with
        pending := screen.pending - 1, accepted := some lot.winner.isSome } ∧
      ∀ p, lot.winner = some p → (w'.sessions screen.session).provider = some p := by
  set documents := w.store.notifs.whereEqualTo Notif.task screen.furniture.id
  have hanswer := (h.answers hlot).accepted documents (w.sessions screen.session).provider (.refl _)
  have hperform : perform w (.isAccepted i documents) = w.acceptedCompletes i screen documents := by
    simp only [perform, World.withScreen, hget]
  have henabled : Enabled w (.isAccepted i documents) := by
    simp only [Enabled, World.OnScreen, hget]
    exact ⟨hpending, .refl _⟩
  refine ⟨_, h.visit henabled trivial trivial rfl ?_ ?_, ?_, ?_⟩ <;>
    rw [hperform, World.acceptedCompletes]
  · rfl
  · rfl
  · obtain ⟨hlt, -⟩ := List.getElem?_eq_some_iff.mp hget
    simp [World.updateScreen, World.updateSession, hlt, hanswer, hopen]
  · intro p hp
    simp [World.updateScreen, World.updateSession, hanswer, hp]

/-- A user opens the screen of a task. -/
theorem Rest.visiting (h : Rest w m) {d : Doc Task} (hd : d ∈ w.store.tasks.docs)
    {lot : TaskLot} (hlot : m d.id = some lot) (uid : Uid) :
    ∃ w' i screen, Visits w w' m ∧ Visiting w' i d lot uid screen := by
  obtain ⟨w₁, session, hsigned, hsession⟩ := h.signIn uid
  obtain ⟨w₂, i, hopened, hget⟩ := hsigned.rest.openScreen hsession (hsigned.store ▸ hd)
  obtain ⟨w₃, hasked, hget', hprovider⟩ := hopened.rest.isAccepted hget
    (acceptedFutures_pos _ _) rfl hlot
  exact ⟨w₃, i, _, (hsigned.trans hopened).trans hasked, hget', rfl, rfl, rfl, rfl, hprovider⟩

/-! ## Handlers -/

variable {a : Action} {k : ℕ} {uid : Uid} {handler : Handler}

/-- A press starts a handler. -/
theorem Rest.press (h : Rest w m) (henabled : Enabled w a) (hpermitted : Permitted w a)
    (hregisters : Registers w a) (hdeed : deed w a = none) (hcalls : handler.calls = [])
    (hstore : (perform w a).store = w.store)
    (hprocesses : (perform w a).processes = w.processes ++ [⟨uid, handler⟩]) :
    ∃ (w' : World) (k : ℕ), Visits w w' m ∧ w'.sessions = (perform w a).sessions ∧
      w'.processes[k]? = some ⟨uid, handler⟩ := by
  have hquiet : (perform w a).Quiet := by
    unfold World.Quiet
    rw [hprocesses]
    exact Pool.forall_append h.quiet hcalls
  obtain ⟨hleads, hrest⟩ := h.step henabled hpermitted hregisters hdeed hquiet
  exact ⟨_, w.processes.length, ⟨hleads, hrest, hstore⟩, rfl, by simp [hprocesses]⟩

theorem enabled_process (hget : w.processes[k]? = some ⟨uid, handler⟩) {input : Input}
    (henabled : handler.Enabled w.store input) (hreads : w.Reads handler input) :
    Enabled w (.process k input) :=
  (w.onProcess_iff k _).mpr ⟨_, hget, henabled, hreads⟩

theorem permitted_process (hget : w.processes[k]? = some ⟨uid, handler⟩) {input : Input}
    (hpermitted : handler.Permitted w uid input) : Permitted w (.process k input) := by
  intro p hp
  obtain rfl := Option.some.inj (hget.symm.trans hp)
  exact hpermitted

theorem perform_process (hget : w.processes[k]? = some ⟨uid, handler⟩) (input : Input) :
    perform w (.process k input) =
      { w with processes := w.processes.set k ⟨uid, handler.next uid input⟩ } := by
  simp only [perform, World.process, hget]

theorem processes_process (hget : w.processes[k]? = some ⟨uid, handler⟩) (input : Input) :
    (perform w (.process k input)).processes[k]? = some ⟨uid, handler.next uid input⟩ := by
  obtain ⟨hlt, -⟩ := List.getElem?_eq_some_iff.mp hget
  rw [perform_process hget]
  exact List.getElem?_set_self hlt

/-- An answer or a press on which a handler issues nothing moves it on. -/
theorem Rest.input (h : Rest w m) (hget : w.processes[k]? = some ⟨uid, handler⟩) (input : Input)
    (henabled : handler.Enabled w.store input) (hreads : w.Reads handler input)
    (hpermitted : handler.Permitted w uid input) (hdeed : handler.deed uid input = none)
    (hissued : handler.issued uid input = []) :
    ∃ w', Visits w w' m ∧ w'.processes[k]? = some ⟨uid, handler.next uid input⟩ := by
  have hquiet : (perform w (.process k input)).Quiet := by
    rw [perform_process hget]
    exact Pool.forall_set h.quiet ((Handler.next_calls uid henabled).1.trans hissued)
  obtain ⟨hleads, hrest⟩ := h.step (enabled_process hget henabled hreads)
    (permitted_process hget hpermitted) trivial (by simp [deed, hget, hdeed]) hquiet
  exact ⟨_, ⟨hleads, hrest, by rw [perform_process hget]⟩, processes_process hget input⟩

end Oun
