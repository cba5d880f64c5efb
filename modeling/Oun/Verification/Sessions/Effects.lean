import Oun.Library.Pool
import Oun.Model.Sessions

/-! # What one step can do

The inversion rules of `perform`. Every enabled action leaves store, processes and log
alone, or signs a user up, starts one process, moves one process on by an input, or lets
one issued write take effect. -/

namespace Oun

open Firestore Regex

instance (w : World) (a : Action) : Decidable (app.Enabled w a) :=
  inferInstanceAs (Decidable (Enabled w a))

theorem World.onScreen_iff (w : World) (i : ℕ) (P : Screen → Prop) :
    w.OnScreen i P ↔ ∃ screen, w.screens[i]? = some screen ∧ P screen := by
  unfold World.OnScreen
  cases w.screens[i]? <;> simp

theorem World.onProcess_iff (w : World) (k : ℕ) (P : Process → Prop) :
    w.OnProcess k P ↔ ∃ process, w.processes[k]? = some process ∧ P process := by
  unfold World.OnProcess
  cases w.processes[k]? <;> simp

theorem World.withScreen_of_get {w : World} {i : ℕ} {screen : Screen} (f : Screen → World)
    (h : w.screens[i]? = some screen) : w.withScreen i f = f screen := by
  simp [World.withScreen, h]

/-- The process that an action starts. -/
def spawned (w : World) : Action → Option Process
  | .sendNewTask session title description city category =>
      (w.sessions session).user.map fun uid =>
        ⟨uid, .writing .newTask (sendNewTask uid title description city category)⟩
  | .pressOffer i => w.screens[i]?.map fun screen => ⟨screen.uid, .hasOffered screen.furniture⟩
  | .pressAccept i offer => w.screens[i]?.map fun screen =>
      ⟨screen.uid, .acceptDialog screen.furniture.id (.ofDoc offer)⟩
  | .pressReject i offer => w.screens[i]?.map fun screen =>
      ⟨screen.uid, .rejectDialog screen.furniture.id (.ofDoc offer)⟩
  | .pressReport i => w.screens[i]?.map fun screen => ⟨screen.uid, .noReported screen.furniture⟩
  | .pressRate i _ => w.screens[i]?.map fun screen => ⟨screen.uid,
      .ratingDialog screen.session screen.furniture (screen.rateBar.bind RateBar.snapshot)⟩
  | _ => none

/-- The calls that an action issues. -/
def issues (w : World) : Action → List Call
  | .process k input => ((w.processes[k]?).map fun p => p.handler.issued p.uid input).getD []
  | a => ((spawned w a).map fun p => p.handler.calls).getD []

/-- The call that takes effect in an action. -/
def lands (w : World) : Action → Option Call
  | .write k => (w.processes[k]?).bind fun p => p.handler.calls.head?
  | _ => none

/-- What a step does to the store, the processes and the log. -/
inductive Effect (w : World) : Action → World → Prop where
  | idle {a w'} (hissues : issues w a = []) (hlands : lands w a = none)
      (hstore : w'.store = w.store)
      (hprocesses : w'.processes = w.processes) (hlog : w'.log = w.log) : Effect w a w'
  | signUp (uid : Uid) (user : User) (hnew : w.store.users uid = none) :
      Effect w (.signUp uid user) (w.signUp uid user)
  | spawn {a w'} (process : Process) (hspawned : spawned w a = some process)
      (hissues : issues w a = process.handler.calls) (hlands : lands w a = none)
      (hstore : w'.store = w.store) (hprocesses : w'.processes = w.processes ++ [process])
      (hlog : w'.log = w.log) : Effect w a w'
  | process {k uid handler} (input : Input) (hget : w.processes[k]? = some ⟨uid, handler⟩)
      (henabled : handler.Enabled w.store input) (hreads : w.Reads handler input) :
      Effect w (.process k input)
        { w with processes := w.processes.set k ⟨uid, handler.next uid input⟩ }
  | write {k uid job call calls}
      (hget : w.processes[k]? = some ⟨uid, .writing job (call :: calls)⟩) :
      Effect w (.write k) { w with
        store := call.write.apply w.store
        processes := w.processes.set k ⟨uid, .writing job calls⟩
        log := w.log ++ [⟨uid, call, call.write.docId w.store⟩] }

private theorem Effect.onScreen {w : World} {a : Action} {i : ℕ} {P : Screen → Prop}
    {f : Screen → World} (hscreen : w.OnScreen i P) (hissues : issues w a = [])
    (hlands : lands w a = none) (hstore : ∀ screen, (f screen).store = w.store)
    (hprocesses : ∀ screen, (f screen).processes = w.processes)
    (hlog : ∀ screen, (f screen).log = w.log) : Effect w a (w.withScreen i f) := by
  obtain ⟨screen, hget, -⟩ := (w.onScreen_iff i P).mp hscreen
  rw [World.withScreen_of_get f hget]
  exact .idle hissues hlands (hstore screen) (hprocesses screen) (hlog screen)

private theorem Effect.ofSpawn {w : World} {a : Action} {i : ℕ} {P : Screen → Prop}
    {f : Screen → World} (g : Screen → Process) (hscreen : w.OnScreen i P)
    (hspawned : spawned w a = w.screens[i]?.map g)
    (hissues : issues w a = ((spawned w a).map fun p => p.handler.calls).getD [])
    (hlands : lands w a = none) (hstore : ∀ screen, (f screen).store = w.store)
    (hprocesses : ∀ screen, (f screen).processes = w.processes ++ [g screen])
    (hlog : ∀ screen, (f screen).log = w.log) : Effect w a (w.withScreen i f) := by
  obtain ⟨screen, hget, -⟩ := (w.onScreen_iff i P).mp hscreen
  rw [World.withScreen_of_get f hget]
  have hsome : spawned w a = some (g screen) := by rw [hspawned, hget]; rfl
  exact .spawn (g screen) hsome (by rw [hissues, hsome]; rfl) hlands (hstore screen)
    (hprocesses screen) (hlog screen)

/-- The inversion rule: an enabled action has one of the effects. -/
theorem effect {w : World} {a : Action} (h : Enabled w a) : Effect w a (perform w a) := by
  cases a with
  | signUp uid user => exact .signUp uid user (by simpa [Enabled] using h)
  | signIn session uid => exact .idle rfl rfl rfl rfl rfl
  | sendNewTask session title description city category =>
      obtain ⟨huser, -⟩ := h
      obtain ⟨uid, huid⟩ := Option.isSome_iff_exists.mp huser
      simp only [perform, huid]
      exact .spawn ⟨uid, _⟩ (by simp [spawned, huid]) (by simp [issues, spawned, huid]) rfl
        rfl rfl rfl
  | openScreen session task =>
      obtain ⟨huser, -⟩ := h
      obtain ⟨uid, huid⟩ := Option.isSome_iff_exists.mp huser
      simp only [perform, huid]
      exact .idle rfl rfl rfl rfl rfl
  | closeScreen i =>
      exact .onScreen h rfl rfl (fun _ => rfl) (fun _ => rfl) (fun _ => rfl)
  | build i => exact .onScreen h rfl rfl (fun _ => rfl) (fun _ => rfl) (fun _ => rfl)
  | isAccepted i documents =>
      exact .onScreen h rfl rfl (fun _ => rfl) (fun _ => rfl) (fun _ => rfl)
  | offersEvent i documents =>
      exact .onScreen h rfl rfl (fun _ => rfl) (fun _ => rfl) (fun _ => rfl)
  | pressOffer i =>
      exact .ofSpawn _ h rfl rfl rfl (fun _ => rfl) (fun _ => rfl) (fun _ => rfl)
  | pressAccept i offer =>
      exact .ofSpawn _ h rfl rfl rfl (fun _ => rfl) (fun _ => rfl) (fun _ => rfl)
  | pressReject i offer =>
      exact .ofSpawn _ h rfl rfl rfl (fun _ => rfl) (fun _ => rfl) (fun _ => rfl)
  | pressReport i =>
      exact .ofSpawn _ h rfl rfl rfl (fun _ => rfl) (fun _ => rfl) (fun _ => rfl)
  | israted i documents =>
      exact .onScreen h rfl rfl (fun _ => rfl) (fun _ => rfl) (fun _ => rfl)
  | rateEvent i documents =>
      exact .onScreen h rfl rfl (fun _ => rfl) (fun _ => rfl) (fun _ => rfl)
  | pressRate i rating =>
      exact .ofSpawn _ h rfl rfl rfl (fun _ => rfl) (fun _ => rfl) (fun _ => rfl)
  | openNotifications session => exact .idle rfl rfl rfl rfl rfl
  | process k input =>
      obtain ⟨⟨uid, handler⟩, hget, henabled, hreads⟩ := (w.onProcess_iff k _).mp h
      simp only [perform, World.process, hget]
      exact .process input hget henabled hreads
  | write k =>
      obtain ⟨⟨uid, handler⟩, hget, hcalls⟩ := (w.onProcess_iff k _).mp h
      cases handler with
      | writing job calls =>
          cases calls with
          | nil => exact absurd rfl hcalls
          | cons call calls =>
              simp only [perform, World.write, hget]
              exact .write hget
      | _ => exact absurd rfl hcalls

/-- Only a task submission starts a process that has writes to do at once. -/
theorem spawned_calls {w : World} {a : Action} {process : Process}
    (h : spawned w a = some process) :
    process.handler.calls = [] ∨ ∃ uid title description city category,
      process = ⟨uid, .writing .newTask (sendNewTask uid title description city category)⟩ := by
  cases a <;> simp only [spawned, Option.map_eq_some_iff, reduceCtorEq] at h
  case sendNewTask session title description city category =>
    obtain ⟨uid, -, rfl⟩ := h
    exact .inr ⟨uid, title, description, city, category, rfl⟩
  all_goals
    obtain ⟨screen, -, rfl⟩ := h
    exact .inl rfl

theorem lands_inversion {w : World} {a : Action} {c : Call} (h : c ∈ lands w a) :
    ∃ k uid job calls, a = .write k ∧ w.processes[k]? = some ⟨uid, .writing job (c :: calls)⟩ := by
  cases a with
  | write k =>
      obtain ⟨⟨uid, handler⟩, hget, hhead⟩ := Option.bind_eq_some_iff.mp h
      cases handler with
      | writing job calls =>
          obtain ⟨rest, rfl⟩ := List.head?_eq_some_iff.mp hhead
          exact ⟨k, uid, job, rest, rfl, hget⟩
      | _ => simp [Handler.calls] at hhead
  | _ => simp [lands] at h

theorem issues_of_lands {w : World} {a : Action} {c : Call} (h : c ∈ lands w a) :
    issues w a = [] := by
  obtain ⟨k, uid, job, calls, rfl, -⟩ := lands_inversion h
  rfl

/-- A write on its way takes effect in a step or is still on its way after it. -/
theorem calls_persist {w : World} {a : Action} (h : Enabled w a) {uid : Uid} {job : Job}
    {calls : List Call} {c : Call} (hp : ⟨uid, .writing job calls⟩ ∈ w.processes) (hc : c ∈ calls) :
    lands w a = some c ∨
      ∃ calls', ⟨uid, .writing job calls'⟩ ∈ (perform w a).processes ∧ c ∈ calls' := by
  have heffect := effect h
  generalize perform w a = w' at heffect
  cases heffect with
  | idle _ _ _ hprocesses => exact .inr ⟨calls, hprocesses ▸ hp, hc⟩
  | signUp => exact .inr ⟨calls, hp, hc⟩
  | spawn process _ _ _ _ hprocesses =>
      exact .inr ⟨calls, hprocesses ▸ List.mem_append_left _ hp, hc⟩
  | @process k _ handler input hget henabled =>
      refine .inr ⟨calls, Pool.mem_set_of_ne hget hp ?_, hc⟩
      rintro heq
      obtain ⟨-, rfl⟩ := Process.mk.inj heq
      cases input <;> simp [Handler.Enabled, Handler.isDialog] at henabled
  | @write k uid' job' call rest hget =>
      by_cases heq : (⟨uid, .writing job calls⟩ : Process) = ⟨uid', .writing job' (call :: rest)⟩
      · obtain ⟨rfl, hhandler⟩ := Process.mk.inj heq
        obtain ⟨rfl, rfl⟩ := Handler.writing.inj hhandler
        rcases List.mem_cons.mp hc with rfl | hc
        · exact .inl (by simp [lands, hget, Handler.calls])
        · exact .inr ⟨rest, Pool.mem_set_self _ hget, hc⟩
      · exact .inr ⟨calls, Pool.mem_set_of_ne hget hp heq, hc⟩

/-! ## Handlers -/

/-- How an input moves a handler of the user `uid` on, and the calls it issues. -/
inductive Moves (s : Store) (uid : Uid) : Handler → Input → Handler → List Call → Prop where
  | offerAllowed (furniture documents)
      (hdocuments : documents.Perm (s.offers.whereEqualTo Offer.task furniture.id))
      (hnone : hasOffered documents uid = true) :
      Moves s uid (.hasOffered furniture) (.offers documents) (.offerDialog furniture) []
  | offerRefused (furniture documents)
      (hdocuments : documents.Perm (s.offers.whereEqualTo Offer.task furniture.id))
      (hsome : hasOffered documents uid = false) :
      Moves s uid (.hasOffered furniture) (.offers documents) .done []
  | offer (furniture price) (hprice : priceValidator price = none) :
      Moves s uid (.offerDialog furniture) (.add price)
        (.writing .offer (addOffer furniture uid price)) (addOffer furniture uid price)
  | confirmAccept (taskId item) :
      Moves s uid (.acceptDialog taskId item) .ok (.acceptGet taskId item) []
  | accept (taskId item documents)
      (hdocuments : documents.Perm (s.offers.whereEqualTo Offer.task taskId)) :
      Moves s uid (.acceptGet taskId item) (.offers documents)
        (.writing (.accept taskId item) (accept taskId item documents))
        (accept taskId item documents)
  | reject (taskId item) :
      Moves s uid (.rejectDialog taskId item) .ok
        (.writing (.reject taskId item) (reject taskId item)) (reject taskId item)
  | reportAllowed (furniture documents)
      (hdocuments : documents.Perm (s.violations.whereEqualTo Violation.taskId furniture.id))
      (hnone : noReported documents uid = true) :
      Moves s uid (.noReported furniture) (.violations documents) (.reportDialog furniture) []
  | reportRefused (furniture documents)
      (hdocuments : documents.Perm (s.violations.whereEqualTo Violation.taskId furniture.id))
      (hsome : noReported documents uid = false) :
      Moves s uid (.noReported furniture) (.violations documents) .done []
  | report (furniture reason) :
      Moves s uid (.reportDialog furniture) (.submit reason)
        (.writing .report (report furniture uid reason)) (report furniture uid reason)
  | rate (session furniture snapshot provider rating) :
      Moves s uid (.ratingDialog session furniture snapshot) (.rate provider rating)
        (.writing (.rating snapshot provider rating) (rate furniture snapshot provider rating))
        (rate furniture snapshot provider rating)
  | dismiss (handler : Handler) (hcalls : handler.calls = []) :
      Moves s uid handler .dismiss .done []

/-- The inversion rule for handlers. -/
theorem moves {s : Store} (uid : Uid) {handler : Handler} {input : Input}
    (h : handler.Enabled s input) :
    Moves s uid handler input (handler.next uid input) (handler.issued uid input) := by
  cases handler <;> cases input
  case hasOffered.offers furniture documents =>
    by_cases hnone : hasOffered documents uid = true
    · simpa [Handler.next, Handler.issued, hnone] using
        Moves.offerAllowed furniture documents h hnone
    · have hsome : hasOffered documents uid = false := by simpa using hnone
      simpa [Handler.next, Handler.issued, hsome] using
        Moves.offerRefused furniture documents h hsome
  case offerDialog.add furniture price => exact .offer furniture price h
  case acceptDialog.ok taskId item => exact .confirmAccept taskId item
  case acceptGet.offers taskId item documents => exact .accept taskId item documents h
  case rejectDialog.ok taskId item => exact .reject taskId item
  case noReported.violations furniture documents =>
    by_cases hnone : noReported documents uid = true
    · simpa [Handler.next, Handler.issued, hnone] using
        Moves.reportAllowed furniture documents h hnone
    · have hsome : noReported documents uid = false := by simpa using hnone
      simpa [Handler.next, Handler.issued, hsome] using
        Moves.reportRefused furniture documents h hsome
  case reportDialog.submit furniture reason => exact .report furniture reason
  case ratingDialog.rate session furniture snapshot provider rating =>
    exact .rate session furniture snapshot provider rating
  all_goals first
    | exact .dismiss _ rfl
    | exact h.elim
    | exact absurd h Bool.false_ne_true

/-- The loop of Accept handles one document after the other. -/
theorem accept_cons (taskId : DocId) (item : Item) (d : Doc Offer) (documents : List (Doc Offer)) :
    accept taskId item (d :: documents) =
      accept taskId item [d] ++ accept taskId item documents := by
  simp [accept]

/-- The calls of the Accept loop: for every other offer a delete and a rejection, for the
chosen one an acceptance. -/
theorem mem_accept {taskId : DocId} {item : Item} {documents : List (Doc Offer)} {c : Call} :
    c ∈ accept taskId item documents ↔ ∃ d ∈ documents,
      (d.id ≠ item.offerId ∧
        (c = ⟨.deleteOffer d.id, false, some d.id⟩ ∨
          c = ⟨.addNotif ⟨d.data.provider, taskId, .rejected, true⟩, false, some d.id⟩)) ∨
      (d.id = item.offerId ∧
        c = ⟨.addNotif ⟨item.prov, taskId, .accepted, true⟩, false, some item.offerId⟩) := by
  simp only [accept, List.mem_flatMap]
  refine exists_congr fun d => and_congr_right fun _ => ?_
  by_cases h : d.id = item.offerId <;> simp [h]

/-- A handler has writes to do after an input only where it issued them. -/
theorem Handler.next_calls {s : Store} (uid : Uid) {handler : Handler} {input : Input}
    (h : handler.Enabled s input) :
    (handler.next uid input).calls = handler.issued uid input ∧ handler.calls = [] := by
  have hmoves := moves uid h
  generalize handler.next uid input = next at hmoves
  generalize handler.issued uid input = issued at hmoves
  cases hmoves with
  | dismiss _ hcalls => exact ⟨rfl, hcalls⟩
  | _ => exact ⟨rfl, rfl⟩

end Oun
