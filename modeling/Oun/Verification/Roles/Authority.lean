import Oun.Verification.Rating.Mean
import Oun.Verification.Roles.References
import Oun.Verification.Sessions.Screens
import Oun.Verification.Winner.Agreement

/-! # Who writes what

The screens are all that keeps users from writing in the place of others: tasks, offers and
reports carry the id of their writer, and what happens to offers and ratings on a task is up
to its author. -/

namespace Oun

open Firestore Regex Transition

/-- An offer of the user has been accepted, on whatever task. -/
def HasWon (s : Store) (p : Uid) : Prop :=
  ∃ d ∈ s.notifs.docs, d.data.status = .accepted ∧ d.data.user = p

/-- The call is within the rights of the user who makes it. -/
def Call.Authorized (w : World) (uid : Uid) (c : Call) : Prop :=
  match c.write with
  | .addTask t => t.author = uid
  | .addOffer o => o.provider = uid ∧ HasTask w.store o.task o.taskOwner ∧ uid ≠ o.taskOwner
  | .deleteOffer id => ∃ o, Submitted w.log id o ∧ HasTask w.store o.task uid
  | .addNotif n =>
      match n.status with
      | .added => HasTask w.store n.task n.user ∧ uid ≠ n.user
      | _ => HasTask w.store n.task uid ∧ uid ≠ n.user ∧ HasSubmitted w.log n.user n.task
  | .addViolation v => v.reporter = uid ∧ ∃ author, HasTask w.store v.taskId author ∧ uid ≠ author
  | .addRate r => HasTask w.store r.task uid ∧ 0 < winners w.store r.task ∧ HasWon w.store r.user
  | .updateRate p _ => (∃ t, HasTask w.store t uid ∧ 0 < winners w.store t) ∧ HasWon w.store p

/-- What provenance does not say of a call. -/
def Call.Rightful (w : World) (uid : Uid) (c : Call) : Prop :=
  match c.write with
  | .addTask t => t.author = uid
  | .addNotif n => n.status = .added → uid ≠ n.user
  | .addRate r => HasTask w.store r.task uid ∧ 0 < winners w.store r.task ∧ HasWon w.store r.user
  | .updateRate p _ => (∃ t, HasTask w.store t uid ∧ 0 < winners w.store t) ∧ HasWon w.store p
  | _ => True

def Handler.Rightful (w : World) (uid : Uid) : Handler → Prop
  | .ratingDialog _ furniture _ =>
      HasTask w.store furniture.id uid ∧ 0 < winners w.store furniture.id
  | .writing _ calls => ∀ c ∈ calls, c.Rightful w uid
  | _ => True

/-- A screen shows an acceptance only of a task that has one, and the rating bar of such a task
only to its author. -/
structure Screen.Rightful (w : World) (screen : Screen) : Prop where
  accepted : screen.accepted = some true → 0 < winners w.store screen.furniture.id
  bar : screen.rateBar.isSome = true →
    screen.uid = screen.furniture.author ∧ 0 < winners w.store screen.furniture.id

/-- `provider` is always somebody who has won. -/
structure Rightful (w : World) : Prop where
  providers : ∀ session p, (w.sessions session).provider = some p → HasWon w.store p
  screens : ∀ screen ∈ w.screens, screen.Rightful w
  processes : ∀ p ∈ w.processes, p.handler.Rightful w p.uid
  log : ∀ e ∈ w.log, e.call.Rightful w e.uid

/-! ## Rights are not lost -/

theorem HasWon.perform {w : World} {a : Action} (h : Enabled w a) {p : Uid}
    (hp : HasWon w.store p) : HasWon (perform w a).store p := by
  obtain ⟨d, hd, hwon⟩ := hp
  exact ⟨d, notifs_grow.mem_perform h hd, hwon⟩

theorem winners_perform {w : World} {a : Action} (h : Enabled w a) {t : DocId}
    (ht : 0 < winners w.store t) : 0 < winners (perform w a).store t := by
  rw [winners, notifs_perform h]
  exact Nat.add_pos_left ht _

section Mono

variable {w w' : World} (hext : Extends w w') (hwon : ∀ p, HasWon w.store p → HasWon w'.store p)
  (hwinners : ∀ t, 0 < winners w.store t → 0 < winners w'.store t)
include hext hwon hwinners

theorem Call.Rightful.mono {uid : Uid} {c : Call} (h : c.Rightful w uid) : c.Rightful w' uid := by
  obtain ⟨write, awaited, about⟩ := c
  cases write with
  | addTask t => exact h
  | addNotif n => exact h
  | addRate r => exact ⟨HasTask.mono hext h.1, hwinners _ h.2.1, hwon _ h.2.2⟩
  | updateRate p rate =>
      obtain ⟨⟨t, htask, ht⟩, hp⟩ := h
      exact ⟨⟨t, htask.mono hext, hwinners t ht⟩, hwon _ hp⟩
  | _ => trivial

theorem Handler.Rightful.mono {uid : Uid} {handler : Handler} (h : handler.Rightful w uid) :
    handler.Rightful w' uid := by
  cases handler with
  | ratingDialog _ _ _ => exact ⟨h.1.mono hext, hwinners _ h.2⟩
  | writing _ calls => exact fun c hc => (h c hc).mono hext hwon hwinners
  | _ => trivial

omit hext hwon in
theorem Screen.Rightful.mono {screen : Screen} (h : screen.Rightful w) : screen.Rightful w' :=
  ⟨fun ha => hwinners _ (h.accepted ha), fun hb => (h.bar hb).imp_right (hwinners _)⟩

end Mono

/-! ## One step -/

theorem moves_rightful {w : World} (hw : Rightful w) {uid : Uid} {handler next : Handler}
    {input : Input} {issued : List Call} (h : handler.Rightful w uid)
    (hproper : handler.Proper w uid)
    (hreads : w.Reads handler input) (hmoves : Moves w.store uid handler input next issued) :
    next.Rightful w uid := by
  cases hmoves with
  | offer furniture price =>
      simp only [Handler.Rightful, addOffer, List.forall_mem_cons, List.not_mem_nil,
        false_implies, implies_true, and_true]
      exact ⟨trivial, fun _ => hproper.2⟩
  | accept taskId item documents =>
      intro c hc
      obtain ⟨x, -, ⟨-, rfl | rfl⟩ | ⟨-, rfl⟩⟩ := mem_accept.mp hc <;> simp [Call.Rightful]
  | reject taskId item => simp [Handler.Rightful, reject, Call.Rightful]
  | report furniture reason => simp [Handler.Rightful, report, Call.Rightful]
  | rate session furniture snapshot provider rating =>
      have hprovider : HasWon w.store provider := hw.providers session provider hreads.1
      simp only [Handler.Rightful, rate, List.forall_mem_cons, List.not_mem_nil, false_implies,
        implies_true, and_true]
      exact ⟨⟨h.1, h.2, hprovider⟩, ⟨furniture.id, h⟩, hprovider⟩
  | _ => trivial

private theorem spawned_rightful {w : World} {a : Action} (hw : Rightful w) (hprov : Provenance w)
    (henabled : Enabled w a) {p : Process} (h : spawned w a = some p) :
    p.handler.Rightful w p.uid := by
  cases a <;> simp only [spawned, Option.map_eq_some_iff, reduceCtorEq] at h
  case sendNewTask =>
    obtain ⟨uid, -, rfl⟩ := h
    simp [Handler.Rightful, sendNewTask, Call.Rightful]
  case pressRate i rating =>
    obtain ⟨screen, hget, rfl⟩ := h
    obtain ⟨screen', hget', -, hbar⟩ := (w.onScreen_iff _ _).mp henabled
    obtain rfl : screen = screen' := Option.some.inj (hget.symm.trans hget')
    have hmem := List.mem_of_getElem? hget
    obtain ⟨howner, hwinners⟩ := (hw.screens screen hmem).bar hbar
    exact ⟨howner ▸ (hprov.screens screen hmem).1, hwinners⟩
  all_goals
    obtain ⟨screen, -, rfl⟩ := h
    trivial

private theorem providers_rightful {w : World} {a : Action} (hw : Rightful w)
    (henabled : Enabled w a) :
    ∀ session p, ((perform w a).sessions session).provider = some p → HasWon w.store p := by
  have heffect := screenEffect henabled
  generalize perform w a = w' at heffect
  intro session p hset
  cases heffect with
  | keep hprovider => exact hw.providers session p (hprovider session ▸ hset)
  | @completes i documents screen hget hdocuments =>
      simp only [World.acceptedCompletes, World.updateScreen, World.updateSession] at hset
      split at hset
      · rcases isAccepted_stored hdocuments (w.sessions screen.session).provider with
          ⟨-, hsame⟩ | ⟨d, -, hstored, -, hstatus, hfound⟩
        · exact hw.providers screen.session p (hsame.symm.trans hset)
        · exact ⟨d, hstored, hstatus, Option.some.inj (hfound.symm.trans hset)⟩
      · exact hw.providers session p hset

/-- A rating bar is only drawn under the details, which only the author sees. -/
private theorem screens_rightful {w : World} {a : Action} (hw : Rightful w)
    (henabled : Enabled w a) : ∀ screen ∈ (perform w a).screens, screen.Rightful w := by
  have hkeep : ∀ i (P : Screen → Prop) (f : Screen → World), w.OnScreen i P →
      (∀ screen, P screen → screen.Rightful w → ∀ s ∈ (f screen).screens, s.Rightful w) →
      ∀ s ∈ (w.withScreen i f).screens, s.Rightful w := by
    intro i P f hscreen hf
    obtain ⟨screen, hget, hP⟩ := (w.onScreen_iff i P).mp hscreen
    rw [World.withScreen_of_get f hget]
    exact hf screen hP (hw.screens screen (List.mem_of_getElem? hget))
  cases a with
  | openScreen session task =>
      obtain ⟨uid, huid⟩ := Option.isSome_iff_exists.mp henabled.1
      simp only [perform, huid]
      exact Pool.forall_append hw.screens ⟨by simp, by simp⟩
  | sendNewTask session _ _ _ _ =>
      obtain ⟨uid, huid⟩ := Option.isSome_iff_exists.mp henabled.1
      simp only [perform, huid]
      exact hw.screens
  | closeScreen i | build i | offersEvent i documents =>
      exact hkeep i _ _ henabled fun screen _ h =>
        Pool.forall_set hw.screens ⟨h.accepted, h.bar⟩
  | isAccepted i documents =>
      refine hkeep i _ _ henabled fun screen hP h =>
        Pool.forall_set hw.screens ⟨fun ha => ?_, h.bar⟩
      by_cases hopen : screen.isOpen = true
      · simp only [hopen, ite_true, Option.some.injEq] at ha
        have hone := (isAccepted_iff hP.2 _).mp ha
        show 0 < winners w.store screen.furniture.id
        omega
      · simp only [hopen] at ha
        exact h.accepted ha
  | israted i documents =>
      refine hkeep i _ _ henabled fun screen hP h =>
        Pool.forall_set hw.screens ⟨h.accepted, fun _ => ⟨hP.1.2.1, ?_⟩⟩
      exact h.accepted hP.1.2.2.1
  | rateEvent i documents =>
      refine hkeep i _ _ henabled fun screen _ h =>
        Pool.forall_set hw.screens ⟨h.accepted, fun hbar => h.bar ?_⟩
      simpa using hbar
  | pressOffer i | pressAccept i _ | pressReject i _ | pressReport i | pressRate i _ =>
      exact hkeep i _ _ henabled fun _ _ _ => hw.screens
  | process k input =>
      obtain ⟨⟨uid, handler⟩, hget, -⟩ := (w.onProcess_iff k _).mp henabled
      simp only [perform, World.process, hget]
      exact hw.screens
  | write k =>
      simp only [perform, World.write]
      split <;> exact hw.screens
  | _ => exact hw.screens

private theorem processes_rightful {w : World} {a : Action} (hw : Rightful w)
    (hprov : Provenance w) (henabled : Enabled w a) :
    (∀ p ∈ (perform w a).processes, p.handler.Rightful w p.uid) ∧
      ∀ e ∈ (perform w a).log, e.call.Rightful w e.uid := by
  have heffect := effect henabled
  generalize perform w a = w' at heffect
  cases heffect with
  | idle _ _ _ hprocesses hlog =>
      rw [hprocesses, hlog]
      exact ⟨hw.processes, hw.log⟩
  | signUp uid user => exact ⟨hw.processes, hw.log⟩
  | spawn p hspawned _ _ _ hprocesses hlog =>
      rw [hprocesses, hlog]
      exact ⟨Pool.forall_append hw.processes (spawned_rightful hw hprov henabled hspawned), hw.log⟩
  | @process _ uid _ input hget hinput hreads =>
      have hrightful := hw.processes _ (List.mem_of_getElem? hget)
      have hproper := hprov.processes _ (List.mem_of_getElem? hget)
      exact ⟨Pool.forall_set hw.processes
        (moves_rightful hw hrightful hproper hreads (moves _ hinput)), hw.log⟩
  | @write k uid job call calls hget =>
      have hcalls : ∀ c ∈ call :: calls, c.Rightful w uid :=
        hw.processes _ (List.mem_of_getElem? hget)
      exact ⟨Pool.forall_set hw.processes fun c hc => hcalls c (List.mem_cons_of_mem _ hc),
        Pool.forall_append hw.log (hcalls call List.mem_cons_self)⟩

theorem rightful {w : World} (hw : Reachable app w) : Rightful w := by
  refine hw.invariant (I := Rightful) ?_ fun u a hreach hu ha => ?_
  · constructor <;> simp [app, World.init]
  have hext := extends_perform ha
  have hwon : ∀ p, HasWon u.store p → HasWon (perform u a).store p := fun p hp => hp.perform ha
  have hwinners : ∀ t, 0 < winners u.store t → 0 < winners (perform u a).store t :=
    fun t ht => winners_perform ha ht
  obtain ⟨hprocesses, hlog⟩ := processes_rightful hu (provenance hreach) ha
  exact {
    providers := fun session p hset => hwon p (providers_rightful hu ha session p hset)
    screens := fun screen hs => (screens_rightful hu ha screen hs).mono hwinners
    processes := fun p hp => (hprocesses p hp).mono hext hwon hwinners
    log := fun e he => (hlog e he).mono hext hwon hwinners }

/-! ## The log -/

/-- Everything that has ever been written was within the rights of the user who wrote it. -/
theorem log_authorized {w : World} (hw : Reachable app w) :
    ∀ e ∈ w.log, e.call.Authorized w e.uid := by
  intro e he
  have hproper := (provenance hw).log e he
  have hrightful := (rightful hw).log e he
  cases hwrite : e.call.write with
  | addTask t => simpa only [Call.Authorized, Call.Rightful, hwrite] using hrightful
  | addOffer o =>
      simp only [Call.Proper, hwrite] at hproper
      simp only [Call.Authorized, hwrite]
      exact ⟨hproper.2.1, hproper.1, hproper.2.2.1⟩
  | deleteOffer id =>
      simp only [Call.Proper, hwrite] at hproper
      simpa only [Call.Authorized, hwrite] using hproper.2
  | addNotif n =>
      simp only [Call.Rightful, hwrite] at hrightful
      simp only [Call.Authorized, hwrite]
      by_cases hstatus : n.status = .added
      · simp only [Call.Proper, hwrite, hstatus] at hproper
        simp only [hstatus]
        exact ⟨hproper, hrightful hstatus⟩
      · obtain ⟨htask, id, o, -, hsub, hon, hby⟩ :=
          (provenance hw).verdict_call he hwrite hstatus
        obtain ⟨hauthor, hne⟩ := (provenance hw).submitted hsub
        have howner : o.taskOwner = e.uid := (hon ▸ hauthor).unique htask
        obtain ⟨e', he', hwrite', -⟩ := hsub
        have hverdict : HasTask w.store n.task e.uid ∧ e.uid ≠ n.user ∧
            HasSubmitted w.log n.user n.task :=
          ⟨htask, by rw [← howner, ← hby]; exact hne.symm, e', he', o, hwrite', hon, hby⟩
        cases hs : n.status with
        | added => exact absurd hs hstatus
        | _ => exact hverdict
  | addViolation v => simpa only [Call.Authorized, Call.Proper, hwrite] using hproper
  | addRate r => simpa only [Call.Authorized, Call.Rightful, hwrite] using hrightful
  | updateRate p rate => simpa only [Call.Authorized, Call.Rightful, hwrite] using hrightful

namespace Scenario

/-- A provider reports the task when the owner has rated the other one. -/
def ratedAndReported : List Action :=
  ratedWithoutData ++
    [.pressReport 1, .process 5 (.violations []), .process 5 (.submit .spam), .write 5]

end Scenario

/-- A log with all kinds of writes. -/
theorem log_authorized_ratedAndReported :
    let w := app.final app.init Scenario.ratedAndReported
    w.log.length = 11 ∧ w.store.rate.docs.length = 1 ∧ w.store.violations.docs.length = 1 ∧
      ∀ e ∈ w.log, e.call.Authorized w e.uid :=
  ⟨by decide +kernel, by decide +kernel, by decide +kernel,
    log_authorized ⟨_, app.run_steps _ Scenario.ratedAndReported (by decide +kernel)⟩⟩

end Oun
