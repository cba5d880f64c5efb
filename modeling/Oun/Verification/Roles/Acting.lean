import Oun.Verification.Roles.Authority
import Oun.Verification.Tasks.Drained

/-! # Who acts and who is mentioned

Whoever appears in a document of the market has been at work, and nobody is at work who was not
signed in. -/

namespace Oun

open Firestore Transition

/-! ## Who acts -/

/-- The user is signed in, looks at a screen, or has a handler or a write of the log. -/
def World.Acts (w : World) (uid : Uid) : Prop :=
  (∃ session, (w.sessions session).user = some uid) ∨ (∃ screen ∈ w.screens, screen.uid = uid) ∨
    (∃ p ∈ w.processes, p.uid = uid) ∨ ∃ e ∈ w.log, e.uid = uid

theorem World.acts_of_session {w : World} {session : SessionId} {uid : Uid}
    (h : (w.sessions session).user = some uid) : w.Acts uid :=
  .inl ⟨session, h⟩

theorem World.acts_of_screen {w : World} {i : ℕ} {screen : Screen}
    (h : w.screens[i]? = some screen) : w.Acts screen.uid :=
  .inr (.inl ⟨screen, List.mem_of_getElem? h, rfl⟩)

/-- A step keeps the user of a session, unless it signs in there. -/
theorem sessionUser_perform {w : World} {a : Action} {session : SessionId}
    (hne : ∀ uid, a ≠ .signIn session uid) :
    ((perform w a).sessions session).user = (w.sessions session).user := by
  have hscreen : ∀ (i : ℕ) (f : Screen → World),
      (∀ screen, ((f screen).sessions session).user = (w.sessions session).user) →
      ((w.withScreen i f).sessions session).user = (w.sessions session).user := by
    intro i f hf
    unfold World.withScreen
    split
    · exact hf _
    · rfl
  cases a with
  | signIn s uid =>
      have hs : session ≠ s := by
        rintro rfl
        exact hne uid rfl
      simp [perform, World.updateSession, hs]
  | isAccepted i documents =>
      refine hscreen i _ fun screen => ?_
      simp only [World.acceptedCompletes, World.updateScreen, World.updateSession]
      split <;> rfl
  | pressRate i rating =>
      refine hscreen i _ fun screen => ?_
      simp only [World.spawn, World.updateSession]
      split <;> rfl
  | sendNewTask => simp only [perform]; split <;> rfl
  | openScreen => simp only [perform]; split <;> rfl
  | process k input => simp only [perform, World.process]; split <;> rfl
  | write k => simp only [perform, World.write]; split <;> rfl
  | signUp | openNotifications => rfl
  | _ => exact hscreen _ _ fun _ => rfl

/-- A screen is opened by the user of its session. -/
theorem screens_acts {w : World} (a : Action) :
    ∀ screen ∈ (perform w a).screens, w.Acts screen.uid := by
  have hold : ∀ screen ∈ w.screens, w.Acts screen.uid := fun screen h =>
    .inr (.inl ⟨screen, h, rfl⟩)
  have hset : ∀ (i : ℕ) (f : Screen → World), (∀ screen, w.screens[i]? = some screen →
      (f screen).screens = w.screens ∨ ∃ screen', (f screen).screens = w.screens.set i screen' ∧
        screen'.uid = screen.uid) →
      ∀ screen ∈ (w.withScreen i f).screens, w.Acts screen.uid := by
    intro i f hf
    cases hget : w.screens[i]? with
    | none => simpa [World.withScreen, hget] using hold
    | some screen =>
        rw [World.withScreen_of_get f hget]
        rcases hf screen hget with hsame | ⟨screen', hscreens, huid⟩
        · exact hsame ▸ hold
        · rw [hscreens]
          exact Pool.forall_set hold (huid ▸ World.acts_of_screen hget)
  cases a with
  | openScreen session task =>
      simp only [perform]
      split
      · rename_i uid huid
        exact Pool.forall_append hold (World.acts_of_session huid)
      · exact hold
  | sendNewTask => simp only [perform]; split <;> exact hold
  | process k input => simp only [perform, World.process]; split <;> exact hold
  | write k => simp only [perform, World.write]; split <;> exact hold
  | signUp | signIn | openNotifications => exact hold
  | pressOffer | pressAccept | pressReject | pressReport | pressRate =>
      exact hset _ _ fun _ _ => .inl rfl
  | _ => exact hset _ _ fun _ _ => .inr ⟨_, rfl, rfl⟩

theorem spawned_uid {w : World} {a : Action} {p : Process} (h : spawned w a = some p) :
    w.Acts p.uid := by
  cases a <;> simp only [spawned, Option.map_eq_some_iff, reduceCtorEq] at h
  case sendNewTask session title description city category =>
    obtain ⟨uid, huid, rfl⟩ := h
    exact World.acts_of_session huid
  all_goals
    obtain ⟨screen, hget, rfl⟩ := h
    exact World.acts_of_screen hget

theorem acts_perform {w : World} {a : Action} (henabled : Enabled w a) {uid : Uid}
    (h : (perform w a).Acts uid) : w.Acts uid ∨ ∃ session, a = .signIn session uid := by
  rcases h with ⟨session, h⟩ | ⟨screen, hscreen, rfl⟩ | h
  · by_cases hsigns : ∃ p, a = .signIn session p
    · obtain ⟨p, rfl⟩ := hsigns
      obtain rfl : p = uid := by simpa [perform, World.updateSession] using h
      exact .inr ⟨session, rfl⟩
    · rw [sessionUser_perform fun p hp => hsigns ⟨p, hp⟩] at h
      exact .inl (World.acts_of_session h)
  · exact .inl (screens_acts a screen hscreen)
  · refine .inl ?_
    have heffect := effect henabled
    generalize perform w a = w' at heffect h
    cases heffect with
    | idle _ _ _ hprocesses hlog => exact .inr (.inr (hprocesses ▸ hlog ▸ h))
    | signUp => exact .inr (.inr h)
    | spawn p hspawned _ _ _ hprocesses hlog =>
        rw [hprocesses, hlog] at h
        rcases h with ⟨q, hq, rfl⟩ | h
        · rcases List.mem_append.mp hq with hq | hq
          · exact .inr (.inr (.inl ⟨q, hq, rfl⟩))
          · rw [List.mem_singleton.mp hq]
            exact spawned_uid hspawned
        · exact .inr (.inr (.inr h))
    | process input hget =>
        rcases h with ⟨q, hq, rfl⟩ | h
        · rcases List.mem_or_eq_of_mem_set hq with hq | rfl
          · exact .inr (.inr (.inl ⟨q, hq, rfl⟩))
          · exact .inr (.inr (.inl ⟨_, List.mem_of_getElem? hget, rfl⟩))
        · exact .inr (.inr (.inr h))
    | write hget =>
        have hwriter := List.mem_of_getElem? hget
        rcases h with ⟨q, hq, rfl⟩ | ⟨e, he, rfl⟩
        · rcases List.mem_or_eq_of_mem_set hq with hq | rfl
          · exact .inr (.inr (.inl ⟨q, hq, rfl⟩))
          · exact .inr (.inr (.inl ⟨_, hwriter, rfl⟩))
        · rcases List.mem_append.mp he with he | he
          · exact .inr (.inr (.inr ⟨e, he, rfl⟩))
          · rw [List.mem_singleton.mp he]
            exact .inr (.inr (.inl ⟨_, hwriter, rfl⟩))

/-! ## Who is mentioned -/

/-- The uid is a field of a document or the id of a user's. -/
inductive Store.Mentions (s : Store) : Uid → Prop where
  | author {d} (h : d ∈ s.tasks.docs) : Mentions s d.data.author
  | provider {d} (h : d ∈ s.offers.docs) : Mentions s d.data.provider
  | taskOwner {d} (h : d ∈ s.offers.docs) : Mentions s d.data.taskOwner
  | told {d} (h : d ∈ s.notifs.docs) : Mentions s d.data.user
  | reporter {d} (h : d ∈ s.violations.docs) : Mentions s d.data.reporter
  | rated {d} (h : d ∈ s.rate.docs) : Mentions s d.data.user
  | user {uid} (h : (s.users uid).isSome = true) : Mentions s uid

theorem Grows.exists_event {α : Type} [DecidableEq α] {docs : Store → Collection α}
    {added : Write → Option α} (grows : Grows docs added) {w : World} (hw : Reachable app w)
    {d : Doc α} (hd : d ∈ (docs w.store).docs) : ∃ e ∈ w.log, added e.call.write = some d.data := by
  have hpos : 0 < (docs w.store).count fun a => decide (a = d.data) :=
    (Collection.count_pos _ _).mpr ⟨d, hd, decide_eq_true rfl⟩
  rw [grows.count_eq_logged hw] at hpos
  obtain ⟨e, he, hadds⟩ := logged_pos.mp hpos
  obtain ⟨a, ha, heq⟩ := Call.adds_iff.mp hadds
  exact ⟨e, he, of_decide_eq_true heq ▸ ha⟩

theorem acts_of_hasTask {w : World} (hw : Reachable app w) {t : DocId} {author : Uid}
    (h : HasTask w.store t author) : w.Acts author := by
  obtain ⟨d, hd, -, rfl⟩ := h
  obtain ⟨e, he, hadded⟩ := tasks_grow.exists_event hw hd
  have hrightful := (rightful hw).log e he
  cases hwrite : e.call.write with
  | addTask t =>
      rw [hwrite] at hadded
      obtain rfl := Option.some.inj hadded
      simp only [Call.Rightful, hwrite] at hrightful
      exact .inr (.inr (.inr ⟨e, he, hrightful.symm⟩))
  | _ => simp [hwrite, Write.task?] at hadded

theorem acts_of_submitted {w : World} (hw : Reachable app w) {id : DocId} {o : Offer}
    (h : Submitted w.log id o) : w.Acts o.provider := by
  obtain ⟨e, he, hwrite, -⟩ := h
  have hproper := (provenance hw).log e he
  simp only [Call.Proper, hwrite] at hproper
  exact .inr (.inr (.inr ⟨e, he, hproper.2.1.symm⟩))

theorem acts_of_told {w : World} (hw : Reachable app w) {d : Doc Notif}
    (hd : d ∈ w.store.notifs.docs) : w.Acts d.data.user := by
  by_cases hstatus : d.data.status = .added
  · obtain ⟨e, he, hwrite, -⟩ := (provenance hw).notifs d hd
    have hproper := (provenance hw).log e he
    simp only [Call.Proper, hwrite, hstatus] at hproper
    exact acts_of_hasTask hw hproper
  · obtain ⟨author, -, -, -, e, he, o, hwrite, -, hprovider⟩ := (provenance hw).verdict hd hstatus
    exact hprovider ▸ acts_of_submitted hw ⟨e, he, hwrite, rfl⟩

/-- Whoever is mentioned has acted, or has only signed up. -/
theorem acts_of_mentions {w : World} (hw : Reachable app w) {uid : Uid}
    (h : w.store.Mentions uid) : w.Acts uid ∨ (w.store.users uid).isSome = true := by
  cases h with
  | author hd => exact .inl (acts_of_hasTask hw ⟨_, hd, rfl, rfl⟩)
  | provider hd => exact .inl (acts_of_submitted hw ((provenance hw).offers _ hd))
  | taskOwner hd =>
      exact .inl (acts_of_hasTask hw ((provenance hw).submitted ((provenance hw).offers _ hd)).1)
  | told hd => exact .inl (acts_of_told hw hd)
  | @reporter d hd =>
      obtain ⟨e, he, hwrite, -⟩ := (provenance hw).violations d hd
      have hproper := (provenance hw).log e he
      simp only [Call.Proper, hwrite] at hproper
      exact .inl (.inr (.inr (.inr ⟨e, he, hproper.1.symm⟩)))
  | @rated d hd =>
      obtain ⟨e, he, hadded⟩ := rate_grows.exists_event hw hd
      have hrightful := (rightful hw).log e he
      cases hwrite : e.call.write with
      | addRate r =>
          rw [hwrite] at hadded
          obtain rfl := Option.some.inj hadded
          simp only [Call.Rightful, hwrite] at hrightful
          obtain ⟨-, -, n, hn, -, huser⟩ := hrightful
          exact .inl (huser ▸ acts_of_told hw hn)
      | _ => simp [hwrite, Write.rate?] at hadded
  | user h => exact .inr h

end Oun
