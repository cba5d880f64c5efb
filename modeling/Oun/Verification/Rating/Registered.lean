import Oun.Verification.Sessions.Accounting
import Oun.Verification.Sessions.Screens

/-! # Rated users are registered

An offer can be accepted only when the provider's name and rate have been read, and only
accepted providers are rated. -/

namespace Oun

open Firestore Regex Transition

def IsUser (s : Store) (p : Uid) : Prop :=
  (s.users p).isSome

def Call.Registered (s : Store) (c : Call) : Prop :=
  match c.write with
  | .addNotif n => n.status = .accepted → IsUser s n.user
  | .addRate r => IsUser s r.user
  | .updateRate p _ => IsUser s p
  | _ => True

def Handler.Registered (s : Store) : Handler → Prop
  | .acceptDialog _ item | .acceptGet _ item => IsUser s item.prov
  | .writing _ calls => ∀ c ∈ calls, c.Registered s
  | _ => True

/-- Whoever is told of an acceptance or rated, or is about to be, is registered. -/
structure Registered (w : World) : Prop where
  providers : ∀ session p, (w.sessions session).provider = some p → IsUser w.store p
  processes : ∀ p ∈ w.processes, p.handler.Registered w.store
  notifs : ∀ d ∈ w.store.notifs.docs, d.data.status = .accepted → IsUser w.store d.data.user
  rates : ∀ d ∈ w.store.rate.docs, IsUser w.store d.data.user

theorem Call.Registered.mono {s s' : Store} (husers : ∀ p, IsUser s p → IsUser s' p) {c : Call}
    (h : c.Registered s) : c.Registered s' := by
  obtain ⟨write, awaited, about⟩ := c
  cases write with
  | addNotif n => exact fun hstatus => husers _ (h hstatus)
  | addRate r => exact husers _ h
  | updateRate p rate => exact husers _ h
  | _ => trivial

theorem Handler.Registered.mono {s s' : Store} (husers : ∀ p, IsUser s p → IsUser s' p)
    {handler : Handler} (h : handler.Registered s) : handler.Registered s' := by
  cases handler with
  | acceptDialog _ _ | acceptGet _ _ => exact husers _ h
  | writing _ calls => exact fun c hc => (h c hc).mono husers
  | _ => trivial

theorem moves_registered {w : World} (hw : Registered w) {uid : Uid} {handler next : Handler}
    {input : Input} {issued : List Call} (h : handler.Registered w.store)
    (hreads : w.Reads handler input) (hmoves : Moves w.store uid handler input next issued) :
    next.Registered w.store := by
  cases hmoves with
  | confirmAccept => exact h
  | accept taskId item documents =>
      intro c hc
      obtain ⟨x, -, ⟨-, rfl | rfl⟩ | ⟨-, rfl⟩⟩ := mem_accept.mp hc
      · trivial
      · intro hstatus
        simp at hstatus
      · exact fun _ => h
  | rate session furniture snapshot provider rating =>
      have hprovider : IsUser w.store provider := hw.providers session provider hreads.1
      simp only [Handler.Registered, rate, List.forall_mem_cons, List.not_mem_nil, false_implies,
        implies_true, and_true]
      exact ⟨hprovider, hprovider⟩
  | offer | reject | report =>
      simp [Handler.Registered, Call.Registered, addOffer, reject, report]
  | _ => trivial

private theorem spawned_registered {w : World} {a : Action} (henabled : Enabled w a)
    {p : Process} (h : spawned w a = some p) : p.handler.Registered w.store := by
  cases a <;> simp only [spawned, Option.map_eq_some_iff, reduceCtorEq] at h
  case sendNewTask =>
    obtain ⟨uid, -, rfl⟩ := h
    simp [Handler.Registered, sendNewTask, Call.Registered]
  case pressAccept i offer =>
    obtain ⟨screen, hget, rfl⟩ := h
    obtain ⟨screen', hget', henabled⟩ := (w.onScreen_iff _ _).mp henabled
    exact henabled.2.2
  all_goals
    obtain ⟨screen, -, rfl⟩ := h
    trivial

private theorem processes_registered {w : World} {a : Action} (hw : Registered w)
    (henabled : Enabled w a) :
    ∀ p ∈ (perform w a).processes, p.handler.Registered w.store := by
  have heffect := effect henabled
  generalize perform w a = w' at heffect
  cases heffect with
  | idle _ _ _ hprocesses => exact hprocesses ▸ hw.processes
  | signUp => exact hw.processes
  | spawn p hspawned _ _ _ hprocesses =>
      rw [hprocesses]
      exact Pool.forall_append hw.processes (spawned_registered henabled hspawned)
  | process input hget hinput hreads =>
      have hregistered := hw.processes _ (List.mem_of_getElem? hget)
      exact Pool.forall_set hw.processes (moves_registered hw hregistered hreads (moves _ hinput))
  | @write _ _ _ call calls hget =>
      have hregistered : ∀ c ∈ call :: calls, c.Registered w.store :=
        hw.processes _ (List.mem_of_getElem? hget)
      exact Pool.forall_set hw.processes fun c hc => hregistered c (List.mem_cons_of_mem _ hc)

private theorem lands_registered {w : World} {a : Action} (hw : Registered w) {c : Call}
    (hc : c ∈ lands w a) : c.Registered w.store := by
  obtain ⟨k, uid, job, calls, -, hget⟩ := lands_inversion hc
  exact hw.processes _ (List.mem_of_getElem? hget) c List.mem_cons_self

private theorem providers_registered {w : World} {a : Action} (hw : Registered w)
    (henabled : Enabled w a) :
    ∀ session p, ((perform w a).sessions session).provider = some p → IsUser w.store p := by
  have heffect := screenEffect henabled
  generalize perform w a = w' at heffect
  intro session p hset
  cases heffect with
  | keep hprovider => exact hw.providers session p (hprovider session ▸ hset)
  | @completes i documents screen hget hdocuments =>
      simp only [World.acceptedCompletes, World.updateScreen, World.updateSession] at hset
      split at hset
      · rename_i hsession
        rcases isAccepted_stored hdocuments (w.sessions screen.session).provider with
          ⟨-, hsame⟩ | ⟨d, -, hstored, -, hstatus, hfound⟩
        · exact hw.providers screen.session p (hsame.symm.trans hset)
        · obtain rfl : d.data.user = p := Option.some.inj (hfound.symm.trans hset)
          exact hw.notifs d hstored hstatus
      · exact hw.providers session p hset

theorem registered_perform {w : World} {a : Action} (hw : Registered w) (h : Enabled w a) :
    Registered (perform w a) := by
  have husers : ∀ p, IsUser w.store p → IsUser (perform w a).store p := fun p hp =>
    users_isSome_perform h hp
  refine ⟨fun session p hset => husers p (providers_registered hw h session p hset),
    fun p hp => (processes_registered hw h p hp).mono husers, ?_, ?_⟩
  · intro d hd hstatus
    refine husers _ ?_
    cases hlands : lands w a with
    | none => exact hw.notifs d ((perform_of_not_lands h hlands).1.notifs ▸ hd) hstatus
    | some c =>
        rw [(perform_of_lands h hlands).1] at hd
        rcases mem_notifs_apply hd with hd | ⟨hwrite, -⟩
        · exact hw.notifs d hd hstatus
        · have hregistered := lands_registered hw hlands
          simp only [Call.Registered, hwrite] at hregistered
          exact hregistered hstatus
  · intro d hd
    refine husers _ ?_
    cases hlands : lands w a with
    | none => exact hw.rates d ((perform_of_not_lands h hlands).1.rate ▸ hd)
    | some c =>
        rw [(perform_of_lands h hlands).1] at hd
        rcases mem_rate_apply hd with hd | hwrite
        · exact hw.rates d hd
        · have hregistered := lands_registered hw hlands
          simpa only [Call.Registered, hwrite] using hregistered

theorem registered {w : World} (hw : Reachable app w) : Registered w := by
  refine hw.invariant (I := Registered) ?_ fun u a _ hu ha => registered_perform hu ha
  constructor <;> simp [app, World.init, Store.empty]

end Oun
