import Oun.Model.Whole
import Oun.Verification.Entrance.Complete
import Oun.Verification.Sessions.Accounting
import Oun.Verification.Winner.Single

/-! # The two halves of the app

A run of the whole app is a run of the entrance and a run of the task screens, which agree on
the users but for their rates. -/

namespace Oun

open Firestore Regex Numeral Future Transition

/-! ## The documents in `users` -/

def Services.user (services : Services) (uid : Uid) : Option User :=
  (services.users.find? fun d => d.id = uid).map Doc.data

/-- The user but for the rate. -/
def User.unrated (user : User) : User := { user with rate := .value 0 }

@[simp] theorem User.unrated_rate (user : User) (rate : Double) :
    User.unrated { user with rate } = user.unrated := rfl

theorem Services.user_set (services : Services) (d : Doc User) (uid : Uid) :
    (services.set d).user uid = if uid = d.id then some d.data else services.user uid := by
  by_cases h : uid = d.id
  · simp [Services.user, Services.set, h]
  · have hkept : ∀ other : Doc User, other.id = uid → other.id ≠ d.id := by
      rintro other rfl
      exact h
    rw [if_neg h]
    simp only [Services.user, Services.set, List.find?_cons, Ne.symm h, decide_false]
    rw [List.find?_filter]
    congr 2
    funext other
    by_cases hother : other.id = uid <;> simp_all

theorem Services.mem_of_user {services : Services} {uid : Uid} {user : User}
    (h : services.user uid = some user) : ⟨uid, user⟩ ∈ services.users := by
  obtain ⟨d, hd, rfl⟩ := Option.map_eq_some_iff.mp h
  have hid := List.find?_some hd
  obtain rfl := of_decide_eq_true hid
  exact List.mem_of_find?_eq_some hd

theorem Services.user_eq_none {services : Services} (sound : services.Sound) {d : Doc User}
    (hd : d ∈ services.writing) : services.user d.id = none := by
  have hnodup := sound.nodup
  rw [Services.ids, List.map_append, List.nodup_append] at hnodup
  simp only [Services.user, Option.map_eq_none_iff, List.find?_eq_none, decide_eq_true_eq]
  exact fun other hother =>
    hnodup.2.2 _ (List.mem_map_of_mem hother) _ (List.mem_map_of_mem hd)

theorem users_resume (stage : Stage) (result : Answer) (s : Scope) :
    (stage.resume result s).2.services.users = s.services.users := by
  rcases services_resume s stage result with hsame | ⟨email, password, uid, -, -, hcreated⟩
  · rw [hsame]
  · rw [hcreated]

/-- What the entrance does to users and sessions. -/
theorem moves_cases {w : Entrance} {event : Entrance.Event} {a : Action}
    (h : event.moves w = some a) :
    (∃ d, event = .wrote d true ∧ a = .signUp d.id d.data) ∨
      ∃ i uid attempt, event = .answer i (.user (.ok uid)) ∧ w.attempts[i]? = some attempt ∧
        a = .signIn attempt.phone uid := by
  cases event with
  | wrote d ok =>
      cases ok with
      | false => cases h
      | true => exact .inl ⟨d, rfl, (Option.some.inj h).symm⟩
  | answer i result =>
      rcases result with answer | (e | uid)
      · cases h
      · cases h
      · obtain ⟨attempt, hi, rfl⟩ := Option.map_eq_some_iff.mp h
        exact .inr ⟨i, uid, attempt, rfl, hi, rfl⟩
  | _ => cases h

section Addresses

variable {address : Addressing}

/-- The entrance stores a document or leaves them alone. -/
theorem user_perform {w : Entrance} {event : Entrance.Event} (henabled : event.Enabled address w)
    (uid : Uid) : (w.perform event).services.user uid =
      match event.moves w with
      | some (.signUp p user) => if uid = p then some user else w.services.user uid
      | _ => w.services.user uid := by
  cases event with
  | wrote d ok =>
      cases ok with
      | false => rfl
      | true =>
          exact Services.user_set { w.services with writing := w.services.writing.erase d } d uid
  | answer i result =>
      obtain ⟨attempt, hi, -⟩ := henabled
      have hi : w.attempts[i]? = some attempt := hi
      have hkept : (w.perform (.answer i result)).services.user uid = w.services.user uid := by
        simp only [Entrance.perform, hi, Entrance.put, Services.user, users_resume]
        rfl
      rcases result with answer | (e | p)
      · exact hkept
      · exact hkept
      · simp only [hkept, Entrance.Event.moves, hi, Option.map_some]
  | _ => rfl

/-- Nothing but a sign-up changes more of the users than their rates. -/
theorem unrated_perform {w : World} {a : Action} (h : Enabled w a)
    (hne : ∀ uid user, a ≠ .signUp uid user) (uid : Uid) :
    ((perform w a).store.users uid).map User.unrated =
      (w.store.users uid).map User.unrated := by
  have heffect := effect h
  generalize perform w a = w' at heffect
  cases heffect with
  | idle _ _ hstore => rw [hstore]
  | signUp uid user => exact absurd rfl (hne uid user)
  | spawn _ _ _ _ hstore => rw [hstore]
  | process => rfl
  | @write _ _ _ call =>
      cases hwrite : call.write with
      | updateRate q rate =>
          by_cases hq : uid = q
          · simp [Write.apply, hq, Function.comp_def]
          · simp [Write.apply, hq]
      | _ => rfl

/-! ## Agreement -/

def Agree (u : Entrance × World) : Prop :=
  ∀ uid, (u.2.store.users uid).map User.unrated = (u.1.services.user uid).map User.unrated

theorem Agree.step {u : Entrance × World} {c : Entrance.Event ⊕ Action} (h : Agree u)
    (henabled : (oun address).Enabled u c) : Agree ((oun address).perform u c) := by
  intro uid
  cases c with
  | inr a =>
      obtain ⟨hown, ha⟩ := henabled
      refine (unrated_perform ha ?_ uid).trans (h uid)
      rintro p user rfl
      exact hown
  | inl event =>
      have hentrance : ((oun address).perform u (.inl event)).1 = u.1.perform event := rfl
      rw [hentrance, user_perform henabled]
      cases hmoves : event.moves u.1 with
      | none =>
          simp only [oun, System.drives, hmoves]
          exact h uid
      | some a =>
          simp only [oun, System.drives, hmoves]
          rcases moves_cases hmoves with ⟨d, -, rfl⟩ | ⟨i, p, attempt, -, -, rfl⟩
          · show ((u.2.signUp d.id d.data).store.users uid).map User.unrated = _
            by_cases hid : uid = d.id
            · simp [World.signUp, hid]
            · simpa [World.signUp, hid] using h uid
          · exact h uid

theorem agree {u : Entrance × World} (hu : Reachable (oun address) u) : Agree u :=
  hu.invariant (I := Agree) (fun _ => rfl) fun _ _ _ h henabled => h.step henabled

/-! ## Following -/

/-- The phone on which a request signs a user in. -/
def Entrance.Event.signsInOn (w : Entrance) (event : Entrance.Event) : Option ℕ :=
  match event.moves w with
  | some (.signIn phone _) => some phone
  | _ => none

theorem mem_signsInOn {w : Entrance} {event : Entrance.Event} {phone : ℕ} :
    phone ∈ event.signsInOn w ↔ ∃ uid, event.moves w = some (.signIn phone uid) := by
  unfold Entrance.Event.signsInOn
  split
  · simp_all
  · simp_all

/-- Nobody is signed in on a phone on which a task screen is open. -/
def Uninterrupted (u : Entrance × World) : Entrance.Event ⊕ Action → Prop
  | .inl event => ∀ phone ∈ event.signsInOn u.1,
      ∀ screen ∈ u.2.screens, screen.isOpen = true → screen.session ≠ phone
  | .inr _ => True

instance Uninterrupted.decidable (u : Entrance × World) (c : Entrance.Event ⊕ Action) :
    Decidable (Uninterrupted u c) := by
  apply Sum.casesOn (motive := fun c => Decidable (Uninterrupted u c)) c <;> intros <;>
    unfold Uninterrupted <;> infer_instance

/-- A document that is stored is the first of its user, so that the task screens can follow but
for a sign-in that interrupts. -/
theorem follows_iff {u : Entrance × World} {c : Entrance.Event ⊕ Action}
    (hu : Reachable (oun address) u) (henabled : (oun address).Enabled u c) :
    Follows app Entrance.Event.moves u c ↔ Uninterrupted u c := by
  cases c with
  | inr a => exact iff_of_true trivial trivial
  | inl event =>
      constructor
      · intro h phone hphone
        obtain ⟨uid, hmoves⟩ := mem_signsInOn.mp hphone
        exact h _ hmoves
      · intro h a hmoves
        rcases moves_cases hmoves with ⟨d, rfl, rfl⟩ | ⟨i, uid, attempt, rfl, -, rfl⟩
        · have hsame := agree hu d.id
          rw [Services.user_eq_none (reachable_consistent hu.driving).services henabled] at hsame
          simpa [app, Enabled] using hsame
        · exact h _ (mem_signsInOn.mpr ⟨uid, hmoves⟩)

section Runs

variable {trace : List ((Entrance × World) × (Entrance.Event ⊕ Action))} {u : Entrance × World}
  (run : Run (oun address) (oun address).init trace u)
include run

theorem meets_follows_iff :
    Meets (Follows app Entrance.Event.moves) trace ↔ Meets Uninterrupted trace :=
  run.meets_congr fun _ _ => follows_iff

theorem reachable_app (h : Meets Uninterrupted trace) : Reachable app u.2 := by
  obtain ⟨steps, hsteps, -⟩ := (drives_driven_iff run).mpr ((meets_follows_iff run).mpr h)
  exact ⟨steps, hsteps⟩

/-- A run of the whole app is a run of the entrance, and exactly if no sign-in interrupts an open
task screen also one of the task screens, in which the entrance signs up and in. In every state
the two agree on the users. -/
theorem oun_runs :
    (∃ steps, Run (entrance address) (entrance address).init steps u.1 ∧
      steps.map Prod.snd = labels driving trace) ∧
    ((∃ steps, Run app app.init steps u.2 ∧
      steps.map Prod.snd = labels (driven Entrance.Event.moves) trace) ↔
        Meets Uninterrupted trace) ∧ Agree u := by
  obtain ⟨steps, w, hw, hlabels, rfl⟩ := drives_driving.run run fun _ _ => trivial
  exact ⟨⟨steps, hw, hlabels⟩, (drives_driven_iff run).trans (meets_follows_iff run),
    agree ⟨trace, run⟩⟩

end Runs

end Addresses

namespace Scenario

abbrev whole := oun lowerCase

def providerForm : Fields :=
  { form '2' with email := text ['t', '@', 'k', 's', 'u', '.', 's', 'a'] }

/-- A provider signs up when the task is there, and while its dialog is open the owner logs in on
another phone. -/
def together : List (Entrance.Event ⊕ Action) :=
  (signedUp 0 0 '1' (.ok 1)).map .inl ++
    [.inl (.wrote ⟨1, (form '1').user 1123456789⟩ true),
      .inr (.sendNewTask 0 title title .riyadh .maintenance), .inr (.write 0),
      .inl (.type 2 providerForm), .inl (.signUp 2), .inl (.answer 1 (.documents (.ok []))),
      .inl (.answer 1 (.user (.ok 2))), .inl (.wrote ⟨2, providerForm.user 2123456789⟩ true)] ++
    (visit 2 0 []).map .inr ++
    [.inr (.pressOffer 0), .inr (.process 1 (.offers [])),
      .inl (.login 1 address eightDigits), .inl (.answer 2 (.user (.ok 1))),
      .inr (.process 1 (.add sixty)), .inr (.write 1), .inr (.write 1)]

end Scenario

/-- Two sign-ups and a login among the steps of two handlers. -/
theorem oun_runs_together :
    let u := Scenario.whole.final Scenario.whole.init Scenario.together
    u.2.store.offers.docs.length = 1 ∧
      (∃ steps, Run app app.init steps u.2 ∧
        steps.map Prod.snd = labels (driven Entrance.Event.moves)
          (Scenario.whole.steps Scenario.whole.init Scenario.together)) ∧
      Agree u := by
  have run := Scenario.whole.run_steps Scenario.whole.init Scenario.together (by decide +kernel)
  obtain ⟨-, hscreens, hagree⟩ := oun_runs run
  exact ⟨by decide +kernel, hscreens.mpr (by decide +kernel), hagree⟩

end Oun
