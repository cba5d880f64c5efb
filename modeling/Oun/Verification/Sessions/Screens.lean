import Oun.Verification.Sessions.Effects
import Oun.Verification.Sessions.Questions

/-! # The library variable `provider` and the detail screens

All screens of a session share one variable, which every `isAccepted()` that finds an
acceptance overwrites. -/

namespace Oun

open Firestore Regex

/-- What a step does to `provider` of a session and to the screens that show an accepted
task. -/
inductive ScreenEffect (w : World) : Action → World → Prop where
  | keep {a w'} (hprovider : ∀ s, (w'.sessions s).provider = (w.sessions s).provider)
      (hscreens : ∀ screen' ∈ w'.screens, screen'.isOpen = true → screen'.accepted = some true →
        ∃ screen ∈ w.screens, screen.isOpen = true ∧ screen.accepted = some true ∧
          screen.session = screen'.session ∧ screen.furniture = screen'.furniture) :
      ScreenEffect w a w'
  | completes {i documents} {screen : Screen} (hget : w.screens[i]? = some screen)
      (hdocuments : documents.Perm (w.store.notifs.whereEqualTo Notif.task screen.furniture.id)) :
      ScreenEffect w (.isAccepted i documents) (w.acceptedCompletes i screen documents)

private theorem ScreenEffect.keepScreen {w : World} {a : Action} {i : ℕ} {P : Screen → Prop}
    {f : Screen → Screen} (hscreen : w.OnScreen i P)
    (hf : ∀ screen, (f screen).isOpen = true → (f screen).accepted = some true →
      screen.isOpen = true ∧ screen.accepted = some true)
    (hsession : ∀ screen, (f screen).session = screen.session)
    (hfurniture : ∀ screen, (f screen).furniture = screen.furniture) :
    ScreenEffect w a (w.withScreen i fun screen => w.updateScreen i (f screen)) := by
  obtain ⟨screen, hget, -⟩ := (w.onScreen_iff i P).mp hscreen
  rw [World.withScreen_of_get _ hget]
  refine .keep (fun _ => rfl) fun screen' hmem hopen haccepted => ?_
  rcases List.mem_or_eq_of_mem_set hmem with hmem | rfl
  · exact ⟨screen', hmem, hopen, haccepted, rfl, rfl⟩
  · obtain ⟨hopen, haccepted⟩ := hf screen hopen haccepted
    exact ⟨screen, List.mem_of_getElem? hget, hopen, haccepted, (hsession screen).symm,
      (hfurniture screen).symm⟩

private theorem ScreenEffect.same {w w' : World} {a : Action} (hscreens : w'.screens = w.screens)
    (hprovider : ∀ s, (w'.sessions s).provider = (w.sessions s).provider) :
    ScreenEffect w a w' :=
  .keep hprovider fun screen' hmem hopen haccepted =>
    ⟨screen', hscreens ▸ hmem, hopen, haccepted, rfl, rfl⟩

private theorem ScreenEffect.press {w : World} {a : Action} {i : ℕ} {P : Screen → Prop}
    {f : Screen → World} (hscreen : w.OnScreen i P)
    (hscreens : ∀ screen, (f screen).screens = w.screens)
    (hprovider : ∀ screen s, ((f screen).sessions s).provider = (w.sessions s).provider) :
    ScreenEffect w a (w.withScreen i f) := by
  obtain ⟨screen, hget, -⟩ := (w.onScreen_iff i P).mp hscreen
  rw [World.withScreen_of_get f hget]
  exact .same (hscreens screen) (hprovider screen)

theorem screenEffect {w : World} {a : Action} (h : Enabled w a) :
    ScreenEffect w a (perform w a) := by
  cases a with
  | signUp uid user => exact .same rfl fun _ => rfl
  | signIn session uid =>
      refine .same rfl fun s => ?_
      simp only [perform, World.updateSession]
      split <;> rfl
  | sendNewTask session title description city category =>
      obtain ⟨uid, huid⟩ := Option.isSome_iff_exists.mp h.1
      simp only [perform, huid]
      exact .same rfl fun _ => rfl
  | openScreen session task =>
      obtain ⟨uid, huid⟩ := Option.isSome_iff_exists.mp h.1
      simp only [perform, huid]
      refine .keep (fun _ => rfl) fun screen' hmem hopen haccepted => ?_
      rcases List.mem_append.mp hmem with hmem | hmem
      · exact ⟨screen', hmem, hopen, haccepted, rfl, rfl⟩
      · simp [List.mem_singleton.mp hmem] at haccepted
  | closeScreen i => exact .keepScreen h (by simp) (fun _ => rfl) fun _ => rfl
  | build i => exact .keepScreen h (fun _ ho ha => ⟨ho, ha⟩) (fun _ => rfl) fun _ => rfl
  | isAccepted i documents =>
      obtain ⟨screen, hget, -, hdocuments⟩ := (w.onScreen_iff i _).mp h
      simp only [perform]
      rw [World.withScreen_of_get _ hget]
      exact .completes hget hdocuments
  | offersEvent i documents =>
      exact .keepScreen h (fun _ ho ha => ⟨ho, ha⟩) (fun _ => rfl) fun _ => rfl
  | israted i documents =>
      exact .keepScreen h (fun _ ho ha => ⟨ho, ha⟩) (fun _ => rfl) fun _ => rfl
  | rateEvent i documents =>
      exact .keepScreen h (fun _ ho ha => ⟨ho, ha⟩) (fun _ => rfl) fun _ => rfl
  | pressOffer i => exact .press h (fun _ => rfl) fun _ _ => rfl
  | pressAccept i offer => exact .press h (fun _ => rfl) fun _ _ => rfl
  | pressReject i offer => exact .press h (fun _ => rfl) fun _ _ => rfl
  | pressReport i => exact .press h (fun _ => rfl) fun _ _ => rfl
  | pressRate i rating =>
      refine .press h (fun _ => rfl) fun screen s => ?_
      simp only [World.spawn, World.updateSession]
      split <;> rfl
  | openNotifications session => exact .same rfl fun _ => rfl
  | process k input =>
      obtain ⟨⟨uid, handler⟩, hget, -⟩ := (w.onProcess_iff k _).mp h
      simp only [perform, World.process, hget]
      exact .same rfl fun _ => rfl
  | write k =>
      simp only [perform, World.write]
      split <;> exact .same rfl fun _ => rfl

/-- Only `isAccepted()` writes the variable. -/
theorem provider_perform {w : World} {a : Action} (h : Enabled w a)
    (hne : ∀ i documents, a ≠ .isAccepted i documents) (session : SessionId) :
    ((perform w a).sessions session).provider = (w.sessions session).provider := by
  have heffect := screenEffect h
  generalize perform w a = w' at heffect
  cases heffect with
  | keep hprovider => exact hprovider session
  | completes => exact absurd rfl (hne _ _)

/-! ## Screens keep their task -/

/-- Every screen of `w` is still there in `w'`, for the same task and in the same session. -/
def Kept (w w' : World) : Prop :=
  ∀ (i : ℕ) (screen : Screen), w.screens[i]? = some screen →
    ∃ screen', w'.screens[i]? = some screen' ∧ screen'.furniture = screen.furniture ∧
      screen'.session = screen.session

theorem kept_of_eq {w w' : World} (h : w'.screens = w.screens) : Kept w w' :=
  fun _ screen hget => ⟨screen, h ▸ hget, rfl, rfl⟩

theorem kept_of_set {w w' : World} {j : ℕ} {old new : Screen} (hold : w.screens[j]? = some old)
    (h : w'.screens = w.screens.set j new) (hfurniture : new.furniture = old.furniture)
    (hsession : new.session = old.session) : Kept w w' := by
  intro i screen hget
  by_cases hij : j = i
  · subst hij
    obtain rfl : old = screen := Option.some.inj (hold.symm.trans hget)
    obtain ⟨hlt, -⟩ := List.getElem?_eq_some_iff.mp hget
    exact ⟨new, by rw [h, List.getElem?_set_self hlt], hfurniture, hsession⟩
  · exact ⟨screen, by rw [h, List.getElem?_set_ne hij, hget], rfl, rfl⟩

private theorem kept_withScreen {w : World} {j : ℕ} {f : Screen → World}
    (h : ∀ old, w.screens[j]? = some old → Kept w (f old)) : Kept w (w.withScreen j f) := by
  unfold World.withScreen
  split
  · rename_i old hold
    exact h old hold
  · exact kept_of_eq rfl

theorem kept_perform (w : World) (a : Action) : Kept w (perform w a) := by
  cases a with
  | sendNewTask session =>
      simp only [perform]
      split <;> exact kept_of_eq rfl
  | openScreen session task =>
      simp only [perform]
      split
      · intro i screen hget
        exact ⟨screen, List.getElem?_append_left (List.getElem?_eq_some_iff.mp hget).1 ▸ hget,
          rfl, rfl⟩
      · exact kept_of_eq rfl
  | closeScreen j | build j | isAccepted j | offersEvent j | israted j | rateEvent j =>
      exact kept_withScreen fun old hold => kept_of_set hold rfl rfl rfl
  | pressOffer j | pressAccept j | pressReject j | pressReport j | pressRate j =>
      exact kept_withScreen fun _ _ => kept_of_eq rfl
  | process k input =>
      simp only [perform, World.process]
      split <;> exact kept_of_eq rfl
  | write k =>
      simp only [perform, World.write]
      split <;> exact kept_of_eq rfl
  | signUp | signIn | openNotifications => exact kept_of_eq rfl

end Oun
