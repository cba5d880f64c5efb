import Oun.Verification.Entrance.Identity
import Oun.Verification.Roles.Acting
import Oun.Verification.Whole.Agreement

/-! # Everybody has an account

No uid comes into the app but by a sign-up, and none gets anywhere but by a sign-in. -/

namespace Oun

open Firestore Regex Numeral Future Transition

/-! ## Accounts -/

def Services.HasAccount (services : Services) (uid : Uid) : Prop :=
  ∃ account ∈ services.accounts, account.uid = uid

section Runs

variable {address : Addressing}

/-- Whoever is signed in has an account then. -/
theorem hasAccount_of_signIn {w : Entrance} {event : Entrance.Event}
    (henabled : event.Enabled address w) {session : SessionId} {uid : Uid}
    (h : Entrance.Event.moves w event = some (.signIn session uid)) :
    (w.perform event).services.HasAccount uid := by
  rcases moves_cases h with ⟨d, -, heq⟩ | ⟨i, p, attempt, rfl, hi, heq⟩
  · cases heq
  · have hkeep := accounts_perform henabled
    obtain ⟨-, rfl⟩ := Action.signIn.inj heq
    obtain ⟨attempt', hi', hanswered⟩ := henabled
    obtain rfl := Option.some.inj (hi.symm.trans hi')
    have hperform : w.perform (.answer i (.user (.ok uid))) = w.put i attempt.phone
        (attempt.stage.resume (.user (.ok uid)) (w.scope attempt)).2 := by
      simp only [Entrance.perform, hi]
    cases hstage : attempt.stage with
    | creatingUser email password =>
        refine ⟨⟨uid, email, password⟩, ?_, rfl⟩
        rw [hperform, hstage]
        cases hid : parse (w.scope attempt).phone.fields.id with
        | none =>
            obtain ⟨alert, hstate⟩ :=
              signupCreated_malformed (w.scope attempt) email password uid hid
            simp [Entrance.put, Stage.resume, hstate]
        | some id =>
            simp [Entrance.put, Stage.resume,
              signupCreated_stored (w.scope attempt) email password uid hid]
    | signingIn email password =>
        rw [hstage] at hanswered
        obtain ⟨account, haccount, huid, -⟩ := hanswered
        exact ⟨account, hkeep haccount, huid⟩
    | _ => simp [hstage, Stage.Answered] at hanswered

theorem Services.HasAccount.perform {w : Entrance} {event : Entrance.Event} {uid : Uid}
    (h : w.services.HasAccount uid) (henabled : event.Enabled address w) :
    (w.perform event).services.HasAccount uid := by
  obtain ⟨account, haccount, huid⟩ := h
  exact ⟨account, accounts_perform henabled haccount, huid⟩

variable {trace : List ((Entrance × World) × (Entrance.Event ⊕ Action))} {u : Entrance × World}
  (run : Run (oun address) (oun address).init trace u) (h : Meets Uninterrupted trace)
include run h

theorem hasAccount_of_acts : ∀ uid, u.2.Acts uid → u.1.services.HasAccount uid := by
  refine run.invariant_init
    (I := fun u => ∀ uid, u.2.Acts uid → u.1.services.HasAccount uid) h ?_ ?_
  · simp [World.Acts, oun, System.drives, app, World.init]
  · intro v c hreach hv henabled hC uid hacts
    have hfollows := (follows_iff hreach henabled).mpr hC
    cases c with
    | inr a =>
        obtain ⟨hown, ha⟩ := henabled
        rcases acts_perform ha hacts with hacts | ⟨session, rfl⟩
        · exact hv uid hacts
        · exact hown.elim
    | inl event =>
        cases hmoves : Entrance.Event.moves v.1 event with
        | none =>
            have hsame : ((oun address).perform v (.inl event)).2 = v.2 := by
              simp [oun, System.drives, hmoves]
            exact (hv uid (hsame ▸ hacts)).perform henabled
        | some a =>
            have hnext : ((oun address).perform v (.inl event)).2 = perform v.2 a := by
              simp only [oun, System.drives, hmoves]
              rfl
            rw [hnext] at hacts
            rcases acts_perform (hfollows a hmoves) hacts with hacts | ⟨session, rfl⟩
            · exact (hv uid hacts).perform henabled
            · exact hasAccount_of_signIn henabled hmoves

/-- Everybody who is signed in, looks at a screen, has a handler, has ever written or is
mentioned in a document of whatever collection has an account. -/
theorem members (uid : Uid) (hmember : u.2.Acts uid ∨ u.2.store.Mentions uid) :
    u.1.services.HasAccount uid := by
  have hu : Reachable (oun address) u := ⟨trace, run⟩
  have hacts := hasAccount_of_acts run h uid
  rcases hmember with hmember | hmember
  · exact hacts hmember
  · refine (acts_of_mentions (reachable_app run h) hmember).elim hacts fun huser => ?_
    have hsame := congrArg Option.isSome (agree hu uid)
    rw [Option.isSome_map, Option.isSome_map, huser, eq_comm] at hsame
    obtain ⟨user, hstored⟩ := Option.isSome_iff_exists.mp hsame
    exact (reachable_consistent hu.driving).services.owned uid
      (List.mem_map_of_mem (List.mem_append_left _ (Services.mem_of_user hstored)))

end Runs

/-- The provider of the stored offer and the reader on the third phone have accounts. -/
theorem members_together :
    let u := Scenario.whole.final Scenario.whole.init Scenario.together
    u.1.services.HasAccount 2 ∧ u.1.services.HasAccount 1 := by
  have run := Scenario.whole.run_steps Scenario.whole.init Scenario.together (by decide +kernel)
  have hmember := members run (by decide +kernel)
  exact ⟨hmember 2 (.inr (.provider (d := Scenario.offer 0 2 Scenario.sixty) (by decide +kernel))),
    hmember 1 (.inl (.inl ⟨1, by decide +kernel⟩))⟩

end Oun
