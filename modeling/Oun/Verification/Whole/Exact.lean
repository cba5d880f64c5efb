import Mathlib.Tactic.TFAE
import Oun.Verification.Whole.Arrival
import Oun.Verification.Whole.Members
import Oun.Verification.Whole.Shown

/-! # What the entrance lets in

The screens alone take any user who signs in and any document in `users`. What the entrance brings
about is all of this but for one thing: a document is of somebody who has been signed in before,
and holds what a form can hold. -/

namespace Oun

open Firestore Regex Numeral Future Transition

/-- Who has been signed in. -/
def joins (joined : List Uid) : Action → List Uid
  | .signIn _ uid => uid :: joined
  | _ => joined

/-- A document is stored for somebody who has been signed in, and as `typed` says. -/
def Action.Joins (typed : Uid → User → Prop) (joined : List Uid) : Action → Prop
  | .signUp uid user => uid ∈ joined ∧ typed uid user
  | _ => True

/-- The screens, where no other documents are stored. -/
def joining (typed : Uid → User → Prop) : System (World × List Uid) Action where
  init := (app.init, [])
  Enabled m a := Enabled m.1 a ∧ a.Joins typed m.2
  perform m a := (perform m.1 a, joins m.2 a)

/-! ## The entrance does nothing else -/

/-- What the entrance stores is as `typed` says. -/
def Stores (typed : Uid → User → Prop) (u : Entrance × World) (c : Entrance.Event ⊕ Action) :
    Prop :=
  ∀ uid user, driven Entrance.Event.moves u c = some (.signUp uid user) → typed uid user

/-- Who has been signed in is who has an account. -/
structure Enrolled (u : Entrance × World) (m : World × List Uid) : Prop where
  world : u.2 = m.1
  accounts : ∀ uid, uid ∈ m.2 ↔ u.1.services.HasAccount uid

section Addresses

variable {address : Addressing}

/-- An account comes with a sign-in. -/
theorem hasAccount_perform {w : Entrance} {event : Entrance.Event}
    (henabled : event.Enabled address w) (uid : Uid) :
    (w.perform event).services.HasAccount uid ↔ w.services.HasAccount uid ∨
      ∃ phone, event.moves w = some (.signIn phone uid) := by
  constructor
  · cases event with
    | type | signUp | login | back => exact .inl
    | wrote d ok => cases ok <;> exact .inl
    | answer i result =>
        obtain ⟨attempt, hi, -⟩ := henabled
        have hi : w.attempts[i]? = some attempt := hi
        simp only [Entrance.perform, hi, Entrance.put]
        rcases services_resume (w.scope attempt) attempt.stage result with
          hsame | ⟨email, password, p, -, rfl, hcreated⟩
        · rw [hsame]
          exact .inl
        · rw [hcreated]
          rintro ⟨account, haccount, rfl⟩
          rcases List.mem_cons.mp haccount with rfl | haccount
          · exact .inr ⟨attempt.phone, by simp [Entrance.Event.moves, hi]⟩
          · exact .inl ⟨account, haccount, rfl⟩
  · rintro (h | ⟨phone, hmoves⟩)
    · exact h.perform henabled
    · exact hasAccount_of_signIn henabled hmoves

theorem Action.isOwn.joins {a : Action} (h : a.isOwn) (typed : Uid → User → Prop)
    (joined : List Uid) : a.Joins typed joined ∧ joins joined a = joined := by
  cases a with
  | signUp | signIn => exact h.elim
  | _ => exact ⟨trivial, rfl⟩

theorem oun_joins (typed : Uid → User → Prop) :
    Simulates (oun address) (joining typed) (fun u c => Uninterrupted u c ∧ Stores typed u c)
      (driven Entrance.Event.moves) Enrolled where
  init := ⟨rfl, by simp [joining, oun, System.drives, entrance, Entrance.init, Services.HasAccount]⟩
  stutter {u c m} _ hrep henabled _ hlabel := by
    cases c with
    | inr a => cases hlabel
    | inl event =>
        have hmoves : event.moves u.1 = none := hlabel
        refine ⟨?_, fun uid => ?_⟩
        · rw [← hrep.world]
          simp [oun, System.drives, hmoves]
        · show uid ∈ m.2 ↔ (u.1.perform event).services.HasAccount uid
          rw [hasAccount_perform henabled, hmoves, hrep.accounts]
          simp
  step {u c m a} hu hrep henabled hC hlabel := by
    cases c with
    | inr b =>
        obtain rfl := Option.some.inj hlabel
        obtain ⟨hown, hb⟩ := henabled
        obtain ⟨hjoins, hsame⟩ := hown.joins typed m.2
        refine ⟨⟨hrep.world ▸ hb, hjoins⟩, congrArg (perform · b) hrep.world, fun uid => ?_⟩
        show uid ∈ joins m.2 b ↔ _
        rw [hsame]
        exact hrep.accounts uid
    | inl event =>
        have hmoves : event.moves u.1 = some a := hlabel
        have hnext : ((oun address).perform u (.inl event)).2 = perform u.2 a := by
          simp only [oun, System.drives, hmoves]
          rfl
        have hfollows : Enabled u.2 a := (follows_iff hu henabled).mpr hC.1 a hmoves
        rw [hrep.world] at hfollows hnext
        refine ⟨⟨hfollows, ?_⟩, hnext, fun uid => ?_⟩
        · rcases moves_cases hmoves with ⟨d, rfl, rfl⟩ | ⟨i, uid, attempt, -, -, rfl⟩
          · refine ⟨(hrep.accounts d.id).mpr ?_, hC.2 _ _ hlabel⟩
            exact (reachable_consistent hu.driving).services.owned d.id
              (List.mem_map_of_mem (List.mem_append_right _ henabled))
          · trivial
        · show uid ∈ joins m.2 a ↔ (u.1.perform event).services.HasAccount uid
          rw [hasAccount_perform henabled, hmoves, ← hrep.accounts]
          rcases moves_cases hmoves with ⟨d, -, rfl⟩ | ⟨i, p, attempt, -, -, rfl⟩
          · simp [joins]
          · simp [joins, or_comm, eq_comm]

/-! ## And it does all of this -/

/-- No sign-in interrupts, every account gets its document and no address a second account. -/
def Flawless (address : Addressing) (u : Entrance × World) (c : Entrance.Event ⊕ Action) : Prop :=
  Uninterrupted u c ∧ ∀ event, c = .inl event → event.Flawless address u.1

/-- Every account can be logged in to, and its document is on its way unless the user is stored. -/
structure Ready (profile : Uid → User) (services : Services) (w : World) : Prop where
  logins : ∀ account ∈ services.accounts, account.Trimmed
  writing : ∀ uid, services.HasAccount uid → w.store.users uid = none →
    ⟨uid, profile uid⟩ ∈ services.writing

/-- With an account its document comes on its way. -/
theorem Ready.create {profile : Uid → User} {services : Services} {w : World}
    (h : Ready profile services w) {account : Account} (hlogin : account.Trimmed) :
    Ready profile { services with
      accounts := account :: services.accounts
      writing := services.writing ++ [⟨account.uid, profile account.uid⟩] } w where
  logins := List.forall_mem_cons.mpr ⟨hlogin, h.logins⟩
  writing uid haccount hnone := by
    obtain ⟨other, hmem, rfl⟩ := haccount
    rcases List.mem_cons.mp hmem with rfl | hmem
    · exact List.mem_append_right _ (List.mem_singleton_self _)
    · exact List.mem_append_left _ (h.writing _ ⟨other, hmem, rfl⟩ hnone)

/-- A run that brings the action along and leaves the rest ready. -/
def Performs (address : Addressing) (profile : Uid → User) (u : Entrance × World) (a : Action) :
    Prop :=
  ∃ next u', Run (oun address) u next u' ∧
    Meets (fun v c => Flawless address v c ∧ Stores (fun uid user => user = profile uid) v c)
      next ∧
    labels (driven Entrance.Event.moves) next = [a] ∧ Ready profile u'.1.services u'.2

section Steps

variable {profile : Uid → User} {u : Entrance × World}

theorem performs_own (h : Ready profile u.1.services u.2) {a : Action} (hown : a.isOwn)
    (henabled : Enabled u.2 a) : Performs address profile u a := by
  have hne : ∀ uid user, a ≠ .signUp uid user := by
    rintro uid user rfl
    exact hown
  have hstep : (oun address).Enabled u (.inr a) := ⟨hown, henabled⟩
  refine ⟨_, _, Run.single hstep, (meets_singleton _ _ _).mpr ⟨⟨trivial, nofun⟩, ?_⟩, rfl,
    h.logins, fun uid haccount hnone => h.writing uid haccount ?_⟩
  · intro uid user hlabel
    exact absurd (Option.some.inj hlabel) (hne uid user)
  · have hsame := unrated_perform henabled hne uid
    rw [show (perform u.2 a).store.users uid = none from hnone, Option.map_none, eq_comm,
      Option.map_eq_none_iff] at hsame
    exact hsame

theorem performs_signUp (h : Ready profile u.1.services u.2) {uid : Uid}
    (haccount : u.1.services.HasAccount uid) (hnone : u.2.store.users uid = none) :
    Performs address profile u (.signUp uid (profile uid)) := by
  have hd := h.writing uid haccount hnone
  have hstep : (oun address).Enabled u (.inl (.wrote ⟨uid, profile uid⟩ true)) := hd
  refine ⟨_, _, Run.single hstep, (meets_singleton _ _ _).mpr ⟨⟨?_, ?_⟩, ?_⟩, rfl,
    h.logins, fun p hp hpnone => ?_⟩
  · exact nofun
  · rintro event heq
    obtain rfl := Sum.inl.inj heq
    exact ⟨rfl, trivial⟩
  · rintro p user hlabel
    obtain ⟨rfl, rfl⟩ := Action.signUp.inj (Option.some.inj hlabel)
    rfl
  · have hpnone : (perform u.2 (.signUp uid (profile uid))).store.users p = none := hpnone
    have hne : p ≠ uid := by
      rintro rfl
      simp [perform, World.signUp] at hpnone
    have hmem := h.writing p hp (by simpa [perform, World.signUp, hne] using hpnone)
    exact (List.mem_erase_of_ne fun heq => hne (congrArg Doc.id heq)).mpr hmem

theorem meets_silent {front : List (Entrance × Entrance.Event)}
    (hflawless : Meets (fun v event => event.Flawless address v) front)
    (hsilent : labels Entrance.Event.moves front = []) (typed : Uid → User → Prop) (w : World) :
    Meets (fun v c => Flawless address v c ∧ Stores typed v c)
      (front.map fun step => ((step.1, w), .inl step.2)) := by
  intro step hmem
  obtain ⟨⟨v, event⟩, hfront, rfl⟩ := List.mem_map.mp hmem
  have hnone : event.moves v = none := List.filterMap_eq_nil_iff.mp hsilent _ hfront
  refine ⟨⟨?_, ?_⟩, ?_⟩
  · simp [Uninterrupted, Entrance.Event.signsInOn, hnone]
  · rintro event' heq
    obtain rfl := Sum.inl.inj heq
    exact hflawless _ hfront
  · simp [Stores, driven, hnone]

/-- An attempt that waits for a sign-in is answered. -/
theorem Asks.performs {w' : Entrance} {phone : ℕ} {stage : Stage} {uid : Uid}
    (h : Asks address u.1 phone stage w')
    (hanswered : stage.Answered address u.1.services (.user (.ok uid)))
    (hunused : stage.Unused address u.1.services) (henabled : Enabled u.2 (.signIn phone uid))
    (hsmooth : ∀ attempt : Attempt, attempt.phone = phone → attempt.stage = stage →
      attempt.Smooth w' (.user (.ok uid)))
    (hready : ∀ attempt : Attempt, attempt.phone = phone → Ready profile
      (stage.resume (.user (.ok uid)) (w'.scope attempt)).2.services u.2) :
    Performs address profile u (.signIn phone uid) := by
  obtain ⟨front, run, hflawless, hsilent⟩ := h.run
  obtain ⟨i, attempt, hi, rfl, rfl⟩ := h.waits
  rw [← h.services] at hanswered hunused
  have hmoves : (Entrance.Event.answer i (.user (.ok uid))).moves w' =
      some (.signIn attempt.phone uid) := by
    simp [Entrance.Event.moves, hi]
  have hstep : (oun address).Enabled (w', u.2) (.inl (.answer i (.user (.ok uid)))) :=
    ⟨attempt, hi, hanswered⟩
  have hget : ∀ b ∈ w'.attempts[i]?, b = attempt := fun b hb =>
    (Option.some.inj (hi.symm.trans hb)).symm
  refine ⟨_, _, (run.silent hsilent u.2).snoc _ hstep, ?_, ?_, ?_⟩
  · refine (meets_append _ _ _).mpr ⟨meets_silent hflawless hsilent _ u.2,
      (meets_singleton _ _ _).mpr ⟨⟨?_, ?_⟩, ?_⟩⟩
    · intro phone hphone
      obtain ⟨p, hp⟩ := mem_signsInOn.mp hphone
      rw [hmoves, Option.some_inj, Action.signIn.injEq] at hp
      exact hp.1 ▸ henabled
    · rintro event heq
      obtain rfl := Sum.inl.inj heq
      exact ⟨fun b hb => hget b hb ▸ hsmooth attempt rfl rfl, fun b hb => hget b hb ▸ hunused⟩
    · simp [Stores, driven, hmoves]
  · rw [labels_append, labels_silent, hsilent]
    simp [labels, driven, hmoves]
  · have hready := hready attempt rfl
    simp only [System.drives, hmoves, entrance, Entrance.perform, hi]
    exact ⟨hready.logins, hready.writing⟩

/-- Whoever has an account logs in. Everybody else signs up with an address that nobody has, and
the form is that of the profile by the time the account is created. -/
theorem performs_signIn (hapart : address.TellsApart) (h : Ready profile u.1.services u.2)
    (htyped : ∀ uid, (profile uid).Typed)
    {phone : ℕ} {uid : Uid} (henabled : Enabled u.2 (.signIn phone uid)) :
    Performs address profile u (.signIn phone uid) := by
  by_cases haccount : u.1.services.HasAccount uid
  · obtain ⟨⟨_, email, password⟩, hmem, rfl⟩ := haccount
    obtain ⟨hemail, hpassword, htrim, htrim'⟩ := h.logins _ hmem
    obtain ⟨w', hasks⟩ := exists_asks_login u.1 phone hemail hpassword
    rw [htrim, htrim'] at hasks
    refine hasks.performs ⟨_, hmem, rfl, rfl, rfl⟩ trivial henabled
      (fun attempt _ hstage => ?_) fun attempt _ => ?_
    · simp [Attempt.Smooth, hstage]
    · simp only [Stage.resume, login_ok]
      show Ready profile w'.services u.2
      rwa [hasks.services]
  · obtain ⟨fields, id, hid, hprofile⟩ := htyped uid
    obtain ⟨n, hfree⟩ := exists_address hapart (u.1.services.accounts.map Account.email ++
      u.1.services.users.map fun d => d.data.email)
    rw [List.forall_mem_append, List.forall_mem_map, List.forall_mem_map] at hfree
    obtain ⟨w', hasks, hfields⟩ := exists_asks_signUp u.1 phone (letterForm_valid n)
      (fun d hd hemail => hfree.2 d hd (congrArg address hemail)) fields
    have hparse : ∀ attempt : Attempt, attempt.phone = phone →
        parse (w'.phones attempt.phone).fields.id = some id := by
      rintro attempt rfl
      rw [hfields, hid]
    refine hasks.performs (fun account hmem heq => haccount ⟨account, hmem, heq⟩) ?_ henabled
      (fun attempt hphone hstage => ?_) fun attempt hphone => ?_
    · rw [Stage.Unused, show (letterForm n).email = letterAddress n from rfl, letterAddress_trim]
      exact hfree.1
    · simp [Attempt.Smooth, hstage, hparse attempt hphone]
    · rw [Stage.resume, signupCreated_stored (w'.scope attempt) _ _ uid (hparse attempt hphone)]
      have hcreated := h.create (letterForm_trimmed n uid)
      rw [← hprofile, ← hfields, ← hphone, ← hasks.services] at hcreated
      exact hcreated

theorem oun_realizes (hapart : address.TellsApart) (htyped : ∀ uid, (profile uid).Typed) :
    Realizes (oun address) (joining fun uid user => user = profile uid)
      (fun v c => Flawless address v c ∧ Stores (fun uid user => user = profile uid) v c)
      (driven Entrance.Event.moves) Enrolled fun u => Ready profile u.1.services u.2 where
  init := ⟨nofun, fun _ ⟨_, hmem, _⟩ => by cases hmem⟩
  play {trace u m a} _ _ h hrep henabled := by
    obtain ⟨ha, hjoins⟩ := henabled
    rw [← hrep.world] at ha
    cases a with
    | signUp uid user =>
        obtain ⟨hmem, rfl⟩ := hjoins
        exact performs_signUp h ((hrep.accounts uid).mp hmem) (Option.isNone_iff_eq_none.mp ha)
    | signIn phone uid => exact performs_signIn hapart h htyped ha
    | _ => exact performs_own h trivial ha

end Steps

/-! ## One profile for each user -/

/-- The document that has been stored of a user is there, but for the rate. -/
theorem stored_of_signUp {typed : Uid → User → Prop} {steps : List ((World × List Uid) × Action)}
    {m : World × List Uid} (run : Run (joining typed) (joining typed).init steps m) {uid : Uid}
    {user : User} (h : .signUp uid user ∈ steps.map Prod.snd) :
    (m.1.store.users uid).map User.unrated = some user.unrated ∧ typed uid user := by
  induction run with
  | nil => cases h
  | @snoc steps n a run enabled ih =>
      obtain ⟨ha, hjoins⟩ := enabled
      rw [List.map_append, List.mem_append, List.map_singleton, List.mem_singleton] at h
      rcases h with h | rfl
      · obtain ⟨hstored, htyped⟩ := ih h
        refine ⟨?_, htyped⟩
        rw [← hstored]
        by_cases hsigns : ∃ p other, a = .signUp p other
        · obtain ⟨p, other, rfl⟩ := hsigns
          have hne : uid ≠ p := by
            rintro rfl
            simp [Option.isNone_iff_eq_none.mp ha] at hstored
          simp [joining, perform, World.signUp, hne]
        · exact unrated_perform ha (fun p other heq => hsigns ⟨p, other, heq⟩) uid
      · exact ⟨by simp [joining, perform, World.signUp], hjoins.2⟩

theorem User.Typed.unrated {user : User} (h : user.Typed) : user.unrated = user := by
  obtain ⟨fields, id, -, rfl⟩ := h
  rfl

/-- A run that stores typed documents stores one document for each user. -/
theorem exists_profile {steps : List ((World × List Uid) × Action)} {m : World × List Uid}
    (run : Run (joining fun _ => User.Typed) (joining fun _ => User.Typed).init steps m) :
    ∃ profile : Uid → User, (∀ uid, (profile uid).Typed) ∧
      ∀ uid user, .signUp uid user ∈ steps.map Prod.snd → user = profile uid := by
  have hone : ∀ uid, ∃ profile : User, profile.Typed ∧
      ∀ user, .signUp uid user ∈ steps.map Prod.snd → user = profile := by
    intro uid
    by_cases hsigns : ∃ user, .signUp uid user ∈ steps.map Prod.snd
    · obtain ⟨user, huser⟩ := hsigns
      obtain ⟨hstored, htyped⟩ := stored_of_signUp run huser
      refine ⟨user, htyped, fun other hother => ?_⟩
      obtain ⟨hstored', htyped'⟩ := stored_of_signUp run hother
      rw [← htyped.unrated, ← htyped'.unrated]
      exact Option.some.inj (hstored'.symm.trans hstored)
    · refine ⟨(Scenario.form '1').user 1123456789, ⟨Scenario.form '1', _, by decide, rfl⟩, ?_⟩
      exact fun user huser => absurd ⟨user, huser⟩ hsigns
  choose profile htyped hprofile using hone
  exact ⟨profile, htyped, hprofile⟩

/-- The documents that are stored decide whether a run is one of documents of this kind. -/
theorem joining_congr {typed typed' : Uid → User → Prop}
    {steps : List ((World × List Uid) × Action)} {m : World × List Uid}
    (run : Run (joining typed) (joining typed).init steps m)
    (h : ∀ uid user, .signUp uid user ∈ steps.map Prod.snd → typed' uid user) :
    Run (joining typed') (joining typed').init steps m := by
  induction run with
  | nil => exact .nil
  | @snoc steps n a run enabled ih =>
      rw [List.map_append] at h
      have hrun := ih fun uid user hmem => h uid user (List.mem_append_left _ hmem)
      refine hrun.snoc a ⟨enabled.1, ?_⟩
      cases a with
      | signUp uid user =>
          exact ⟨enabled.2.1, h uid user (List.mem_append_right _ (List.mem_singleton_self _))⟩
      | _ => trivial

/-! ## Exactness -/

theorem typed_documents {w : Entrance} (hw : Reachable (entrance address) w) :
    ∀ d ∈ w.services.documents, d.data.Typed := by
  refine hw.invariant (I := fun w => ∀ d ∈ w.services.documents, d.data.Typed) nofun ?_
  intro v event _ hv henabled d hd
  rcases documents_perform henabled hd with hd | ⟨i, attempt, -, -, id, -, -, -, hid, hdata⟩
  · exact hv d hd
  · exact ⟨_, id, hid, hdata.symm⟩

theorem stores_typed {u : Entrance × World} {c : Entrance.Event ⊕ Action}
    (hu : Reachable (oun address) u) (henabled : (oun address).Enabled u c) :
    Stores (fun _ => User.Typed) u c := by
  intro uid user hlabel
  cases c with
  | inr a =>
      obtain rfl := Option.some.inj hlabel
      exact henabled.1.elim
  | inl event =>
      rcases moves_cases hlabel with ⟨d, rfl, heq⟩ | ⟨i, p, attempt, -, -, heq⟩
      · obtain ⟨rfl, rfl⟩ := Action.signUp.inj heq
        exact typed_documents hu.driving d (List.mem_append_right _ henabled)
      · cases heq

/-- Every run that stores typed documents of those who have been signed in has its entrance. -/
theorem exists_flawless (hapart : address.TellsApart)
    {steps : List ((World × List Uid) × Action)} {m : World × List Uid}
    (run : Run (joining fun _ => User.Typed) (joining fun _ => User.Typed).init steps m) :
    ∃ trace u, Run (oun address) (oun address).init trace u ∧ Meets (Flawless address) trace ∧
      labels (driven Entrance.Event.moves) trace = steps.map Prod.snd := by
  obtain ⟨profile, htyped, hprofile⟩ := exists_profile run
  have hsimulates : Simulates (oun address) (joining fun uid user => user = profile uid)
      (fun v c => Flawless address v c ∧ Stores (fun uid user => user = profile uid) v c)
      (driven Entrance.Event.moves) Enrolled :=
    (oun_joins _).mono fun _ _ h => ⟨h.1.1, h.2⟩
  obtain ⟨trace, u, hrun, hmeets, hlabels, -⟩ :=
    (oun_realizes hapart htyped).run hsimulates (joining_congr run hprofile)
  exact ⟨trace, u, hrun, fun step hstep => (hmeets step hstep).1, hlabels⟩

end Addresses

namespace Scenario

theorem lowerCase_tellsApart : lowerCase.TellsApart := by
  have hsame : ∀ email, Small email → lowerCase email = email := fun email h =>
    (List.map_congr_left fun u hu => if_neg (h u hu).2).trans (List.map_id' email)
  intro email h email' h' heq
  rwa [hsame email h, hsame email' h'] at heq

def capitalForm : Fields :=
  { form '2' with email := capitalAddress }

/-- The first document is lost, and the service gives the address a second account. -/
def again : List (Entrance.Event ⊕ Action) :=
  (signedUp 0 0 '1' (.ok 1)).map .inl ++
    [.inl (.wrote ⟨1, (form '1').user 1123456789⟩ false),
      .inl (.type 1 capitalForm), .inl (.signUp 1), .inl (.answer 1 (.documents (.ok []))),
      .inl (.answer 1 (.user (.ok 2))), .inl (.wrote ⟨2, capitalForm.user 2123456789⟩ true),
      .inr (.sendNewTask 1 title title .riyadh .maintenance), .inr (.write 0)]

end Scenario

end Oun
