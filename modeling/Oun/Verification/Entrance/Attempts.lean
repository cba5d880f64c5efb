import Oun.Model.Entrance

/-! # What the code of an attempt does

One lemma for each way in which the callbacks of an attempt can end. -/

namespace Oun

open Firestore Regex Numeral Future

/-! ## The ID field -/

/-- The ID validator accepts a digit 1 or 2, or a bar, before nine digits. -/
theorem idValidator_eq_none_iff (s : List ℕ) :
    idValidator s = none ↔ ∃ c digits, s = c :: digits ∧ (c = 49 ∨ c = 124 ∨ c = 50) ∧
      digits.length = 9 ∧ ∀ d ∈ digits, isDecimal d := by
  have hfirst : ∀ c : ℕ, ((text ['1', '|', '2']).contains c = true) ↔
      c = 49 ∨ c = 124 ∨ c = 50 := by
    intro c
    simp [text]
  have hpattern : idPattern.hasMatch s = true ↔ ∃ c digits, s = c :: digits ∧
      (c = 49 ∨ c = 124 ∨ c = 50) ∧ digits.length = 9 ∧ ∀ d ∈ digits, isDecimal d := by
    unfold idPattern oneOf
    rw [anchored_hasMatch]
    simp only [inOrder, Pattern.Matches, times_unit_matches, times_digit_matches, hfirst]
    constructor
    · rintro ⟨first, digits, rfl, ⟨hone, hclass⟩, hnine, hdigits⟩
      obtain ⟨c, rfl⟩ := List.length_eq_one_iff.mp hone
      exact ⟨c, digits, rfl, hclass c (by simp), hnine, hdigits⟩
    · rintro ⟨c, digits, rfl, hclass, hnine, hdigits⟩
      exact ⟨[c], digits, rfl, ⟨rfl, by simpa using hclass⟩, hnine, hdigits⟩
  rw [← hpattern, idValidator, check_eq_none_iff, check_eq_none_iff]
  constructor
  · rintro ⟨-, hmatch, -⟩
    simpa using hmatch
  · intro h
    obtain ⟨c, digits, rfl, -, hnine, -⟩ := hpattern.mp h
    simp [h, hnine]

/-- `int.parse` takes an accepted ID exactly if it does not begin with a bar. -/
theorem parse_isSome_iff {s : List ℕ} (h : idValidator s = none) :
    (parse s).isSome = true ↔ s.head? ≠ some 124 := by
  obtain ⟨c, digits, rfl, hc, hnine, hdigits⟩ := (idValidator_eq_none_iff s).mp h
  by_cases hbar : c = 124
  · subst hbar
    have hblank : ∀ d ∈ 124 :: digits, isBlank d = false :=
      List.forall_mem_cons.mpr ⟨by decide, fun d hd => isBlank_of_decimal (hdigits d hd)⟩
    have hnone : parse (124 :: digits) = none := by
      rw [parse, trim_of_notBlank hblank]
      simp only [positive, unsigned, spelled_of_not_digit (c := 124) rfl, Option.map_none]
    simp [hnone]
  · obtain ⟨n, hn, -, -, hbound⟩ := numeral_of_decimal (c := c) (by omega) hdigits
    have hlt : n < 2 ^ 63 := by
      rw [hnine] at hbound
      omega
    simp [parse_of_decimal (by omega) hdigits hn hlt, hbar]

/-- What SIGN UP stores for some texts of the form. -/
def User.Typed (user : User) : Prop :=
  ∃ (fields : Fields) (id : ℤ), parse fields.id = some id ∧ fields.user id = user

/-! ## The callbacks -/

variable (s : Scope) (email password : Text)

theorem navigateHome_state :
    (navigateHome s).2 = { s with
      attempt.home := s.attempt.home || s.attempt.mounted, attempt.mounted := false } := by
  obtain ⟨services, phone, ⟨_, _, mounted, _, _, _⟩⟩ := s
  cases mounted <;> simp [navigateHome]

/-- A dialog leaves behind that it has been shown, if at all. -/
theorem showAlertDialog_state (alert : Alert) :
    ∃ shown, (showAlertDialog alert s).2 = { s with attempt.alert := shown } := by
  unfold showAlertDialog
  split
  · exact ⟨_, rfl⟩
  · exact ⟨s.attempt.alert, rfl⟩

/-- A sign-up until it creates a user: what it has fetched, a dialog or its next question. -/
theorem signup_keeps_of {P : Scope → Prop}
    (hfetched : ∀ s taken, P s → P { s with phone.emailtaken := taken })
    (halert : ∀ s shown, P s → P { s with attempt.alert := shown })
    (hasks : ∀ s : Scope, P s → P { s with
      attempt.stage := .creatingUser (trim s.phone.fields.email) (trim s.phone.fields.password) })
    (answer : Except Error (List (Doc User))) : (signup answer).Keeps P := by
  refine .onError (.andThen (.andThen (Chain.keeps_completed _ _) ?_) ?_)
    fun _ => Chain.keeps_completed _ _
  · exact fun ud s hs => hfetched s _ hs
  · intro _ s hs
    dsimp only
    split
    · exact hasks s hs
    · obtain ⟨shown, hshown⟩ := showAlertDialog_state s (.text "Email is Already Taken!")
      rw [hshown]
      exact halert s shown hs

/-- Until it creates a user, a sign-up leaves the services alone and enters nothing. -/
theorem signup_keeps (services : Services) (signedIn : Option Uid) (home : Bool)
    (answer : Except Error (List (Doc User))) :
    (signup answer).Keeps fun s =>
      s.services = services ∧ s.attempt.signedIn = signedIn ∧ s.attempt.home = home :=
  signup_keeps_of (fun _ _ hs => hs) (fun _ _ hs => hs) (fun _ hs => hs) answer

/-- It leaves the texts of the form alone, and what it asks for next it reads off them. -/
theorem signup_keepsForm (fields : Fields) (phone : ℕ) (answer : Except Error (List (Doc User))) :
    (signup answer).Keeps fun s =>
      s.phone.fields = fields ∧ s.attempt.phone = phone ∧ (s.attempt.stage = .ended ∨
        s.attempt.stage = .creatingUser (trim fields.email) (trim fields.password)) := by
  refine signup_keeps_of (fun _ _ hs => hs) (fun _ _ hs => hs) ?_ answer
  intro s hs
  exact ⟨hs.1, hs.2.1, .inr (by rw [hs.1])⟩

theorem createUser_ok (uid : Uid) :
    createUser email password (.ok uid) s = (.ok uid, { s with
      services.accounts := ⟨uid, email, password⟩ :: s.services.accounts
      attempt.signedIn := some uid }) := rfl

/-- The user is created and the ID is a number: the document is on its way. -/
theorem signupCreated_stored (uid : Uid) {id : ℤ} (hid : parse s.phone.fields.id = some id) :
    (signupCreated email password (.ok uid) s).2 = { s with
      services.accounts := ⟨uid, email, password⟩ :: s.services.accounts
      services.writing := s.services.writing ++ [⟨uid, s.phone.fields.user id⟩]
      attempt.signedIn := some uid
      attempt.home := s.attempt.home || s.attempt.mounted
      attempt.mounted := false } := by
  unfold signupCreated
  have hstored : ((createUser email password (.ok uid)).andThen storeUser) s = (.ok (), { s with
      services.accounts := ⟨uid, email, password⟩ :: s.services.accounts
      services.writing := s.services.writing ++ [⟨uid, s.phone.fields.user id⟩]
      attempt.signedIn := some uid }) := by
    rw [Chain.andThen_of_ok (createUser_ok ..)]
    simp only [storeUser, hid]
  rw [Chain.whenComplete_state, navigateHome_state, Chain.onError_of_ok hstored]

/-- The user is created, the ID is no number: the handler catches what `int.parse` throws,
and the app is entered without a document. -/
theorem signupCreated_malformed (uid : Uid) (hid : parse s.phone.fields.id = none) :
    ∃ alert, (signupCreated email password (.ok uid) s).2 = { s with
      services.accounts := ⟨uid, email, password⟩ :: s.services.accounts
      attempt.signedIn := some uid
      attempt.home := s.attempt.home || s.attempt.mounted
      attempt.mounted := false
      attempt.alert := alert } := by
  unfold signupCreated
  have hthrown : ((createUser email password (.ok uid)).andThen storeUser) s =
      (.error (.format s.phone.fields.id), (createUser email password (.ok uid) s).2) := by
    rw [Chain.andThen_of_ok (createUser_ok ..)]
    simp only [storeUser, hid, createUser_ok]
  rw [Chain.whenComplete_state, navigateHome_state, Chain.onError_of_error hthrown]
  obtain ⟨alert, halert⟩ := showAlertDialog_state (createUser email password (.ok uid) s).2
    (.error (.format s.phone.fields.id))
  exact ⟨alert, by rw [halert, createUser_ok]⟩

/-- No user is created: the app is entered all the same. -/
theorem signupCreated_failed (e : Error) :
    ∃ alert, (signupCreated email password (.error e) s).2 = { s with
      attempt.home := s.attempt.home || s.attempt.mounted
      attempt.mounted := false
      attempt.alert := alert } := by
  unfold signupCreated
  have hpassed : ((createUser email password (.error e)).andThen storeUser) s =
      (.error e, s) := rfl
  rw [Chain.whenComplete_state, navigateHome_state, Chain.onError_of_error hpassed]
  obtain ⟨alert, halert⟩ := showAlertDialog_state s (.error e)
  exact ⟨alert, by rw [halert]⟩

/-- A login that succeeds enters the app as the user it has signed in. -/
theorem login_ok (uid : Uid) :
    (login (.ok uid) s).2 = { s with
      attempt.signedIn := some uid
      attempt.home := s.attempt.home || s.attempt.mounted
      attempt.mounted := false } := by
  obtain ⟨services, phone, ⟨_, _, mounted, _, _, _⟩⟩ := s
  cases mounted <;>
    simp [login, signIn, navigateHome, Chain.andThen, Chain.onError, Chain.completed]

/-- A login that fails stays where it is. -/
theorem login_error (e : Error) :
    ∃ alert, (login (.error e) s).2 = { s with attempt.alert := alert } := by
  obtain ⟨services, phone, ⟨_, _, mounted, _, _, alert⟩⟩ := s
  cases mounted with
  | false =>
      refine ⟨alert, ?_⟩
      simp [login, signIn, showAlertDialog, Chain.andThen, Chain.onError, Chain.completed]
  | true =>
      refine ⟨some (.error e), ?_⟩
      simp [login, signIn, showAlertDialog, Chain.andThen, Chain.onError, Chain.completed]

/-- An answer changes the services only by creating a user. -/
theorem services_resume (stage : Stage) (result : Answer) :
    (stage.resume result s).2.services = s.services ∨ ∃ email password uid,
      stage = .creatingUser email password ∧ result = .user (.ok uid) ∧
        (stage.resume result s).2.services = { s.services with
          accounts := ⟨uid, email, password⟩ :: s.services.accounts
          writing := s.services.writing ++ ((parse s.phone.fields.id).map fun id =>
            ⟨uid, s.phone.fields.user id⟩).toList } := by
  cases stage with
  | ended => exact .inl rfl
  | fetchingEmail email =>
      cases result with
      | user answer => exact .inl rfl
      | documents answer =>
          have hkeeps := signup_keeps s.services s.attempt.signedIn s.attempt.home answer s
            ⟨rfl, rfl, rfl⟩
          exact .inl hkeeps.1
  | signingIn email password =>
      rcases result with answer | (e | uid)
      · exact .inl rfl
      · obtain ⟨alert, hstate⟩ := login_error s e
        exact .inl (by simp only [Stage.resume, hstate])
      · exact .inl (by simp only [Stage.resume, login_ok])
  | creatingUser email password =>
      rcases result with answer | (e | uid)
      · exact .inl rfl
      · obtain ⟨alert, hstate⟩ := signupCreated_failed s email password e
        exact .inl (by simp only [Stage.resume, hstate])
      · refine .inr ⟨email, password, uid, rfl, rfl, ?_⟩
        cases hid : parse s.phone.fields.id with
        | none =>
            obtain ⟨alert, hstate⟩ := signupCreated_malformed s email password uid hid
            simp [Stage.resume, hstate]
        | some id => simp [Stage.resume, signupCreated_stored s email password uid hid]

end Oun
