import Oun.Verification.Entrance.Complete

/-! # One address and one password

The form is checked as it is typed, registered trimmed, stored as it is typed again, and the
login form trims what is typed there. -/

namespace Oun

open Firestore Regex Numeral Future

/-! ## What becomes of the texts -/

/-- The press adds an attempt that waits in this stage. -/
def Entrance.Event.Starts (event : Entrance.Event) (w : Entrance) (stage : Stage) : Prop :=
  ∃ attempt, (w.perform event).attempts = w.attempts ++ [attempt] ∧ attempt.stage = stage

/-- SIGN UP looks the email up. -/
def Fields.LooksUp (f : Fields) (email : Text) : Prop :=
  ∀ w phone, (w.phones phone).fields = f →
    (Entrance.Event.signUp phone).Starts w (.fetchingEmail email)

/-- An email that is not taken is registered with the password. -/
def Fields.Registers (f : Fields) (email password : Text) : Prop :=
  ∀ scope : Scope, scope.phone.fields = f →
    (signup (.ok []) scope).2.attempt.stage = .creatingUser email password

/-- The login form presents the email and the password. -/
def Presents (typed email typedPassword password : Text) : Prop :=
  ∀ w phone, (Entrance.Event.login phone typed typedPassword).Starts w (.signingIn email password)

theorem Fields.looksUp (f : Fields) : f.LooksUp f.email := by
  rintro w phone rfl
  exact ⟨_, rfl, rfl⟩

theorem Fields.registers (f : Fields) : f.Registers (trim f.email) (trim f.password) := by
  rintro scope rfl
  rfl

theorem Fields.Registers.unique {f : Fields} {email password email' password' : Text}
    (h : f.Registers email password) (h' : f.Registers email' password') :
    email = email' ∧ password = password' := by
  let scope : Scope := ⟨⟨[], [], []⟩, ⟨f, none⟩, { phone := 0, stage := .ended }⟩
  exact Stage.creatingUser.inj ((h scope rfl).symm.trans (h' scope rfl))

theorem presents {email password : List ℕ} (hemail : email ≠ []) (hpassword : password ≠ []) :
    Presents email (trim email) password (trim password) := by
  intro w phone
  refine ⟨_, rfl, ?_⟩
  simp [hemail, hpassword]

/-! ## The password -/

/-- The password that is registered is long enough, is the one that is stored, and is presented
for the same text. -/
def Fields.Protected (f : Fields) : Prop :=
  ∃ email password, f.Registers email password ∧ 8 ≤ password.length ∧
    (∀ id, (f.user id).password = password) ∧
    ∀ typed, typed ≠ [] → Presents typed (trim typed) f.password password

theorem passwordValidator_eq_none_iff (value : Text) :
    passwordValidator value = none ↔ 8 ≤ value.length := by
  rw [passwordValidator, check_eq_none_iff, Nat.not_lt, and_iff_left rfl]

/-- An accepted password is the same everywhere exactly if it neither begins nor ends with
white space. -/
theorem password_protected_iff (f : Fields) (hpassword : passwordValidator f.password = none)
    (_hconfirm : confirmValidator f.password f.confirm = none) :
    f.Protected ↔ (∀ c ∈ f.password.head?, isBlank c = false) ∧
      ∀ c ∈ f.password.getLast?, isBlank c = false := by
  have hlength : 8 ≤ f.password.length := (passwordValidator_eq_none_iff _).mp hpassword
  rw [← trim_eq_self_iff]
  constructor
  · rintro ⟨email, password, hregisters, -, hstored, -⟩
    calc trim f.password = password := (f.registers.unique hregisters).2
      _ = f.password := (hstored 0).symm
  · intro htrim
    refine ⟨trim f.email, f.password, ?_, hlength, fun _ => rfl, ?_⟩
    · have hregisters := f.registers
      rwa [htrim] at hregisters
    · intro typed htyped
      have hne : f.password ≠ [] := by
        intro hnil
        simp [hnil] at hlength
      have hpresents := presents htyped hne
      rwa [htrim] at hpresents

theorem password_protected_form : passwordValidator (Scenario.form '1').password = none ∧
    (Scenario.form '1').Protected :=
  ⟨by decide, (password_protected_iff (Scenario.form '1') (by decide) (by decide)).mpr
    (by decide)⟩

namespace Scenario

/-- Seven characters and a blank. -/
def sevenAndBlank : Text := text ['1', '2', '3', '4', '5', '6', '7', ' ']

def blankForm : Fields :=
  { form '1' with password := sevenAndBlank, confirm := sevenAndBlank }

end Scenario

/-- A password of seven characters and a blank is accepted, and seven are registered. -/
theorem blank_password_registered : Scenario.blankForm.validate = true ∧
    Scenario.blankForm.Registers Scenario.address (text ['1', '2', '3', '4', '5', '6', '7']) ∧
    (Scenario.blankForm.user 1123456789).password = Scenario.sevenAndBlank ∧
    ¬ Scenario.blankForm.Protected := by
  refine ⟨by decide +kernel, Scenario.blankForm.registers, rfl, ?_⟩
  rw [password_protected_iff _ (by decide) (by decide)]
  decide

/-! ## The address -/

/-- `trim` knows one character of white space more than the pattern, the next line. -/
theorem isSpace_of_isBlank {c : ℕ} (h : isBlank c = true) (hne : c ≠ 133) : isSpace c = true := by
  simp only [isBlank, isSpace, Bool.or_eq_true, Bool.and_eq_true, decide_eq_true_eq,
    List.contains_iff_mem, List.mem_cons, List.not_mem_nil, or_false, hne, false_or] at h ⊢
  exact h

/-- What stands before the `@` begins with a quote or with no white space of the pattern. -/
theorem localPart_first {before middle after : Text} (h : localPart.Matches before middle after) :
    ∃ c s, middle = c :: s ∧ isSpace c = false := by
  rcases h with ⟨_, second, rfl, ⟨_, rest, rfl, ⟨c, rfl, hc⟩, -⟩, -⟩ | ⟨_, second, rfl, hquote, -⟩
  · refine ⟨c, rest ++ second, rfl, ?_⟩
    simp only [Bool.and_eq_true, Bool.not_eq_true'] at hc
    exact hc.1
  · obtain rfl := (char_matches ..).mp hquote
    exact ⟨34, second, rfl, by decide⟩

theorem letter_over :
    (anyOf [range 'a' 'z', range 'A' 'Z']).Over fun c => isBlank c = false := by
  have hblank : ∀ low high : Char, 65 ≤ low.toNat → high.toNat ≤ 122 →
      (range low high).Over fun c => isBlank c = false := by
    intro low high hlow hhigh
    refine .range fun c hc hc' => ?_
    simp only [isBlank, Bool.or_eq_false_iff, Bool.and_eq_false_iff, decide_eq_false_iff_not,
      List.contains_eq_mem, List.mem_cons, List.not_mem_nil, or_false]
    omega
  exact .alt (hblank 'a' 'z' (by decide) (by decide)) (hblank 'A' 'Z' (by decide) (by decide))

theorem letter_nonempty {before middle after : Text}
    (h : (anyOf [range 'a' 'z', range 'A' 'Z']).Matches before middle after) : middle ≠ [] := by
  rcases h with h | h <;> obtain ⟨c, rfl, -⟩ := (range_matches ..).mp h <;> simp

/-- What stands after the `@` ends in a bracket or in a letter. -/
theorem domainPart_last {before middle after : Text}
    (h : domainPart.Matches before middle after) :
    ∃ s c, middle = s ++ [c] ∧ isBlank c = false := by
  rcases h with h | h
  · let address : List Pattern := [char '[', between 1 3 digit, char '.', between 1 3 digit,
      char '.', between 1 3 digit, char '.', between 1 3 digit]
    have hbracket : (inOrder (address ++ [char ']'])).Matches before middle after := h
    obtain ⟨front, back, rfl, hback⟩ := inOrder_snoc_matches hbracket
    exact ⟨front, 93, congrArg _ ((char_matches ..).mp hback), by decide⟩
  · obtain ⟨labels, letters, rfl, -, two, more, rfl, htwo, hmore⟩ := h
    have hletters : ∀ c ∈ two ++ more, isBlank c = false := by
      intro c hc
      rcases List.mem_append.mp hc with hc | hc
      · exact letter_over.times 2 _ _ _ htwo c hc
      · exact letter_over.star _ _ _ hmore c hc
    obtain ⟨s, c, hlast⟩ : ∃ s c, two ++ more = s ++ [c] := by
      refine (List.eq_nil_or_concat' _).resolve_left fun hnil => ?_
      obtain ⟨rfl, -⟩ := List.append_eq_nil_iff.mp hnil
      obtain ⟨_, _, hsplit, hletter, -⟩ := htwo
      obtain ⟨rfl, -⟩ := List.append_eq_nil_iff.mp hsplit.symm
      exact letter_nonempty hletter rfl
    rw [hlast] at hletters ⊢
    exact ⟨labels ++ s, c, by simp, hletters c (by simp)⟩

/-- What the pattern accepts begins with no white space of the pattern, and ends with no white
space at all. -/
theorem emailValidator_shape {value : Text} (h : emailValidator value = none) :
    (∃ c s, value = c :: s ∧ isSpace c = false) ∧ ∃ s c, value = s ++ [c] ∧ isBlank c = false := by
  have hmatch : emailPattern.hasMatch value = true := by
    rw [emailValidator, check_eq_none_iff] at h
    simpa using h.1
  rw [Pattern.hasMatch_iff] at hmatch
  obtain ⟨before, _, after, rfl, _, _, rfl, ⟨rfl, rfl⟩, front, _, rfl, hlocal,
    sign, _, rfl, -, back, _, rfl, hdomain, rfl, rfl⟩ := hmatch
  obtain ⟨c, s, rfl, hc⟩ := localPart_first hlocal
  obtain ⟨t, d, rfl, hd⟩ := domainPart_last hdomain
  exact ⟨⟨c, s ++ (sign ++ (t ++ [d])), by simp, hc⟩, c :: s ++ sign ++ t, d, by simp, hd⟩

/-- The email that is looked up, registered, stored and presented is the text itself. -/
def Fields.OneAddress (f : Fields) : Prop :=
  trim f.email = f.email ∧ f.LooksUp f.email ∧ (∃ password, f.Registers f.email password) ∧
    (∀ id, (f.user id).email = f.email) ∧
    ∀ typed, typed ≠ [] → Presents f.email f.email typed (trim typed)

/-- An accepted email is the same everywhere exactly if it does not begin with a next line. -/
theorem one_address_iff (f : Fields) (hemail : emailValidator f.email = none) :
    f.OneAddress ↔ f.email.head? ≠ some 133 := by
  obtain ⟨⟨c, s, hfirst, hc⟩, t, d, hlast, hd⟩ := emailValidator_shape hemail
  have htrim : trim f.email = f.email ↔ f.email.head? ≠ some 133 := by
    have hback : ∀ e ∈ f.email.getLast?, isBlank e = false := by
      simpa [hlast] using hd
    have hfront : (∀ e ∈ f.email.head?, isBlank e = false) ↔ f.email.head? ≠ some 133 := by
      simp only [hfirst, List.head?_cons, Option.mem_some_iff, forall_eq', ne_eq,
        Option.some.injEq]
      constructor
      · rintro hblank rfl
        cases hblank
      · intro hne
        by_contra hblank
        have hspace := isSpace_of_isBlank (by simpa using hblank) hne
        rw [hspace] at hc
        cases hc
    rw [trim_eq_self_iff, hfront, and_iff_left hback]
  rw [← htrim]
  constructor
  · exact And.left
  · intro h
    have hregisters := f.registers
    rw [h] at hregisters
    have hne : f.email ≠ [] := by simp [hfirst]
    refine ⟨h, f.looksUp, ⟨_, hregisters⟩, fun _ => rfl, fun typed htyped => ?_⟩
    have hpresents := presents hne htyped
    rwa [h] at hpresents

theorem one_address_form : emailValidator (Scenario.form '1').email = none ∧
    (Scenario.form '1').OneAddress :=
  ⟨by decide +kernel, (one_address_iff (Scenario.form '1') (by decide +kernel)).mpr (by decide)⟩

namespace Scenario

def nextLineForm : Fields :=
  { form '1' with email := 133 :: address }

end Scenario

/-- An email after a next line is looked up and stored with it, and registered without. -/
theorem next_line_email_registered : Scenario.nextLineForm.validate = true ∧
    Scenario.nextLineForm.LooksUp (133 :: Scenario.address) ∧
    Scenario.nextLineForm.Registers Scenario.address Scenario.eightDigits ∧
    (Scenario.nextLineForm.user 1123456789).email = 133 :: Scenario.address ∧
    ¬ Scenario.nextLineForm.OneAddress := by
  refine ⟨by decide +kernel, Scenario.nextLineForm.looksUp, Scenario.nextLineForm.registers,
    rfl, ?_⟩
  rw [one_address_iff _ (by decide +kernel)]
  decide

end Oun
