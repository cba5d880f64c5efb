import Mathlib.Data.Set.Finite.Basic
import Oun.Model.Whole
import Oun.Verification.Entrance.Credentials
import Oun.Verification.Entrance.Identity

/-! # Room for another account

If the service tells small letters apart, there is always an address that nobody has, and a sign-up
with it that gets as far as its account whatever the other attempts wait for. -/

namespace Oun

open Firestore Regex Numeral Future Transition

/-! ## Addresses -/

/-- A text of ASCII characters without capitals. -/
def Small (email : Text) : Prop :=
  ∀ u ∈ email, u < 128 ∧ ¬ (65 ≤ u ∧ u ≤ 90)

/-- The service takes no two texts without capitals for the same address. -/
def Addressing.TellsApart (address : Addressing) : Prop :=
  Set.InjOn address {email | Small email}

example : Addressing.TellsApart id := Set.injOn_id _

/-- `aa…a@k.sa` -/
def letterAddress (n : ℕ) : Text :=
  List.replicate (n + 1) 97 ++ text ['@', 'k', '.', 's', 'a']

theorem letter_matches {c : ℕ} (h : 97 ≤ c ∧ c ≤ 122) (before after : Text) :
    (anyOf [range 'a' 'z', range 'A' 'Z']).Matches before [c] after :=
  .inl ((range_matches ..).mpr ⟨c, rfl, h⟩)

theorem localPart_letters (n : ℕ) (before after : Text) :
    localPart.Matches before (List.replicate (n + 1) 97) after := by
  have hunit : localUnit.IsClass fun u => (!isSpace u && !(text ['<', '>', '(', ')', '[', ']', '\\',
      '.', ',', ';', ':', '@', '"']).contains u) = true := fun _ _ _ => Iff.rfl
  refine .inl ⟨_, [], (List.append_nil _).symm, (hunit.plus_matches ..).mpr ⟨by simp, ?_⟩,
    .nil _ _⟩
  intro c hc
  rw [List.eq_of_mem_replicate hc]
  decide

theorem domainPart_letters (before after : Text) :
    domainPart.Matches before (text ['k', '.', 's', 'a']) after := by
  refine .inr ⟨text ['k', '.'], text ['s', 'a'], rfl, ⟨_, [], (List.append_nil _).symm, ?_,
    .nil _ _⟩, ⟨_, [], (List.append_nil _).symm, ?_, .nil _ _⟩⟩
  · refine ⟨text ['k'], text ['.'], rfl, ⟨_, [], (List.append_nil _).symm, ?_, .nil _ _⟩,
      (char_matches ..).mpr rfl⟩
    exact .inl ((range_matches ..).mpr ⟨107, rfl, by decide⟩)
  · exact ⟨text ['s'], text ['a'], rfl, letter_matches (by decide) _ _, text ['a'], [], rfl,
      letter_matches (by decide) _ _, rfl⟩

theorem letterAddress_valid (n : ℕ) : emailValidator (letterAddress n) = none := by
  have hmatch : emailPattern.hasMatch (letterAddress n) = true := by
    refine (Pattern.hasMatch_iff ..).mpr ⟨[], letterAddress n, [], by simp, ?_⟩
    exact ⟨[], _, rfl, ⟨rfl, rfl⟩, _, _, rfl, localPart_letters n _ _, text ['@'], _, rfl,
      (char_matches ..).mpr rfl, _, [], rfl, domainPart_letters _ _, rfl, rfl⟩
  simp [emailValidator, hmatch]

theorem letterAddress_trim (n : ℕ) : trim (letterAddress n) = letterAddress n := by
  refine (trim_eq_self_iff _).mpr ⟨?_, ?_⟩
  · simp [letterAddress, List.replicate_succ]
    decide
  · simp [letterAddress, text]
    decide

theorem letterAddress_small (n : ℕ) : Small (letterAddress n) := by
  have hdomain : ∀ u ∈ text ['@', 'k', '.', 's', 'a'], u < 128 ∧ ¬ (65 ≤ u ∧ u ≤ 90) := by decide
  intro u hu
  rcases List.mem_append.mp hu with hu | hu
  · rw [List.eq_of_mem_replicate hu]
    decide
  · exact hdomain u hu

/-- However many addresses are in use, the form accepts another one. -/
theorem exists_address {address : Addressing} (h : address.TellsApart) (used : List Text) :
    ∃ n, ∀ email ∈ used, address email ≠ address (letterAddress n) := by
  have hinjective : Function.Injective fun n => address (letterAddress n) := by
    intro n m hsame
    have hletters := h (letterAddress_small n) (letterAddress_small m) hsame
    simpa [letterAddress] using congrArg List.length hletters
  obtain ⟨_, ⟨n, rfl⟩, hfree⟩ := (Set.infinite_range_of_injective hinjective).exists_notMem_finset
    (used.map address).toFinset
  exact ⟨n, by simpa using hfree⟩

/-- A form with such an address that is otherwise filled in. -/
def letterForm (n : ℕ) : Fields :=
  { Scenario.form '1' with email := letterAddress n }

theorem letterForm_valid (n : ℕ) : (letterForm n).validate = true := by
  have hform : (Scenario.form '1').validate = true := by decide +kernel
  have hemail : (emailValidator (letterForm n).email).isNone = true :=
    Option.isNone_iff_eq_none.mpr (letterAddress_valid n)
  simp only [Fields.validate, Bool.and_eq_true] at hform ⊢
  obtain ⟨⟨⟨⟨⟨hname, -⟩, hid⟩, hphone⟩, hpassword⟩, hconfirm⟩ := hform
  exact ⟨⟨⟨⟨⟨hname, hemail⟩, hid⟩, hphone⟩, hpassword⟩, hconfirm⟩

/-- What LOGIN presents when the credentials are typed is the credentials. -/
structure Account.Trimmed (account : Account) : Prop where
  email : account.email ≠ []
  password : account.password ≠ []
  trim_email : trim account.email = account.email
  trim_password : trim account.password = account.password

theorem letterForm_trimmed (n : ℕ) (uid : Uid) :
    Account.Trimmed ⟨uid, trim (letterForm n).email, trim (letterForm n).password⟩ := by
  have hemail : trim (letterForm n).email = letterAddress n := letterAddress_trim n
  have htrim : trim Scenario.eightDigits = Scenario.eightDigits := by decide
  have hpassword : trim (letterForm n).password = Scenario.eightDigits := htrim
  rw [hemail, hpassword]
  exact ⟨by simp [letterAddress], List.cons_ne_nil _ _, letterAddress_trim n, htrim⟩

/-! ## Up to the last question -/

/-- The step is smooth, and gives no address a second account. -/
def Entrance.Event.Flawless (address : Addressing) (w : Entrance) (event : Entrance.Event) : Prop :=
  event.Smooth w ∧ event.RefusesTaken address w

/-- Flawless steps of which the screens notice nothing, and an attempt of the phone waits. -/
structure Asks (address : Addressing) (w : Entrance) (phone : ℕ) (stage : Stage) (w' : Entrance) :
    Prop where
  run : ∃ front, Run (entrance address) w front w' ∧
    Meets (fun v event => event.Flawless address v) front ∧
    labels Entrance.Event.moves front = []
  services : w'.services = w.services
  waits : ∃ (i : ℕ) (attempt : Attempt), w'.attempts[i]? = some attempt ∧
    attempt.phone = phone ∧ attempt.stage = stage

section Asking

variable {address : Addressing}

theorem exists_asks_login (w : Entrance) (phone : ℕ) {email password : Text} (hemail : email ≠ [])
    (hpassword : password ≠ []) :
    ∃ w', Asks address w phone (.signingIn (trim email) (trim password)) w' := by
  have henabled : (entrance address).Enabled w (.login phone email password) := trivial
  refine ⟨_, ⟨_, Run.single henabled, ?_, rfl⟩, rfl, w.attempts.length, _,
    List.getElem?_concat_length, ?_, ?_⟩
  · exact (meets_singleton _ _ _).mpr ⟨trivial, trivial⟩
  · split <;> rfl
  · simp [hemail, hpassword]

/-- An address that nobody has is not taken. -/
theorem signup_free (s : Scope) :
    (signup (.ok []) s).2 = { s with
      phone.emailtaken := some false
      attempt.stage := .creatingUser (trim s.phone.fields.email) (trim s.phone.fields.password) } :=
  rfl

/-- The lookup finds nobody with the address, and the form is typed over before the account is
created. -/
theorem exists_asks_signUp (w : Entrance) (phone : ℕ) {f : Fields} (hvalid : f.validate = true)
    (hfree : ∀ d ∈ w.services.users, d.data.email ≠ f.email) (fields : Fields) :
    ∃ w', Asks address w phone (.creatingUser (trim f.email) (trim f.password)) w' ∧
      (w'.phones phone).fields = fields := by
  set n := w.attempts.length with hn
  let attempt : Attempt := { phone, stage := .fetchingEmail f.email }
  set w₁ := w.perform (.type phone f) with hw₁
  set w₂ := w₁.perform (.signUp phone) with hw₂
  set w₃ := w₂.perform (.answer n (.documents (.ok []))) with hw₃
  have hfields : (w₁.phones phone).fields = f := by simp [hw₁, Entrance.perform]
  have hget : w₂.attempts[n]? = some attempt := by
    simp [hw₂, hw₁, hn, attempt, Entrance.perform]
  have htype : (entrance address).Enabled w (.type phone f) := trivial
  have hpress : (entrance address).Enabled w₁ (.signUp phone) := by
    rw [← hfields] at hvalid
    exact hvalid
  have hlookup : (entrance address).Enabled w₂ (.answer n (.documents (.ok []))) := by
    refine ⟨attempt, hget, fun d hd hemail => absurd hemail (hfree d hd), ?_⟩
    simp
  have hagain : (entrance address).Enabled w₃ (.type phone fields) := trivial
  have hput : w₃ = w₂.put n phone (signup (.ok []) (w₂.scope attempt)).2 := by
    simp only [hw₃, Entrance.perform, hget]
    rfl
  have hwaits : w₃.attempts[n]? = some ((signup (.ok []) (w₂.scope attempt)).2.attempt.removedBy
      (signup (.ok []) (w₂.scope attempt)).2.attempt) :=
    hput ▸ Entrance.getElem?_put_self hget phone _
  refine ⟨_, ⟨⟨_, (((Run.single htype).snoc _ hpress).snoc _ hlookup).snoc _ hagain, ?_, rfl⟩, ?_,
    n, _, hwaits, rfl, ?_⟩, ?_⟩
  · simp only [meets_append, meets_singleton]
    refine ⟨⟨⟨⟨trivial, trivial⟩, trivial, trivial⟩, fun a ha => ?_, trivial⟩, trivial, trivial⟩
    obtain rfl : attempt = a := Option.some.inj (hget.symm.trans ha)
    trivial
  · show w₃.services = w.services
    rw [hput]
    rfl
  · rw [(Attempt.removedBy_sameAs _ _).2.1, signup_free]
    show Stage.creatingUser (trim (w₁.phones phone).fields.email)
      (trim (w₁.phones phone).fields.password) = _
    rw [hfields]
  · simp [entrance, Entrance.perform]

end Asking

end Oun
