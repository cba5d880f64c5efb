import Oun.Library.Transition
import Oun.Library.Future
import Oun.Library.Regex
import Oun.Model.Store

/-! # What a user sees of the profile

One process of the app, in which users sign in and out one after another. The values of the
profile page and of the greeting are library variables: fetches assign them one by one, and
they survive a logout, as do the fetches that are still waiting for an answer. -/

namespace Oun

open Firestore Regex Future

inductive Field where
  | name | phone | email
  deriving DecidableEq, Repr

/-- What `get` gives of a document in `users`; it throws where the field or the whole document
is missing. -/
abbrev Snapshot := Field → Option Text

inductive FetchError where
  | firebase (message : String)
  | missing (field : Field)
  deriving DecidableEq, Repr

def Snapshot.get (ud : Snapshot) (field : Field) : Except FetchError Text :=
  match ud field with
  | some value => .ok value
  | none => .error (.missing field)

/-! ## The fetches -/

/-- The library variables of `profile_page.dart`, and `username` of the home screen. -/
structure Vars where
  fetchName : Text
  fetchPhone : Text
  fetchEmail : Text
  username : Option Text
  deriving DecidableEq, Repr

def Vars.initial : Vars := ⟨[], [], [], none⟩

/-- An assignment; nothing is assigned if its right side throws. -/
def assign (value : Except FetchError Text) (set : Text → Vars → Vars) :
    Chain Vars FetchError Unit := fun v =>
  match value with
  | .ok value => (.ok (), set value v)
  | .error e => (.error e, v)

/-- `_fetch` from the answer of the document on. -/
def fetch (answer : Except FetchError Snapshot) : Chain Vars FetchError Unit :=
  (Chain.completed answer).andThen fun ud =>
    (assign (ud.get .email) fun value v => { v with fetchEmail := value }).andThen fun _ =>
      (assign (ud.get .name) fun value v => { v with fetchName := value }).andThen fun _ =>
        assign (ud.get .phone) fun value v => { v with fetchPhone := value }

/-- `_fetchName` from the answer of the document on. -/
def fetchName (answer : Except FetchError Snapshot) : Chain Vars FetchError Unit :=
  (Chain.completed answer).andThen fun ud =>
    assign (ud.get .name) fun value v => { v with username := some value }

/-! ## The pages -/

inductive Tab where
  | home | profile
  deriving DecidableEq, Repr

/-- The places that a `FutureBuilder` draws: three on the profile page, one on the home
screen. -/
inductive Slot where
  | greeting | name | phone | email
  deriving DecidableEq, Repr

/-- With nobody signed in the home screen has `LoginScreen` in the place of the greeting. -/
def Tab.slots (user : Option Uid) : Tab → List Slot
  | .home => if user.isSome then [.greeting] else []
  | .profile => [.name, .phone, .email]

def Slot.tab : Slot → Tab
  | .greeting => .home
  | _ => .profile

/-- The field of which the slot shows the value. -/
def Slot.field : Slot → Field
  | .greeting | .name => .name
  | .phone => .phone
  | .email => .email

def Field.slot : Field → Slot
  | .name => .name
  | .phone => .phone
  | .email => .email

/-- The future of the slot. -/
def Slot.fetch : Slot → Except FetchError Snapshot → Chain Vars FetchError Unit
  | .greeting => Oun.fetchName
  | _ => Oun.fetch

/-- `"Hello, " + username.toString() + " 💙," " Welcome to Oun"` -/
def hello (username : Text) : Text :=
  text ['H', 'e', 'l', 'l', 'o', ',', ' '] ++ username ++ [0x20, 0xD83D, 0xDC99] ++
    text [',', ' ', 'W', 'e', 'l', 'c', 'o', 'm', 'e', ' ', 't', 'o', ' ', 'O', 'u', 'n']

/-- A value as the slot shows it. -/
def Slot.format : Slot → Text → Text
  | .greeting, value => hello value
  | _, value => value

/-- What the builder of the slot returns when its future is done, with a value or an error. -/
def Slot.draws : Slot → Vars → Text
  | .greeting, v => Slot.greeting.format (v.username.getD (text ['n', 'u', 'l', 'l']))
  | .name, v => v.fetchName
  | .phone, v => v.fetchPhone
  | .email, v => v.fetchEmail

/-! ## The edit pages -/

/-- The parts of `UserData.myUser` that the edit pages write. -/
structure Duser where
  name : Text
  email : Text
  phone : Text
  deriving DecidableEq, Repr

def Duser.myUser : Duser where
  name := text ['T', 'e', 's', 't', ' ', 'T', 'e', 's', 't']
  email := text ['t', 'e', 's', 't', '.', 't', 'e', 's', 't', '@',
    'g', 'm', 'a', 'i', 'l', '.', 'c', 'o', 'm']
  phone := text ['(', '2', '0', '8', ')', ' ', '2', '0', '6', '-', '5', '0', '3', '9']

/-- The predicates of the packages `string_validator` and `email_validator`. -/
structure Validators where
  isAlpha : Text → Bool
  isNumeric : Text → Bool
  emailValidate : Text → Bool

/-- The validator of a field for a name. -/
def lettersValidator (v : Validators) (message : String) (value : Text) : Option String :=
  if value.isEmpty then some message
  else if !v.isAlpha value then some "Only Letters Please"
  else none

def firstNameValidator (v : Validators) : Text → Option String :=
  lettersValidator v "Please enter your first name"

def secondNameValidator (v : Validators) : Text → Option String :=
  lettersValidator v "Please enter your last name"

def editPhoneValidator (v : Validators) (value : Text) : Option String :=
  if value.isEmpty then some "Please enter your phone number"
  else if v.isAlpha value then some "Only Numbers Please"
  else if value.length < 10 then some "Please enter a VALID phone number"
  else none

def editEmailValidator (value : Text) : Option String :=
  if value.isEmpty then some "Please enter your email." else none

def formattedPhoneNumber (phone : Text) : Text :=
  text ['('] ++ phone.take 3 ++ text [')', ' '] ++ (phone.take 6).drop 3 ++ text ['-'] ++
    phone.drop 6

/-- The texts that are in an edit page when Update is pressed. -/
inductive Edit where
  | name (first second : Text)
  | phone (value : Text)
  | email (value : Text)
  deriving DecidableEq, Repr

def Edit.field : Edit → Field
  | .name _ _ => .name
  | .phone _ => .phone
  | .email _ => .email

/-- The page accepts its texts. -/
def Edit.accepted (v : Validators) : Edit → Bool
  | .name first second => (firstNameValidator v first).isNone &&
      (secondNameValidator v second).isNone && v.isAlpha (first ++ second)
  | .phone value => (editPhoneValidator v value).isNone && v.isNumeric value
  | .email value => (editEmailValidator value).isNone && v.emailValidate value

/-- The value that `updateUserValue` writes. -/
def Edit.value : Edit → Text
  | .name first second => first ++ text [' '] ++ second
  | .phone value => formattedPhoneNumber value
  | .email value => value

def Edit.updateUserValue (edit : Edit) (user : Duser) : Duser :=
  match edit.field with
  | .name => { user with name := edit.value }
  | .phone => { user with phone := edit.value }
  | .email => { user with email := edit.value }

/-! ## The transition system -/

/-- A `FutureBuilder` with its future: whether it is still in the tree, whether the fetch has
been answered, and the text that it has drawn. -/
structure Builder where
  slot : Slot
  mounted : Bool := true
  done : Bool := false
  shown : Option Text := none
  deriving DecidableEq, Repr

/-- A fetch whose session is over. -/
structure LateFetch where
  uid : Uid
  slot : Slot
  deriving DecidableEq, Repr

/-- `currentUser`, the variables, the builders of the session and the fetches left over from
earlier ones. -/
structure AppProcess where
  user : Option Uid
  vars : Vars
  myUser : Duser
  builders : List Builder
  late : List LateFetch
  deriving DecidableEq, Repr

def AppProcess.initial : AppProcess := ⟨none, .initial, .myUser, [], []⟩

/-- The home screen is also entered when a sign-up fails, with nobody signed in. -/
inductive AppProcess.Event where
  /-- A request has signed the user in, whose home screen takes the place of all pages. -/
  | signIn (uid : Uid)
  /-- LOGOUT, which also removes all pages. -/
  | signOut
  /-- The page is built: for the first time, or again by `setState`. -/
  | build (tab : Tab)
  | leave (tab : Tab)
  /-- The `i`-th builder's fetch is answered: with the document, or with an error. -/
  | answer (i : ℕ) (ok : Bool)
  | answerLate (j : ℕ) (ok : Bool)
  /-- The next frame after its future is done rebuilds the `i`-th builder. -/
  | draw (i : ℕ)
  /-- Update on an edit page, which then closes: `onGoBack` builds the profile page again. -/
  | update (edit : Edit)
  deriving DecidableEq, Repr

def Builder.waits (b : Builder) : Bool := b.mounted && b.done && b.shown.isNone

def AppProcess.Event.Enabled (v : Validators) (p : AppProcess) : AppProcess.Event → Prop
  | .signIn _ => p.user = none ∧ ∀ b ∈ p.builders, b.mounted = false
  | .signOut | .build _ | .leave _ => True
  | .answer i _ => ∃ b ∈ p.builders[i]?, b.done = false
  | .answerLate j _ => j < p.late.length
  | .draw i => ∃ b ∈ p.builders[i]?, b.waits
  | .update edit => edit.accepted v ∧
      ∃ b ∈ p.builders, b.slot = edit.field.slot ∧ b.mounted ∧ b.shown.isSome

instance AppProcess.Event.decidableEnabled (v : Validators) (p : AppProcess)
    (event : AppProcess.Event) : Decidable (event.Enabled v p) := by
  apply AppProcess.Event.casesOn (motive := fun e => Decidable (e.Enabled v p)) event <;> intros <;>
    unfold AppProcess.Event.Enabled <;> infer_instance

/-- The answer to a fetch of the user's document. -/
def answered (ud : Snapshot) (ok : Bool) : Except FetchError Snapshot :=
  if ok then .ok ud else .error (.firebase "")

def Builder.leaveTab (tab : Tab) (b : Builder) : Builder :=
  if b.slot.tab = tab then { b with mounted := false } else b

def AppProcess.leave (p : AppProcess) (tab : Tab) : AppProcess :=
  { p with builders := p.builders.map (Builder.leaveTab tab) }

/-- New builders take the place of those that the page has had. With nobody signed in `_fetch`
asks for nothing. -/
def AppProcess.build (p : AppProcess) (tab : Tab) : AppProcess :=
  { p with builders := (p.leave tab).builders ++
      (tab.slots p.user).map fun slot => { slot, done := p.user.isNone } }

def AppProcess.signOut (p : AppProcess) : AppProcess :=
  { p with
    user := none
    builders := []
    late := p.late ++ p.user.toList.flatMap fun uid =>
      (p.builders.filter fun b => !b.done).map fun b => ⟨uid, b.slot⟩ }

def AppProcess.withBuilder (p : AppProcess) (i : ℕ) (f : Builder → AppProcess) : AppProcess :=
  match p.builders[i]? with
  | some b => f b
  | none => p

def AppProcess.answer (p : AppProcess) (i : ℕ) (b : Builder) (ud : Snapshot) (ok : Bool) :
    AppProcess :=
  { p with
    vars := (b.slot.fetch (answered ud ok) p.vars).2
    builders := p.builders.set i { b with done := true } }

def AppProcess.draw (p : AppProcess) (i : ℕ) (b : Builder) : AppProcess :=
  { p with builders := p.builders.set i { b with shown := some (b.slot.draws p.vars) } }

def AppProcess.answerLate (p : AppProcess) (j : ℕ) (f : LateFetch) (ud : Snapshot) (ok : Bool) :
    AppProcess :=
  { p with
    vars := (f.slot.fetch (answered ud ok) p.vars).2
    late := p.late.eraseIdx j }

def AppProcess.perform (docs : Uid → Snapshot) (p : AppProcess) : AppProcess.Event → AppProcess
  | .signIn uid => { p with user := some uid, builders := [] }
  | .signOut => p.signOut
  | .build tab => p.build tab
  | .leave tab => p.leave tab
  | .answer i ok => p.withBuilder i fun b =>
      match p.user with
      | some uid => p.answer i b (docs uid) ok
      | none => p
  | .answerLate j ok =>
      match p.late[j]? with
      | some f => p.answerLate j f (docs f.uid) ok
      | none => p
  | .draw i => p.withBuilder i (p.draw i)
  | .update edit => { p with myUser := edit.updateUserValue p.myUser }.build .profile

/-- A process of the app over the documents of all users; sign-up alone writes what is read
here. -/
def profile (v : Validators) (docs : Uid → Snapshot) :
    Transition.System AppProcess AppProcess.Event where
  init := .initial
  Enabled p event := event.Enabled v p
  perform := AppProcess.perform docs

instance profile.decidableEnabled (v : Validators) (docs : Uid → Snapshot) (p : AppProcess)
    (event : AppProcess.Event) : Decidable ((profile v docs).Enabled p event) :=
  inferInstanceAs (Decidable (event.Enabled v p))

/-- A text that the user sees in the slot. -/
def AppProcess.Shows (p : AppProcess) (slot : Slot) (shown : Text) : Prop :=
  ∃ b ∈ p.builders, b.mounted ∧ b.slot = slot ∧ b.shown = some shown

instance AppProcess.decidableShows (p : AppProcess) (slot : Slot) (shown : Text) :
    Decidable (p.Shows slot shown) := by
  unfold AppProcess.Shows; infer_instance

end Oun
