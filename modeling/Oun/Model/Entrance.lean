import Oun.Library.Transition
import Oun.Library.Future
import Oun.Library.Numeral
import Oun.Model.Store

/-! # Signing up and logging in

Any number of phones share the accounts and the documents in `users`. A press on SIGN UP or
LOGIN starts an attempt, and an attempt moves on by the answers it waits for. The write of
a user's document is not awaited and ends by itself. All of this interleaves freely. -/

namespace Oun

open Firestore Regex Numeral Future

/-! ## The form -/

/-- The text fields of the sign-up screen. They are library variables: whoever reads them
reads what they contain by then. -/
structure Fields where
  name : Text
  email : Text
  id : Text
  phone : Text
  password : Text
  confirm : Text
  deriving DecidableEq, Repr

/-- `^[a-z A-Z]+$` -/
def namePattern : Pattern :=
  inOrder [.lineStart, plus (anyOf [range 'a' 'z', char ' ', range 'A' 'Z']), .lineEnd]

def nameValidator (value : Text) : Option String :=
  if value.isEmpty || !namePattern.hasMatch value then some "The name Format is not Correct!"
  else none

/-- `[^<>()[\]\\.,;:\s@\"]` -/
def localUnit : Pattern :=
  .unit fun u => !isSpace u &&
    !(text ['<', '>', '(', ')', '[', ']', '\\', '.', ',', ';', ':', '@', '"']).contains u

/-- The part before the `@`: units with single dots between them, or a quoted text. -/
def localPart : Pattern :=
  anyOf [
    inOrder [plus localUnit, .star (inOrder [char '.', plus localUnit])],
    inOrder [char '"', plus dot, char '"']]

/-- The part after the `@`: an address in brackets, or labels with dots and two or more
letters. -/
def domainPart : Pattern :=
  anyOf [
    inOrder [char '[', between 1 3 digit, char '.', between 1 3 digit, char '.',
      between 1 3 digit, char '.', between 1 3 digit, char ']'],
    inOrder [
      plus (inOrder [plus (anyOf [range 'a' 'z', range 'A' 'Z', char '-', digit]), char '.']),
      atLeast 2 (anyOf [range 'a' 'z', range 'A' 'Z'])]]

def emailPattern : Pattern :=
  inOrder [.lineStart, localPart, char '@', domainPart, .lineEnd]

def emailValidator (value : Text) : Option String :=
  if !emailPattern.hasMatch value then some "Enter Valid Email" else none

/-- `^[1|2]{1}[0-9]{9}$`; in a class the bar stands for itself. -/
def idPattern : Pattern :=
  inOrder [.lineStart, inOrder [times 1 (oneOf ['1', '|', '2']), times 9 digit], .lineEnd]

def idValidator (value : Text) : Option String :=
  if value.isEmpty || value.length < 10 || value.length > 10 then
    some "please enter a correct, 10 digit ID"
  else if !idPattern.hasMatch value then
    some "The Saudi ID number starts with (1), and the Iqama starts with (2)"
  else none

/-- `^(009665|9665|\+9665|05|5)(5|0|3|6|4|9|1|8|7)([0-9]{7})$` -/
def phonePattern : Pattern :=
  inOrder [.lineStart,
    anyOf [word ['0', '0', '9', '6', '6', '5'], word ['9', '6', '6', '5'],
      word ['+', '9', '6', '6', '5'], word ['0', '5'], word ['5']],
    anyOf [char '5', char '0', char '3', char '6', char '4', char '9', char '1', char '8',
      char '7'],
    times 7 digit, .lineEnd]

def phoneValidator (value : Text) : Option String :=
  if value.isEmpty then some "Please enter a Saudi mobile number"
  else if !phonePattern.hasMatch value then some "Please enter a valid Saudi mobile number"
  else none

/-- `/^(009665|9665|\+9665|05|5)(5|0|3|6|4|9|1|8|7)([0-9]{7})$/`; the slashes are characters of
the pattern. -/
def mobilePattern : Pattern :=
  inOrder [char '/', .lineStart,
    anyOf [word ['0', '0', '9', '6', '6', '5'], word ['9', '6', '6', '5'],
      word ['+', '9', '6', '6', '5'], word ['0', '5'], word ['5']],
    anyOf [char '5', char '0', char '3', char '6', char '4', char '9', char '1', char '8',
      char '7'],
    times 7 digit, .lineEnd, char '/']

/-- The form does not call it. -/
def validateMobile (value : Text) : Option String :=
  if value.isEmpty then some "Please enter a Saudi mobile number"
  else if !mobilePattern.hasMatch value then some "Please enter a valid Saudi mobile number"
  else none

def passwordValidator (value : Text) : Option String :=
  if value.length < 8 then some "password must be atleast 8 characters long" else none

def confirmValidator (password value : Text) : Option String :=
  if value ≠ password then some "Passwords must match"
  else if value.isEmpty then some "Please enter the password again"
  else none

/-- `_key.currentState!.validate()`. -/
def Fields.validate (f : Fields) : Bool :=
  (nameValidator f.name).isNone && (emailValidator f.email).isNone &&
    (idValidator f.id).isNone && (phoneValidator f.phone).isNone &&
    (passwordValidator f.password).isNone && (confirmValidator f.password f.confirm).isNone

/-! ## What an attempt works on -/

/-- What the code can catch. -/
inductive Error where
  | firebase (message : String)
  | format (source : Text)
  /-- An error handler has returned something that is not a value of the future. -/
  | argument
  /-- The screen to which the context belongs is gone. -/
  | unmounted
  deriving DecidableEq, Repr

inductive Alert where
  | text (message : String)
  | error (e : Error)
  deriving DecidableEq, Repr

structure Account where
  uid : Uid
  email : Text
  password : Text
  deriving DecidableEq, Repr

/-- The services; `writing` lists the documents whose `set` has not ended yet. -/
structure Services where
  accounts : List Account
  users : List (Doc User)
  writing : List (Doc User)

/-- The library variables of `signup_form.dart`. -/
structure Phone where
  fields : Fields
  emailtaken : Option Bool

/-- The answer that an attempt waits for, with what it has asked. -/
inductive Stage where
  | fetchingEmail (email : Text)
  | creatingUser (email password : Text)
  | signingIn (email password : Text)
  | ended
  deriving DecidableEq, Repr

/-- `mounted`: the screen of the attempt is still there. `signedIn` and `home` record whom
the attempt has signed in and whether it has entered the app. -/
structure Attempt where
  phone : ℕ
  stage : Stage
  mounted : Bool := true
  signedIn : Option Uid := none
  home : Bool := false
  alert : Option Alert := none
  deriving DecidableEq, Repr

/-- What the code of an attempt reads and writes. -/
structure Scope where
  services : Services
  phone : Phone
  attempt : Attempt

/-! ## The code of the attempts -/

/-- A dialog needs the context of its screen. -/
def showAlertDialog (alert : Alert) : Chain Scope Error Unit := fun s =>
  if s.attempt.mounted then (.ok (), { s with attempt.alert := some alert })
  else (.error .unmounted, s)

/-- `Navigator.pushAndRemoveUntil` to `HomeScreen`; it removes the screen of the attempt. -/
def navigateHome : Chain Scope Error Unit := fun s =>
  if s.attempt.mounted then
    (.ok (), { s with attempt.home := true, attempt.mounted := false })
  else (.error .unmounted, s)

/-- `_fetchemail` from the answer to its query on. -/
def fetchemail (answer : Except Error (List (Doc User))) : Chain Scope Error Unit :=
  (Chain.completed answer).andThen fun ud s =>
    (.ok (), { s with phone.emailtaken := if ud.length = 0 then some false else some true })

/-- `Signup` up to its next request; its `catch` clause prints. -/
def signup (answer : Except Error (List (Doc User))) : Chain Scope Error Unit :=
  let fetched := (fetchemail answer).andThen fun _ s =>
    if s.phone.emailtaken = some false then
      let email := trim s.phone.fields.email
      let password := trim s.phone.fields.password
      (.ok (), { s with attempt.stage := .creatingUser email password })
    else showAlertDialog (.text "Email is Already Taken!") s
  fetched.onError fun _ => Chain.completed (.ok ())

/-- A success of `createUserWithEmailAndPassword` signs the new user in. -/
def createUser (email password : Text) (answer : Except Error Uid) : Chain Scope Error Uid :=
  (Chain.completed answer).andThen fun uid s =>
    (.ok uid, { s with
      services.accounts := ⟨uid, email, password⟩ :: s.services.accounts
      attempt.signedIn := some uid })

def signIn (answer : Except Error Uid) : Chain Scope Error Uid :=
  (Chain.completed answer).andThen fun uid s =>
    (.ok uid, { s with attempt.signedIn := some uid })

def Fields.user (f : Fields) (id : ℤ) : User where
  id := id
  email := f.email
  name := f.name
  password := f.password
  phone := f.phone
  rate := .value 0

/-- `set` on `users/{uid}`. Its argument is evaluated first; nothing awaits the write. -/
def storeUser (uid : Uid) : Chain Scope Error Unit := fun s =>
  match parse s.phone.fields.id with
  | none => (.error (.format s.phone.fields.id), s)
  | some id =>
      (.ok (), { s with
        services.writing := s.services.writing ++ [⟨uid, s.phone.fields.user id⟩] })

/-- The rest of `Signup`. -/
def signupCreated (email password : Text) (answer : Except Error Uid) :
    Chain Scope Error Unit :=
  let stored := (createUser email password answer).andThen storeUser
  (stored.onError fun e => showAlertDialog (.error e)).whenComplete navigateHome

/-- The LOGIN button from the answer to its sign-in on. The handler of `catchError` returns
a set and no credential, which is an error in itself; the `catch` clause prints. -/
def login (answer : Except Error Uid) : Chain Scope Error Unit :=
  let signedIn := (signIn answer).onError fun e =>
    (showAlertDialog (.error e)).andThen fun _ => Chain.completed (.error .argument)
  (signedIn.andThen fun _ => navigateHome).onError fun _ => Chain.completed (.ok ())

/-! ## The transition system -/

/-- What the service takes a text for. Two texts are the same address to it if they are taken for
the same. -/
abbrev Addressing := Text → Text

inductive Answer where
  | documents (answer : Except Error (List (Doc User)))
  | user (answer : Except Error Uid)

/-- Any request may fail. The query lists the stored documents with the email, and may list
some whose write is under way; a new account has a new uid; a sign-in finds an account with
this address and password. -/
def Stage.Answered (address : Addressing) (services : Services) : Stage → Answer → Prop
  | .fetchingEmail email, .documents (.ok ud) =>
      (∀ d ∈ services.users, d.data.email = email → d ∈ ud) ∧
        ∀ d ∈ ud, d ∈ services.users ++ services.writing ∧ d.data.email = email
  | .fetchingEmail _, .documents (.error _) => True
  | .creatingUser _ _, .user (.ok uid) => ∀ account ∈ services.accounts, account.uid ≠ uid
  | .creatingUser _ _, .user (.error _) => True
  | .signingIn email password, .user (.ok uid) => ∃ account ∈ services.accounts,
      account.uid = uid ∧ address account.email = address email ∧ account.password = password
  | .signingIn _ _, .user (.error _) => True
  | _, _ => False

instance Stage.decidableAnswered (address : Addressing) (services : Services) (stage : Stage)
    (answer : Answer) : Decidable (stage.Answered address services answer) := by
  cases stage <;> rcases answer with (_ | _) | (_ | _) <;> unfold Stage.Answered <;> infer_instance

/-- The code that an answer resumes. -/
def Stage.resume : Stage → Answer → Chain Scope Error Unit
  | .fetchingEmail _, .documents answer => signup answer
  | .creatingUser email password, .user answer => signupCreated email password answer
  | .signingIn _ _, .user answer => login answer
  | _, _ => Chain.completed (.ok ())

structure Entrance where
  services : Services
  phones : ℕ → Phone
  attempts : List Attempt

def Entrance.init : Entrance where
  services := ⟨[], [], []⟩
  phones _ := ⟨⟨[], [], [], [], [], []⟩, none⟩
  attempts := []

inductive Entrance.Event where
  | type (phone : ℕ) (fields : Fields)
  | signUp (phone : ℕ)
  | login (phone : ℕ) (email password : Text)
  | answer (i : ℕ) (result : Answer)
  /-- The screen of the attempt is closed. -/
  | back (i : ℕ)
  /-- The `set` of a document ends. -/
  | wrote (d : Doc User) (ok : Bool)

/-- SIGN UP does nothing more unless the form is valid. -/
def Entrance.Event.Enabled (address : Addressing) (w : Entrance) : Entrance.Event → Prop
  | .signUp phone => (w.phones phone).fields.validate = true
  | .answer i result => ∃ attempt ∈ w.attempts[i]?, attempt.stage.Answered address w.services result
  | .wrote d _ => d ∈ w.services.writing
  | _ => True

instance Entrance.Event.decidableEnabled (address : Addressing) (w : Entrance)
    (event : Entrance.Event) : Decidable (event.Enabled address w) := by
  cases event <;> unfold Entrance.Event.Enabled <;> infer_instance

/-- The screens of a phone whose attempt has entered the app are gone. -/
def Attempt.removedBy (a : Attempt) (other : Attempt) : Attempt :=
  if a.home && a.phone = other.phone then { other with mounted := false } else other

/-- What the attempt works on when its answer arrives. -/
def Entrance.scope (w : Entrance) (attempt : Attempt) : Scope where
  services := w.services
  phone := w.phones attempt.phone
  attempt := { attempt with stage := .ended }

/-- The state after the code of the `i`-th attempt has run. -/
def Entrance.put (w : Entrance) (i phone : ℕ) (s : Scope) : Entrance where
  services := s.services
  phones p := if p = phone then s.phone else w.phones p
  attempts := (w.attempts.set i s.attempt).map s.attempt.removedBy

def Services.set (services : Services) (d : Doc User) : Services :=
  { services with users := d :: services.users.filter fun other => other.id ≠ d.id }

def Entrance.perform (w : Entrance) : Entrance.Event → Entrance
  | .type phone fields => { w with
      phones := fun p => if p = phone then { w.phones p with fields } else w.phones p }
  | .signUp phone => { w with attempts := w.attempts ++
      [{ phone, stage := .fetchingEmail (w.phones phone).fields.email }] }
  | .login phone email password => { w with attempts := w.attempts ++
      [if !password.isEmpty && !email.isEmpty then
        { phone, stage := .signingIn (trim email) (trim password) }
      else
        { phone, stage := .ended,
          alert := some (.text "Please enter Email and Password Correctly") }] }
  | .answer i result =>
      match w.attempts[i]? with
      | some attempt =>
          w.put i attempt.phone (attempt.stage.resume result (w.scope attempt)).2
      | none => w
  | .back i => { w with attempts := w.attempts.modify i fun a => { a with mounted := false } }
  | .wrote d ok =>
      let services := { w.services with writing := w.services.writing.erase d }
      { w with services := if ok then services.set d else services }

def entrance (address : Addressing) : Transition.System Entrance Entrance.Event where
  init := .init
  Enabled w event := event.Enabled address w
  perform := Entrance.perform

instance entrance.decidableEnabled (address : Addressing) (w : Entrance) (event : Entrance.Event) :
    Decidable ((entrance address).Enabled w event) :=
  inferInstanceAs (Decidable (event.Enabled address w))

end Oun
