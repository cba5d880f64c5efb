import Oun.Library.Transition
import Oun.Model.Entrance
import Oun.Model.Handlers

/-! # Submissions and what they announce

The tasks, offers and reports that a session submits. A submission is one `add` with
callbacks chained to its future. They run when Firestore has answered, and every dialog
needs the screen that it belongs to. -/

namespace Oun

open Firestore Regex Future

/-- The dialogs of the callbacks: the alert, and one for each kind of success. -/
inductive Dialog where
  | somethingWentWrong | taskAdded | offerSent | reportRecorded
  deriving DecidableEq, Repr

def Dialog.isSuccess : Dialog → Bool
  | .somethingWentWrong => false
  | _ => true

/-- What the callbacks of a submission read and write: whether its screen is still there, its
open dialog, and the dialogs of success shown so far in the session. -/
structure Page where
  mounted : Bool
  dialog : Option Dialog
  announced : List Dialog
  deriving DecidableEq, Repr

/-! ## The callbacks -/

def showDialog (dialog : Dialog) : Chain Page Error Unit := fun p =>
  if p.mounted then
    (.ok (), { p with
      dialog := some dialog
      announced := if dialog.isSuccess then p.announced ++ [dialog] else p.announced })
  else (.error .unmounted, p)

/-- `then` and `onError` of `SendNewTask`. The handler returns the future of its alert, so that
what is chained next waits for the alert; the value says whether there is one. -/
def newTaskSettled (answer : Except Error Unit) : Chain Page Error Bool :=
  ((Chain.completed answer).andThen fun _ => Chain.completed (.ok false)).onError fun _ =>
    (showDialog .somethingWentWrong).andThen fun _ => Chain.completed (.ok true)

/-- The `whenComplete` of `SendNewTask`. -/
def newTaskCompleted (result : Except Error Unit) : Chain Page Error Unit :=
  (Chain.completed result).whenComplete (showDialog .taskAdded)

def newTaskAnswered (answer : Except Error Unit) : Chain Page Error Unit := fun p =>
  match newTaskSettled answer p with
  | (.ok true, p) => (.ok (), p)
  | (.ok false, p) => newTaskCompleted (.ok ()) p
  | (.error e, p) => newTaskCompleted (.error e) p

def offerAnswered (answer : Except Error Unit) : Chain Page Error Unit :=
  (Chain.completed answer).whenComplete (showDialog .offerSent)

def reportAnswered (answer : Except Error Unit) : Chain Page Error Unit :=
  (Chain.completed answer).whenComplete (showDialog .reportRecorded)

/-- The callbacks that are chained to an `add`; the notification of an offer has none. -/
def Write.answered : Write → Except Error Unit → Chain Page Error Unit
  | .addTask _ => newTaskAnswered
  | .addOffer _ => offerAnswered
  | .addViolation _ => reportAnswered
  | _ => Chain.completed

/-! ## The transition system -/

/-- An `add` and the screen of its handler. `answer`: what Firestore has answered, if it has. -/
structure Submission where
  screen : ℕ
  write : Write
  answer : Option Bool := none
  dialog : Option Dialog := none
  deriving DecidableEq, Repr

/-- The store, the texts of `TitleCo` and `DescCo`, the screens that are gone, and the
submissions of the session. -/
structure Desk where
  store : Store
  title : Text
  description : Text
  left : List ℕ
  submissions : List Submission
  announced : List Dialog

inductive Desk.Event where
  | type (title description : Text)
  | sendNewTask (screen : ℕ) (uid : Uid) (city : City) (category : Category)
  | addOffer (screen : ℕ) (uid : Uid) (furniture : Furniture) (price : Text)
  | report (screen : ℕ) (uid : Uid) (furniture : Furniture) (reason : Reason)
  | answer (i : ℕ) (ok : Bool)
  /-- The open dialog is closed, or hides itself. -/
  | dismiss (i : ℕ)
  /-- OK is pressed on "Task Added". -/
  | ok (i : ℕ)
  /-- The screen is closed. -/
  | leave (screen : ℕ)
  deriving DecidableEq, Repr

/-- A button needs its screen and a valid form. -/
def Desk.Event.Enabled (d : Desk) : Desk.Event → Prop
  | .sendNewTask screen _ _ _ => screen ∉ d.left ∧
      titleValidator d.title = none ∧ descriptionValidator d.description = none
  | .addOffer screen _ _ price => screen ∉ d.left ∧ priceValidator price = none
  | .report screen _ _ _ => screen ∉ d.left
  | .answer i _ => ∃ s ∈ d.submissions[i]?, s.answer = none
  | .dismiss i => ∃ s ∈ d.submissions[i]?, s.dialog ≠ none
  | .ok i => ∃ s ∈ d.submissions[i]?, s.dialog = some .taskAdded
  | _ => True

instance Desk.Event.decidableEnabled (d : Desk) (event : Desk.Event) :
    Decidable (event.Enabled d) := by
  apply Desk.Event.casesOn (motive := fun e => Decidable (e.Enabled d)) event <;> intros <;>
    unfold Desk.Event.Enabled <;> infer_instance

def Desk.submit (d : Desk) (screen : ℕ) (calls : List Call) : Desk :=
  { d with submissions := d.submissions ++ calls.map fun c => { screen, write := c.write } }

def Desk.page (d : Desk) (s : Submission) : Page where
  mounted := s.screen ∉ d.left
  dialog := none
  announced := d.announced

/-- The state after callbacks of the `i`-th submission have run. -/
def Desk.put (d : Desk) (i : ℕ) (s : Submission) (p : Page) : Desk :=
  { d with submissions := d.submissions.set i { s with dialog := p.dialog }
           announced := p.announced }

/-- Firestore answers: a successful `add` has stored its document. -/
def Desk.answer (d : Desk) (i : ℕ) (s : Submission) (ok : Bool) : Desk :=
  let result := if ok then .ok () else .error (.firebase "")
  { d with store := if ok then s.write.apply d.store else d.store }.put i
    { s with answer := some ok } (s.write.answered result (d.page s)).2

/-- A closed dialog completes the future of an alert, for which `whenComplete` has waited. -/
def Desk.dismiss (d : Desk) (i : ℕ) (s : Submission) : Desk :=
  if s.dialog = some .somethingWentWrong then
    d.put i s (newTaskCompleted (.ok ()) (d.page s)).2
  else d.put i s (d.page s)

/-- `btnOkOnPress` of "Task Added": it also closes the screen. -/
def Desk.ok (d : Desk) (i : ℕ) (s : Submission) : Desk :=
  { d with title := [], description := [], left := s.screen :: d.left }.put i s (d.page s)

def Desk.withSubmission (d : Desk) (i : ℕ) (f : Submission → Desk) : Desk :=
  match d.submissions[i]? with
  | some s => f s
  | none => d

def Desk.perform (d : Desk) : Desk.Event → Desk
  | .type title description => { d with title, description }
  | .sendNewTask screen uid city category =>
      d.submit screen (Oun.sendNewTask uid d.title d.description city category)
  | .addOffer screen uid furniture price => d.submit screen (Oun.addOffer furniture uid price)
  | .report screen uid furniture reason => d.submit screen (Oun.report furniture uid reason)
  | .answer i ok => d.withSubmission i fun s => d.answer i s ok
  | .dismiss i => d.withSubmission i (d.dismiss i)
  | .ok i => d.withSubmission i (d.ok i)
  | .leave screen => { d with left := screen :: d.left }

/-- A session that starts on a given store. -/
def desk (s : Store) : Transition.System Desk Desk.Event where
  init := ⟨s, [], [], [], [], []⟩
  Enabled d event := event.Enabled d
  perform := Desk.perform

instance desk.decidableEnabled (s : Store) (d : Desk) (event : Desk.Event) :
    Decidable ((desk s).Enabled d event) :=
  inferInstanceAs (Decidable (event.Enabled d))

end Oun
