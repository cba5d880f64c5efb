import Oun.Library.Transition
import Oun.Model.Handlers

/-! # Sessions and interleavings

Any number of app sessions share one store. A session opens detail screens, its presses
start handlers, and a handler moves on by single steps: the answer to a query, a press in
its dialog, or the next of its writes taking effect. The steps of all sessions interleave
freely. Every answer lists the matching documents of the state in which the query ran, in
any order. -/

namespace Oun

open Firestore Regex

abbrev SessionId := ℕ

/-- What an issued list of writes belongs to, with the values its handler captured. -/
inductive Job where
  | newTask
  | offer
  | accept (taskId : DocId) (item : Item)
  | reject (taskId : DocId) (item : Item)
  | report
  | rating (snapshot : Option (List (Doc Rate))) (provider : Uid) (rating : Stars)
  deriving DecidableEq, Repr

/-- A handler between two of its steps: it waits for the answer to a query, shows a
dialog, or has issued writes that have not yet taken effect. -/
inductive Handler where
  | hasOffered (furniture : Furniture)
  | offerDialog (furniture : Furniture)
  | acceptDialog (taskId : DocId) (item : Item)
  | acceptGet (taskId : DocId) (item : Item)
  | rejectDialog (taskId : DocId) (item : Item)
  | noReported (furniture : Furniture)
  | reportDialog (furniture : Furniture)
  | ratingDialog (session : SessionId) (furniture : Furniture)
      (snapshot : Option (List (Doc Rate)))
  | writing (job : Job) (calls : List Call)
  | done
  deriving DecidableEq, Repr

/-- What moves a handler on, other than its writes. -/
inductive Input where
  | offers (documents : List (Doc Offer))
  | violations (documents : List (Doc Violation))
  | add (price : Text)
  | ok
  | submit (reason : Reason)
  | rate (provider : Uid) (rating : Stars)
  | dismiss
  deriving DecidableEq, Repr

def Handler.isDialog : Handler → Bool
  | .offerDialog _ | .acceptDialog .. | .rejectDialog .. | .reportDialog _
  | .ratingDialog .. => true
  | _ => false

/-- Queries are answered from the store; a press in the offer dialog is validated. -/
def Handler.Enabled (s : Store) : Handler → Input → Prop
  | .hasOffered furniture, .offers documents =>
      documents.Perm (s.offers.whereEqualTo Offer.task furniture.id)
  | .offerDialog _, .add price => priceValidator price = none
  | .acceptDialog .., .ok => True
  | .acceptGet taskId _, .offers documents =>
      documents.Perm (s.offers.whereEqualTo Offer.task taskId)
  | .rejectDialog .., .ok => True
  | .noReported furniture, .violations documents =>
      documents.Perm (s.violations.whereEqualTo Violation.taskId furniture.id)
  | .reportDialog _, .submit _ => True
  | .ratingDialog .., .rate .. => True
  | handler, .dismiss => handler.isDialog = true
  | _, _ => False

instance (s : Store) (handler : Handler) (input : Input) :
    Decidable (handler.Enabled s input) := by
  cases handler <;> cases input <;> unfold Handler.Enabled <;> infer_instance

/-- The writes that a handler of the user `uid` issues on an input. -/
def Handler.issued (uid : Uid) : Handler → Input → List Call
  | .offerDialog furniture, .add price => addOffer furniture uid price
  | .acceptGet taskId item, .offers documents => accept taskId item documents
  | .rejectDialog taskId item, .ok => reject taskId item
  | .reportDialog furniture, .submit reason => report furniture uid reason
  | .ratingDialog _ furniture snapshot, .rate provider rating =>
      Oun.rate furniture snapshot provider rating
  | _, _ => []

def Handler.next (uid : Uid) : Handler → Input → Handler
  | .hasOffered furniture, .offers documents =>
      if Oun.hasOffered documents uid then .offerDialog furniture else .done
  | .offerDialog furniture, .add price => .writing .offer (addOffer furniture uid price)
  | .acceptDialog taskId item, .ok => .acceptGet taskId item
  | .acceptGet taskId item, .offers documents =>
      .writing (.accept taskId item) (accept taskId item documents)
  | .rejectDialog taskId item, .ok => .writing (.reject taskId item) (reject taskId item)
  | .noReported furniture, .violations documents =>
      if Oun.noReported documents uid then .reportDialog furniture else .done
  | .reportDialog furniture, .submit reason => .writing .report (report furniture uid reason)
  | .ratingDialog _ furniture snapshot, .rate provider rating =>
      .writing (.rating snapshot provider rating) (Oun.rate furniture snapshot provider rating)
  | handler, .dismiss => if handler.isDialog then .done else handler
  | handler, _ => handler

/-- The issued writes that have not yet taken effect. -/
def Handler.calls : Handler → List Call
  | .writing _ calls => calls
  | _ => []

/-- A handler and the user signed in where it runs. -/
structure Process where
  uid : Uid
  handler : Handler
  deriving DecidableEq, Repr

/-- The rating bar: the user whose ratings it listens to, and what has arrived of them. -/
structure RateBar where
  user : Uid
  snapshot : Option (List (Doc Rate))
  deriving DecidableEq, Repr

/-- A detail screen. `pending` counts the `isAccepted()` futures that have not completed;
they outlive the screen. `accepted` is the last answer and decides what is drawn. -/
structure Screen where
  session : SessionId
  uid : Uid
  furniture : Furniture
  isOpen : Bool
  pending : ℕ
  accepted : Option Bool
  offers : List (Doc Offer)
  rateBar : Option RateBar
  deriving DecidableEq, Repr

/-- The `FutureBuilder`s over `isAccepted()`: the chip and, for the author, the heading
and the details, else the OFFER button. -/
def acceptedFutures (uid author : Uid) : ℕ :=
  if uid = author then 3 else 2

/-- The signed-in user and the library variables `provider` and `rating`. -/
structure Session where
  user : Option Uid
  provider : Option Uid
  rating : Option Stars
  deriving DecidableEq, Repr

/-- A write that has taken effect: who wrote, and the id of the document. -/
structure Event where
  uid : Uid
  call : Call
  id : DocId
  deriving DecidableEq, Repr

/-- The store, the sessions and what they have in flight. `log` is not read by the app;
statements about runs use it. -/
structure World where
  store : Store
  sessions : SessionId → Session
  screens : List Screen
  processes : List Process
  log : List Event

def World.init : World := ⟨.empty, fun _ => ⟨none, none, none⟩, [], [], []⟩

inductive Action where
  | signUp (uid : Uid) (user : User)
  | signIn (session : SessionId) (uid : Uid)
  | sendNewTask (session : SessionId) (title description : Text) (city : City)
      (category : Category)
  | openScreen (session : SessionId) (task : Doc Task)
  | closeScreen (screen : ℕ)
  | build (screen : ℕ)
  | isAccepted (screen : ℕ) (documents : List (Doc Notif))
  | offersEvent (screen : ℕ) (documents : List (Doc Offer))
  | pressOffer (screen : ℕ)
  | pressAccept (screen : ℕ) (offer : Doc Offer)
  | pressReject (screen : ℕ) (offer : Doc Offer)
  | pressReport (screen : ℕ)
  | israted (screen : ℕ) (documents : List (Doc Rate))
  | rateEvent (screen : ℕ) (documents : List (Doc Rate))
  | pressRate (screen : ℕ) (rating : Stars)
  | openNotifications (session : SessionId)
  | process (process : ℕ) (input : Input)
  | write (process : ℕ)
  deriving DecidableEq, Repr

/-! ## Which actions are possible -/

def World.OnScreen (w : World) (i : ℕ) (P : Screen → Prop) : Prop :=
  match w.screens[i]? with
  | some screen => P screen
  | none => False

instance (w : World) (i : ℕ) (P : Screen → Prop) [DecidablePred P] :
    Decidable (w.OnScreen i P) := by
  unfold World.OnScreen; cases w.screens[i]? <;> infer_instance

def World.OnProcess (w : World) (k : ℕ) (P : Process → Prop) : Prop :=
  match w.processes[k]? with
  | some process => P process
  | none => False

instance (w : World) (k : ℕ) (P : Process → Prop) [DecidablePred P] :
    Decidable (w.OnProcess k P) := by
  unfold World.OnProcess; cases w.processes[k]? <;> infer_instance

/-- The rating handler reads the library variables of its session when Rate is pressed. -/
def World.Reads (w : World) : Handler → Input → Prop
  | .ratingDialog session .., .rate provider rating =>
      (w.sessions session).provider = some provider ∧ (w.sessions session).rating = some rating
  | _, _ => True

instance (w : World) (handler : Handler) (input : Input) : Decidable (w.Reads handler input) := by
  cases handler <;> cases input <;> unfold World.Reads <;> infer_instance

/-- The owner's screen of a task that was not accepted when the screen asked. -/
def Screen.showsOffers (screen : Screen) : Prop :=
  screen.isOpen = true ∧ screen.uid = screen.furniture.author ∧ screen.accepted = some false

instance (screen : Screen) : Decidable screen.showsOffers := by
  unfold Screen.showsOffers; infer_instance

/-- An entry of the offers list is drawn once the provider's name and rate are there. -/
def Screen.showsOffer (users : Uid → Option User) (offer : Doc Offer) (screen : Screen) : Prop :=
  screen.showsOffers ∧ offer ∈ screen.offers ∧ (users offer.data.provider).isSome

instance (users : Uid → Option User) (offer : Doc Offer) (screen : Screen) :
    Decidable (screen.showsOffer users offer) := by
  unfold Screen.showsOffer; infer_instance

/-- The owner's screen of an accepted task, with the provider's data arrived. -/
def World.showsDetails (w : World) (screen : Screen) : Prop :=
  screen.isOpen = true ∧ screen.uid = screen.furniture.author ∧ screen.accepted = some true ∧
    ((w.sessions screen.session).provider.bind w.store.users).isSome

instance (w : World) (screen : Screen) : Decidable (w.showsDetails screen) := by
  unfold World.showsDetails; infer_instance

def Enabled (w : World) : Action → Prop
  | .signUp uid _ => (w.store.users uid).isNone
  | .signIn session _ => ∀ screen ∈ w.screens, screen.isOpen = true → screen.session ≠ session
  | .sendNewTask session title description _ _ => (w.sessions session).user.isSome ∧
      titleValidator title = none ∧ descriptionValidator description = none
  | .openScreen session task => (w.sessions session).user.isSome ∧ task ∈ w.store.tasks.docs
  | .closeScreen i => w.OnScreen i fun screen => screen.isOpen = true
  | .build i => w.OnScreen i fun screen => screen.isOpen = true
  | .isAccepted i documents => w.OnScreen i fun screen => 0 < screen.pending ∧
      documents.Perm (w.store.notifs.whereEqualTo Notif.task screen.furniture.id)
  | .offersEvent i documents => w.OnScreen i fun screen => screen.showsOffers ∧
      documents.Perm (w.store.offers.whereEqualTo Offer.task screen.furniture.id)
  | .pressOffer i => w.OnScreen i fun screen => screen.isOpen = true ∧
      screen.uid ≠ screen.furniture.author ∧ screen.accepted = some false
  | .pressAccept i offer => w.OnScreen i (Screen.showsOffer w.store.users offer)
  | .pressReject i offer => w.OnScreen i (Screen.showsOffer w.store.users offer)
  | .pressReport i => w.OnScreen i fun screen => screen.isOpen = true ∧
      screen.furniture.author ≠ screen.uid
  | .israted i documents => w.OnScreen i fun screen => w.showsDetails screen ∧
      documents.Perm (w.store.rate.whereEqualTo Rate.task screen.furniture.id)
  | .rateEvent i documents => w.OnScreen i fun screen => screen.isOpen = true ∧
      ∃ bar ∈ screen.rateBar, documents.Perm (w.store.rate.whereEqualTo Rate.user bar.user)
  | .pressRate i _ => w.OnScreen i fun screen => screen.isOpen = true ∧ screen.rateBar.isSome
  | .openNotifications session => (w.sessions session).user.isSome
  | .process k input => w.OnProcess k fun process =>
      process.handler.Enabled w.store input ∧ w.Reads process.handler input
  | .write k => w.OnProcess k fun process => process.handler.calls ≠ []

instance (w : World) (a : Action) : Decidable (Enabled w a) := by
  cases a <;> unfold Enabled <;> infer_instance

/-! ## What actions do -/

def World.updateSession (w : World) (session : SessionId) (f : Session → Session) : World :=
  { w with sessions := fun s => if s = session then f (w.sessions s) else w.sessions s }

def World.updateScreen (w : World) (i : ℕ) (screen : Screen) : World :=
  { w with screens := w.screens.set i screen }

def World.spawn (w : World) (uid : Uid) (handler : Handler) : World :=
  { w with processes := w.processes ++ [⟨uid, handler⟩] }

def World.withScreen (w : World) (i : ℕ) (f : Screen → World) : World :=
  match w.screens[i]? with
  | some screen => f screen
  | none => w

def World.signUp (w : World) (uid : Uid) (user : User) : World :=
  { w with store := { w.store with
      users := fun u => if u = uid then some { user with rate := .value 0 } else w.store.users u } }

/-- A screen opens and builds, and its `isAccepted()` futures start. -/
def World.openScreen (w : World) (session : SessionId) (uid : Uid) (task : Doc Task) : World :=
  { w with screens := w.screens ++ [{
      session, uid, furniture := .ofDoc task, isOpen := true,
      pending := acceptedFutures uid task.data.author,
      accepted := none, offers := [], rateBar := none }] }

/-- An `isAccepted()` future completes: it sets `provider` and, if the screen is still
there, what the screen draws. -/
def World.acceptedCompletes (w : World) (i : ℕ) (screen : Screen)
    (documents : List (Doc Notif)) : World :=
  let (answer, provider) := isAccepted documents (w.sessions screen.session).provider
  (w.updateSession screen.session fun s => { s with provider }).updateScreen i
    { screen with
      pending := screen.pending - 1
      accepted := if screen.isOpen then some answer else screen.accepted }

/-- `israted()` completes: the rating bar is drawn, on the ratings of the current
`provider`, or removed. A rebuilt `StreamBuilder` keeps the data it had. -/
def World.ratedCompletes (w : World) (i : ℕ) (screen : Screen)
    (documents : List (Doc Rate)) : World :=
  w.updateScreen i { screen with
    rateBar := if israted documents then none else
      (w.sessions screen.session).provider.map fun user =>
        ⟨user, screen.rateBar.bind RateBar.snapshot⟩ }

def World.write (w : World) (k : ℕ) : World :=
  match w.processes[k]? with
  | some ⟨uid, .writing job (call :: calls)⟩ =>
      { w with
        store := call.write.apply w.store
        processes := w.processes.set k ⟨uid, .writing job calls⟩
        log := w.log ++ [⟨uid, call, call.write.docId w.store⟩] }
  | _ => w

def World.process (w : World) (k : ℕ) (input : Input) : World :=
  match w.processes[k]? with
  | some ⟨uid, handler⟩ => { w with processes := w.processes.set k ⟨uid, handler.next uid input⟩ }
  | none => w

def perform (w : World) : Action → World
  | .signUp uid user => w.signUp uid user
  | .signIn session uid => w.updateSession session fun s => { s with user := some uid }
  | .sendNewTask session title description city category =>
      match (w.sessions session).user with
      | some uid =>
          w.spawn uid (.writing .newTask (sendNewTask uid title description city category))
      | none => w
  | .openScreen session task =>
      match (w.sessions session).user with
      | some uid => w.openScreen session uid task
      | none => w
  | .closeScreen i => w.withScreen i fun screen => w.updateScreen i { screen with isOpen := false }
  | .build i => w.withScreen i fun screen => w.updateScreen i { screen with
      pending := screen.pending + acceptedFutures screen.uid screen.furniture.author }
  | .isAccepted i documents => w.withScreen i fun screen =>
      w.acceptedCompletes i screen documents
  | .offersEvent i documents => w.withScreen i fun screen =>
      w.updateScreen i { screen with offers := documents }
  | .pressOffer i => w.withScreen i fun screen => w.spawn screen.uid (.hasOffered screen.furniture)
  | .pressAccept i offer => w.withScreen i fun screen =>
      w.spawn screen.uid (.acceptDialog screen.furniture.id (.ofDoc offer))
  | .pressReject i offer => w.withScreen i fun screen =>
      w.spawn screen.uid (.rejectDialog screen.furniture.id (.ofDoc offer))
  | .pressReport i => w.withScreen i fun screen =>
      w.spawn screen.uid (.noReported screen.furniture)
  | .israted i documents => w.withScreen i fun screen => w.ratedCompletes i screen documents
  | .rateEvent i documents => w.withScreen i fun screen => w.updateScreen i { screen with
      rateBar := screen.rateBar.map fun bar => { bar with snapshot := some documents } }
  | .pressRate i rating => w.withScreen i fun screen =>
      (w.updateSession screen.session fun s => { s with rating := some rating }).spawn screen.uid
        (.ratingDialog screen.session screen.furniture
          (screen.rateBar.bind RateBar.snapshot))
  | .openNotifications _ => w
  | .process k input => w.process k input
  | .write k => w.write k

/-- The app: any number of sessions on one store. -/
def app : Transition.System World Action := ⟨World.init, Enabled, perform⟩

end Oun
