import Oun.Model.Store

/-! # The code of the handlers

Every handler of the task screens is a function of what its queries returned and of the
values it captured; it answers a question or lists the writes it issues, in the order it
issues them. -/

namespace Oun

open Firestore Regex

/-- A task as the list screens hand it to the detail screen. -/
structure Furniture where
  id : DocId
  author : Uid
  title : Text
  description : Text
  city : City
  price : Text := []
  quantity : ℤ := 1
  isFavorite : Bool := false
  deriving DecidableEq, Repr

/-- The list screens build the object from the fields of the task document. -/
def Furniture.ofDoc (d : Doc Task) : Furniture where
  id := d.id
  author := d.data.author
  title := d.data.title
  description := d.data.description
  city := d.data.city

/-- An entry of the offers list: `price1`, `prov` and `id` of its builder. -/
structure Item where
  pri : Text
  prov : Uid
  offerId : DocId
  deriving DecidableEq, Repr

def Item.ofDoc (d : Doc Offer) : Item := ⟨d.data.price, d.data.provider, d.id⟩

/-! ## Questions -/

/-- `documents`: the violations of the task. -/
def noReported (documents : List (Doc Violation)) (uid : Uid) : Bool :=
  documents.foldl (fun count d => if d.data.reporter = uid then count + 1 else count) 0 == 0

/-- `documents`: the offers on the task. Despite its name, true when there is none yet. -/
def hasOffered (documents : List (Doc Offer)) (uid : Uid) : Bool :=
  documents.foldl (fun count d => if d.data.provider = uid then count + 1 else count) 0 == 0

/-- `documents`: the notifications of the task. Besides its answer it leaves the user of
the last match in the library variable `provider`; `none` is the initial empty text. -/
def isAccepted (documents : List (Doc Notif)) (provider : Option Uid) : Bool × Option Uid :=
  let (count, provider) := documents.foldl (fun (count, provider) d =>
    if d.data.status = .accepted then (count + 1, some d.data.user) else (count, provider))
    (0, provider)
  (count == 1, provider)

/-- `isaccepted` of the My Tasks list. `documents`: the notifications with status
`accepted`, of all tasks. -/
def listIsAccepted (documents : List (Doc Notif)) (taskId : DocId) : Bool :=
  documents.foldl (fun isaccepted d => if d.data.task = taskId then true else isaccepted) false

/-- `documents`: the ratings of the task. -/
def israted (documents : List (Doc Rate)) : Bool :=
  if documents.length = 0 then false else true

/-- The number on the notification badge; at 0 there is none. `documents`: the notifications
of the user. -/
def badge (documents : List (Doc Notif)) : ℕ :=
  documents.foldl (fun count d => if d.data.new = true then count + 1 else count) 0

def noData : Text := text ['N', 'O', ' ', 'D', 'A', 'T', 'A']

/-- `documents`: the offers on the task. The argument `prov` of the source is not used;
the library variable `provider` is. -/
def fetchPrice : List (Doc Offer) → Option Uid → Text
  | [], _ => noData
  | d :: documents, provider =>
      if some d.data.provider = provider then d.data.price else fetchPrice documents provider

/-! ## Validators -/

/-- `(10[0-9]|1[1-9]\d|[2-9]\d\d|[1-9]\d\d\d|[1-9]\d\d\d\d|[5-9]\d)$` -/
def pricePattern : Pattern :=
  inOrder [anyOf [
      inOrder [word ['1', '0'], digit],
      inOrder [char '1', range '1' '9', digit],
      inOrder [range '2' '9', digit, digit],
      inOrder [range '1' '9', digit, digit, digit],
      inOrder [range '1' '9', digit, digit, digit, digit],
      inOrder [range '5' '9', digit]],
    .lineEnd]

def priceValidator (value : Text) : Option String :=
  if value.isEmpty then some "Price cannot be Empty!"
  else if !pricePattern.hasMatch value then some "between 50-99999 only'"
  else none

def titleValidator (value : Text) : Option String :=
  if value.isEmpty || value.length < 10 then
    some "The Title Must be at least 10 characters Long"
  else none

def descriptionValidator (value : Text) : Option String :=
  if value.isEmpty || value.length < 10 then
    some "The Description Must be at least 10 characters Long"
  else none

/-! ## Issued writes -/

/-- A write that a handler issues, whether the handler awaits it, and the offer it is
about; the last is not in the source and only read by statements about runs. -/
structure Call where
  write : Write
  awaited : Bool
  about : Option DocId
  deriving DecidableEq, Repr

def sendNewTask (uid : Uid) (title description : Text) (city : City) (category : Category) :
    List Call :=
  [⟨.addTask { author := uid, title, description, city, category }, true, none⟩]

/-- The ADD button of the offer dialog. -/
def addOffer (furniture : Furniture) (uid : Uid) (price : Text) : List Call :=
  [⟨.addOffer { task := furniture.id, provider := uid, taskOwner := furniture.author, price },
      false, none⟩,
    ⟨.addNotif { user := furniture.author, new := true, task := furniture.id, status := .added },
      false, none⟩]

/-- The Accept handler on the offers it has read. -/
def accept (taskId : DocId) (item : Item) (documents : List (Doc Offer)) : List Call :=
  documents.flatMap fun d =>
    if d.id ≠ item.offerId then
      [⟨.deleteOffer d.id, false, some d.id⟩,
        ⟨.addNotif { user := d.data.provider, task := taskId, status := .rejected, new := true },
          false, some d.id⟩]
    else
      [⟨.addNotif { user := item.prov, task := taskId, status := .accepted, new := true },
        false, some item.offerId⟩]

def reject (taskId : DocId) (item : Item) : List Call :=
  [⟨.deleteOffer item.offerId, true, some item.offerId⟩,
    ⟨.addNotif { user := item.prov, task := taskId, status := .rejected, new := true },
      true, some item.offerId⟩]

/-- The Submit button of the report dialog. -/
def report (furniture : Furniture) (uid : Uid) (reason : Reason) : List Call :=
  [⟨.addViolation {
      taskTitle := furniture.title, taskId := furniture.id, reporter := uid, reason },
    true, none⟩]

def allRates (documents : List (Doc Rate)) : ℚ :=
  documents.foldl (fun sum d => sum + (d.data.rate.val : ℚ)) 0

/-- What the rating handler writes to the user. `snapshot`: the ratings of the user that
the stream had delivered when the rating bar was drawn, if it had delivered any. -/
def newRate (snapshot : Option (List (Doc Rate))) (rating : Stars) : Double :=
  match snapshot with
  | some documents => .div (allRates documents) documents.length
  | none => .value rating.val

/-- The Rate button, in the branches with and without data. -/
def rate (furniture : Furniture) (snapshot : Option (List (Doc Rate))) (provider : Uid)
    (rating : Stars) : List Call :=
  [⟨.addRate { rate := rating, task := furniture.id, user := provider }, false, none⟩,
    ⟨.updateRate provider (newRate snapshot rating), false, none⟩]

/-! ## Writes that fail -/

/-- The store after the issued writes of which the `i`-th one succeeds if `ok i`. A failed
write changes nothing; if it was awaited, the handler ends there. -/
def attempt (ok : ℕ → Bool) : List Call → Store → Store
  | [], s => s
  | call :: calls, s =>
      if ok 0 then attempt (fun i => ok (i + 1)) calls (call.write.apply s)
      else if call.awaited then s
      else attempt (fun i => ok (i + 1)) calls s

/-- The store after a complete run. -/
def complete (calls : List Call) (s : Store) : Store :=
  attempt (fun _ => true) calls s

end Oun
