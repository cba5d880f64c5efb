import Oun.Library.Numeral
import Oun.Model.Handlers

/-! # The list screens

Every list has one entry for each document of its query. An entry that reads a field which its
document does not have throws and is not built. -/

namespace Oun

open Firestore Regex Numeral

/-- The entries of the category list on the new-task screen. -/
def Category.name : Category → Text
  | .maintenance => text ['m', 'a', 'i', 'n', 't', 'e', 'n', 'a', 'n', 'c', 'e']
  | .food => text ['F', 'o', 'o', 'd']
  | .errands => text ['E', 'r', 'r', 'a', 'n', 'd', 's']
  | .construction => text ['C', 'o', 'n', 's', 't', 'r', 'u', 'c', 't', 'i', 'o', 'n']
  | .computersAndIT =>
      text ['C', 'o', 'm', 'p', 'u', 't', 'e', 'r', 's', ' ', 'a', 'n', 'd', ' ', 'I', 'T']
  | .transport => text ['T', 'r', 'a', 'n', 's', 'p', 'o', 'r', 't']
  | .otherTasks => text ['O', 't', 'h', 'e', 'r', ' ', 'T', 'a', 's', 'k', 's']

/-- A picture in `assets/images/`. -/
def picture (name : Text) : Text :=
  text ['a', 's', 's', 'e', 't', 's', '/', 'i', 'm', 'a', 'g', 'e', 's', '/'] ++ name ++
    text ['.', 'p', 'n', 'g']

/-- `IMGtoJPG` -/
def imgToJpg (source : Text) : Text :=
  if source = text ['C', 'o', 'm', 'p', 'u', 't', 'e', 'r', 's', ' ', 'a', 'n', 'd', ' ', 'I', 'T']
  then picture (text ['I', 'T'])
  else if source = text ['O', 't', 'h', 'e', 'r', ' ', 'T', 'a', 's', 'k', 's']
  then picture (text ['O', 't', 'h', 'e', 'r'])
  else picture source

/-- What reading a document throws. -/
inductive StateError where
  | noDocument
  | noField
  deriving DecidableEq, Repr

/-- What an entry shows of a task, and the task that a tap on it opens. -/
structure Tile where
  furniture : Furniture
  image : Text
  deriving DecidableEq, Repr

def Tile.ofDoc (price : Text) (d : Doc Task) : Tile where
  furniture := { Furniture.ofDoc d with price }
  image := imgToJpg d.data.category.name

/-- The same from a snapshot of one document, which need not exist. -/
def Tile.ofSnapshot (price : Text) : Option (Doc Task) → Except StateError Tile
  | some d => .ok (.ofDoc price d)
  | none => .error .noDocument

/-- `collection('tasks').doc(id)` -/
def taskDoc (s : Store) (id : DocId) : Option (Doc Task) :=
  s.tasks.docs.find? fun d => d.id = id

/-! ## The list view -/

/-- `taskId` is read only if `offer` is true. -/
structure FurnitureListView where
  cat : Option Text := none
  offer : Option Bool := none
  taskId : DocId := 0

inductive Document where
  | task (d : Doc Task)
  | offer (d : Doc Offer)

inductive Entry where
  | task (tile : Tile)
  | offer (item : Item)
  | noTasks
  deriving DecidableEq, Repr

namespace FurnitureListView

def mainstream (v : FurnitureListView) (s : Store) : List Document :=
  match v.cat with
  | none => s.tasks.docs.map .task
  | some cat =>
      if v.offer = some true then (s.offers.whereEqualTo Offer.task v.taskId).map .offer
      else (s.tasks.whereEqualTo (fun t => t.category.name) (trim cat)).map .task

/-- An offer has no `title`, a task no `price`. -/
def itemBuilder (v : FurnitureListView) (length : ℕ) (document : Document) :
    Except StateError Entry :=
  if length > 0 ∧ v.offer = none then
    match document with
    | .task d => .ok (.task (.ofDoc [] d))
    | .offer _ => .error .noField
  else if length > 0 ∧ v.offer = some true then
    match document with
    | .offer d => .ok (.offer (.ofDoc d))
    | .task _ => .error .noField
  else .ok .noTasks

def build (v : FurnitureListView) (s : Store) : List (Except StateError Entry) :=
  let docs := v.mainstream s
  docs.map (v.itemBuilder docs.length)

end FurnitureListView

def getAll : FurnitureListView := {}

def getByCategory (cat : Text) : FurnitureListView := { cat := some cat }

/-- The tabs of the home screen. -/
def tabs : List FurnitureListView :=
  [getAll,
    getByCategory (text ['E', 'r', 'r', 'a', 'n', 'd', 's']),
    getByCategory
      (text ['C', 'o', 'm', 'p', 'u', 't', 'e', 'r', 's', ' ', 'a', 'n', 'd', ' ', 'I', 'T']),
    getByCategory (text ['C', 'o', 'n', 's', 't', 'r', 'u', 'c', 't', 'i', 'o', 'n']),
    getByCategory (text ['m', 'a', 'i', 'n', 't', 'e', 'n', 'a', 'n', 'c', 'e']),
    getByCategory (text ['F', 'o', 'o', 'd']),
    getByCategory (text ['T', 'r', 'a', 'n', 's', 'p', 'o', 'r', 't']),
    getByCategory (text ['O', 't', 'h', 'e', 'r', ' ', 'T', 'a', 's', 'k', 's'])]

/-- The offers on the detail screen. -/
def getOffers (furniture : Furniture) : FurnitureListView :=
  { cat := some (text ['a']), offer := some true, taskId := furniture.id }

/-! ## Notifications, my tasks and my offers -/

/-- `type` of `_listViewItem`. -/
def Status.type : Status → ℕ
  | .rejected => 0
  | .accepted => 1
  | .added => 2

/-- An entry of the notifications screen, from the notification and the snapshot of its task. -/
def notice (n : Notif) (snapshot : Option (Doc Task)) : Except StateError (Tile × ℕ) := do
  let tile ← Tile.ofSnapshot (text ['3', '3']) snapshot
  return (tile, n.status.type)

/-- `documents`: the notifications of the user. -/
def notifi (documents : List (Doc Notif)) (s : Store) : List (Except StateError (Tile × ℕ)) :=
  documents.map fun d => notice d.data (taskDoc s d.data.task)

/-- The number on the chip. `documents`: the offers on the task. -/
def offersCount (documents : List (Doc Offer)) (taskId : DocId) : ℕ :=
  documents.foldl (fun count d => if d.data.task = taskId then count + 1 else count) 0

/-- The chips of an entry of My Tasks: the number of offers, and whether one is accepted. -/
structure Chips where
  count : ℕ
  isaccepted : Bool
  deriving DecidableEq, Repr

/-- Only the author of a task sees its chips. -/
def chips (uid : Uid) (d : Doc Task) (s : Store) : Option Chips :=
  if d.data.author = uid then
    some ⟨offersCount (s.offers.whereEqualTo Offer.task d.id) d.id,
      listIsAccepted (s.notifs.whereEqualTo Notif.status .accepted) d.id⟩
  else none

/-- `documents`: the tasks of the user. -/
def myTasks (uid : Uid) (documents : List (Doc Task)) (s : Store) : List (Tile × Option Chips) :=
  documents.map fun d => (.ofDoc [] d, chips uid d s)

/-- `documents`: the offers of the user. -/
def myOffers (documents : List (Doc Offer)) (s : Store) : List (Except StateError Tile) :=
  documents.map fun d => Tile.ofSnapshot [] (taskDoc s d.data.task)

end Oun
