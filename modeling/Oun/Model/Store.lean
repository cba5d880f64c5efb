import Mathlib.Data.Rat.Defs
import Oun.Library.Collection
import Oun.Library.Regex

/-! # The documents of the app and the writes on them -/

namespace Oun

open Firestore Regex

/-- The id of an account; the document of the user in `users` has the same id. -/
abbrev Uid := ℕ

/-- What `RatingBar` delivers. -/
abbrev Stars := { n : ℕ // 1 ≤ n ∧ n ≤ 5 }

/-- A double of the app without rounding. -/
inductive Double where
  | value (q : ℚ)
  | infinity
  | nan
  deriving DecidableEq, Repr

/-- Division of a sum of non-negative doubles by a count. -/
def Double.div (sum : ℚ) (count : ℕ) : Double :=
  if count = 0 then (if sum = 0 then .nan else .infinity) else .value (sum / count)

inductive City where
  | riyadh | jeddah | dammam
  deriving DecidableEq, Repr

inductive Category where
  | maintenance | food | errands | construction | computersAndIT | transport | otherTasks
  deriving DecidableEq, Repr

inductive Reason where
  | sexual | harrasment | ilegallity | spam | scam | personal
  deriving DecidableEq, Repr

/-- The app writes three literals to `status`, so that `toString().trim()` changes none. -/
inductive Status where
  | added | accepted | rejected
  deriving DecidableEq, Repr

structure Task where
  author : Uid
  title : Text
  description : Text
  city : City
  category : Category
  deriving DecidableEq, Repr

structure Offer where
  task : DocId
  provider : Uid
  taskOwner : Uid
  price : Text
  deriving DecidableEq, Repr

structure Notif where
  user : Uid
  task : DocId
  status : Status
  new : Bool
  deriving DecidableEq, Repr

structure Violation where
  taskTitle : Text
  taskId : DocId
  reporter : Uid
  reason : Reason
  deriving DecidableEq, Repr

structure Rate where
  rate : Stars
  task : DocId
  user : Uid
  deriving DecidableEq, Repr

structure User where
  id : ℤ
  email : Text
  name : Text
  password : Text
  phone : Text
  rate : Double
  deriving DecidableEq, Repr

structure Store where
  tasks : Collection Task
  offers : Collection Offer
  notifs : Collection Notif
  violations : Collection Violation
  rate : Collection Rate
  users : Uid → Option User

def Store.empty : Store := ⟨.empty, .empty, .empty, .empty, .empty, fun _ => none⟩

/-- The single-document writes that the handlers issue. -/
inductive Write where
  | addTask (t : Task)
  | addOffer (o : Offer)
  | deleteOffer (id : DocId)
  | addNotif (n : Notif)
  | addViolation (v : Violation)
  | addRate (r : Rate)
  | updateRate (uid : Uid) (rate : Double)
  deriving DecidableEq, Repr

/-- An update of a missing document fails and changes nothing. -/
def Write.apply : Write → Store → Store
  | addTask t, s => { s with tasks := s.tasks.add t }
  | addOffer o, s => { s with offers := s.offers.add o }
  | deleteOffer id, s => { s with offers := s.offers.delete id }
  | addNotif n, s => { s with notifs := s.notifs.add n }
  | addViolation v, s => { s with violations := s.violations.add v }
  | addRate r, s => { s with rate := s.rate.add r }
  | updateRate uid rate, s => { s with
      users := fun u =>
        if u = uid then (s.users u).map fun user => { user with rate } else s.users u }

/-- The id of the document that a write creates, deletes or updates. -/
def Write.docId : Write → Store → DocId
  | addTask _, s => s.tasks.next
  | addOffer _, s => s.offers.next
  | deleteOffer id, _ => id
  | addNotif _, s => s.notifs.next
  | addViolation _, s => s.violations.next
  | addRate _, s => s.rate.next
  | updateRate uid _, _ => uid

end Oun
