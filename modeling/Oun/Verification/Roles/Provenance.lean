import Oun.Verification.Sessions.Accounting

/-! # Where documents come from

Tasks stay and the log grows, so that whatever a screen or a handler has captured keeps
pointing to a task with its author and to an offer that was submitted. -/

namespace Oun

open Firestore Regex Transition

/-- The task exists and has this author. -/
def HasTask (s : Store) (id : DocId) (author : Uid) : Prop :=
  ∃ d ∈ s.tasks.docs, d.id = id ∧ d.data.author = author

/-- The offer was submitted and stored under this id. -/
def Submitted (log : List Event) (id : DocId) (o : Offer) : Prop :=
  ∃ e ∈ log, e.call.write = .addOffer o ∧ e.id = id

theorem HasTask.unique {s : Store} {id : DocId} {author author' : Uid}
    (h : HasTask s id author) (h' : HasTask s id author') : author = author' := by
  obtain ⟨d, hd, hid, rfl⟩ := h
  obtain ⟨d', hd', hid', rfl⟩ := h'
  rw [s.tasks.eq_of_id_eq hd hd' (hid.trans hid'.symm)]

/-! ## What captured values must satisfy -/

/-- What the write of a handler of user `uid` refers to. -/
def Call.Proper (w : World) (uid : Uid) (c : Call) : Prop :=
  match c.write with
  | .addOffer o => HasTask w.store o.task o.taskOwner ∧ o.provider = uid ∧ uid ≠ o.taskOwner ∧
      priceValidator o.price = none
  | .deleteOffer id => c.about = some id ∧ ∃ o, Submitted w.log id o ∧ HasTask w.store o.task uid
  | .addNotif n =>
      match n.status with
      | .added => HasTask w.store n.task n.user
      | _ => HasTask w.store n.task uid ∧ ∃ id o, c.about = some id ∧ Submitted w.log id o ∧
          o.task = n.task ∧ o.provider = n.user
  | .addViolation v => v.reporter = uid ∧ ∃ author, HasTask w.store v.taskId author ∧ uid ≠ author
  | _ => True

/-- The item was drawn from an offer submitted on the task. -/
def Item.Proper (w : World) (taskId : DocId) (item : Item) : Prop :=
  ∃ o, Submitted w.log item.offerId o ∧ o.task = taskId ∧ item = .ofDoc ⟨item.offerId, o⟩

def Handler.Proper (w : World) (uid : Uid) : Handler → Prop
  | .hasOffered furniture | .offerDialog furniture | .noReported furniture
  | .reportDialog furniture => HasTask w.store furniture.id furniture.author ∧
      uid ≠ furniture.author
  | .acceptDialog taskId item | .acceptGet taskId item | .rejectDialog taskId item =>
      HasTask w.store taskId uid ∧ item.Proper w taskId
  | .writing _ calls => ∀ c ∈ calls, c.Proper w uid
  | .ratingDialog .. | .done => True

def Screen.Proper (w : World) (screen : Screen) : Prop :=
  HasTask w.store screen.furniture.id screen.furniture.author ∧
    ∀ d ∈ screen.offers, Submitted w.log d.id d.data ∧ d.data.task = screen.furniture.id

/-- Everything that screens and handlers hold, and everything stored, has its origin. -/
structure Provenance (w : World) : Prop where
  screens : ∀ screen ∈ w.screens, screen.Proper w
  processes : ∀ p ∈ w.processes, p.handler.Proper w p.uid
  log : ∀ e ∈ w.log, e.call.Proper w e.uid
  offers : ∀ d ∈ w.store.offers.docs, Submitted w.log d.id d.data
  notifs : ∀ d ∈ w.store.notifs.docs, ∃ e ∈ w.log, e.call.write = .addNotif d.data ∧ e.id = d.id
  violations : ∀ d ∈ w.store.violations.docs,
    ∃ e ∈ w.log, e.call.write = .addViolation d.data ∧ e.id = d.id

/-- A verdict was written by the author of its task, about an offer of the user told. -/
theorem Provenance.verdict_call {w : World} (hw : Provenance w) {e : Event} (he : e ∈ w.log)
    {n : Notif} (hwrite : e.call.write = .addNotif n) (hstatus : n.status ≠ .added) :
    HasTask w.store n.task e.uid ∧ ∃ id o, e.call.about = some id ∧ Submitted w.log id o ∧
      o.task = n.task ∧ o.provider = n.user := by
  have hproper := hw.log e he
  simp only [Call.Proper, hwrite] at hproper
  cases hs : n.status with
  | added => exact absurd hs hstatus
  | _ => simpa only [hs] using hproper

/-! ## Captured values stay proper -/

/-- Tasks and log of `w` are still there in `w'`. -/
structure Extends (w w' : World) : Prop where
  tasks : ∀ d ∈ w.store.tasks.docs, d ∈ w'.store.tasks.docs
  log : ∀ e ∈ w.log, e ∈ w'.log

theorem extends_perform {w : World} {a : Action} (h : Enabled w a) : Extends w (perform w a) where
  log := fun _ he => mem_log_perform h he
  tasks := by
    intro d hd
    cases hlands : lands w a with
    | none => rwa [(perform_of_not_lands h hlands).1.tasks]
    | some c =>
        rw [(perform_of_lands h hlands).1]
        cases hwrite : c.write <;> simp [Write.apply, hd]

section Mono

variable {w w' : World} (hext : Extends w w')
include hext

theorem HasTask.mono {id : DocId} {author : Uid} (h : HasTask w.store id author) :
    HasTask w'.store id author := by
  obtain ⟨d, hd, h⟩ := h
  exact ⟨d, hext.tasks d hd, h⟩

theorem Submitted.mono {id : DocId} {o : Offer} (h : Submitted w.log id o) :
    Submitted w'.log id o := by
  obtain ⟨e, he, h⟩ := h
  exact ⟨e, hext.log e he, h⟩

theorem Call.Proper.mono {uid : Uid} {c : Call} (h : c.Proper w uid) : c.Proper w' uid := by
  obtain ⟨write, awaited, about⟩ := c
  cases write with
  | addOffer o => exact ⟨h.1.mono hext, h.2⟩
  | deleteOffer id =>
      obtain ⟨habout, o, hsub, htask⟩ := h
      exact ⟨habout, o, hsub.mono hext, htask.mono hext⟩
  | addNotif n =>
      obtain ⟨user, task, status, new⟩ := n
      cases status with
      | added => exact HasTask.mono hext h
      | _ =>
          obtain ⟨htask, id, o, habout, hsub, hmatch⟩ := h
          exact ⟨htask.mono hext, id, o, habout, hsub.mono hext, hmatch⟩
  | addViolation v =>
      obtain ⟨hreporter, author, htask, hne⟩ := h
      exact ⟨hreporter, author, htask.mono hext, hne⟩
  | _ => trivial

theorem Item.Proper.mono {taskId : DocId} {item : Item} (h : item.Proper w taskId) :
    item.Proper w' taskId := by
  obtain ⟨o, hsub, h⟩ := h
  exact ⟨o, hsub.mono hext, h⟩

theorem Handler.Proper.mono {uid : Uid} {handler : Handler} (h : handler.Proper w uid) :
    handler.Proper w' uid := by
  cases handler with
  | hasOffered _ | offerDialog _ | noReported _ | reportDialog _ => exact ⟨h.1.mono hext, h.2⟩
  | acceptDialog _ _ | acceptGet _ _ | rejectDialog _ _ => exact ⟨h.1.mono hext, h.2.mono hext⟩
  | writing _ calls => exact fun c hc => (h c hc).mono hext
  | ratingDialog _ _ _ | done => trivial

theorem Screen.Proper.mono {screen : Screen} (h : screen.Proper w) : screen.Proper w' :=
  ⟨h.1.mono hext, fun d hd => ⟨(h.2 d hd).1.mono hext, (h.2 d hd).2⟩⟩

end Mono

end Oun
