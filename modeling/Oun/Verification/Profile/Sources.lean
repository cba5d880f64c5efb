import Oun.Model.Profile

/-! # Where the shown values come from

A fetch assigns some of the variables and leaves the others to whatever fetch wrote them
before. A trail keeps the last fetch that has assigned each variable, what has happened in the
present session, and the values that the edit pages wrote. -/

namespace Oun

open Firestore Regex Future Transition

/-- Whether the fetch of a slot, answered with the document, assigns the variable of another:
`_fetch` stops at the first of `email`, `name` and `phone` that is missing. -/
def Slot.assigns (k : Slot) (ud : Snapshot) : Slot → Bool
  | .greeting => k = .greeting && (ud .name).isSome
  | .email => k ≠ .greeting && (ud .email).isSome
  | .name => k ≠ .greeting && (ud .email).isSome && (ud .name).isSome
  | .phone => k ≠ .greeting && (ud .email).isSome && (ud .name).isSome && (ud .phone).isSome

/-! ## What a fetch does to the variables -/

theorem fetch_error (k : Slot) (ud : Snapshot) (v : Vars) :
    (k.fetch (answered ud false) v).2 = v := by
  cases k <;> rfl

theorem Slot.isSome_of_assigns {k s : Slot} {ud : Snapshot} (h : k.assigns ud s = true) :
    (ud s.field).isSome = true := by
  cases s <;> simp only [Slot.assigns, Bool.and_eq_true] at h <;> exact h.2

/-- What a slot draws after a fetch has been answered. -/
theorem Slot.draws_fetch (k s : Slot) (ud : Snapshot) (v : Vars) :
    s.draws (k.fetch (answered ud true) v).2 =
      if k.assigns ud s then s.format ((ud s.field).getD []) else s.draws v := by
  rcases hemail : ud .email with _ | email <;> rcases hname : ud .name with _ | name <;>
    rcases hphone : ud .phone with _ | phone <;> cases k <;> cases s <;>
      simp [Slot.fetch, Oun.fetch, fetchName, answered, Chain.andThen, assign, Snapshot.get,
        Slot.assigns, Slot.draws, Slot.format, Slot.field, hemail, hname, hphone]

/-- An assigned variable holds the field of the document. -/
theorem Slot.draws_of_assigns {k s : Slot} {ud : Snapshot} (v : Vars)
    (h : k.assigns ud s = true) :
    ∃ value, ud s.field = some value ∧
      s.draws (k.fetch (answered ud true) v).2 = s.format value := by
  obtain ⟨value, hvalue⟩ := Option.isSome_iff_exists.mp (isSome_of_assigns h)
  exact ⟨value, hvalue, by rw [draws_fetch, if_pos h, hvalue, Option.getD_some]⟩

theorem Slot.draws_of_not_assigns {k s : Slot} {ud : Snapshot} {ok : Bool} (v : Vars)
    (h : ¬ (ok && k.assigns ud s) = true) :
    s.draws (k.fetch (answered ud ok) v).2 = s.draws v := by
  cases ok with
  | false => rw [fetch_error]
  | true => rw [draws_fetch, if_neg (by simpa using h)]

/-! ## Trails -/

/-- A fetch: whose document it asked for, and whether its session is the present one. -/
structure Writer where
  uid : Uid
  current : Bool
  deriving DecidableEq, Repr

structure Trail where
  /-- The fetch that has assigned the variable of a slot last. -/
  writers : Slot → Option Writer
  /-- The events of the present session, the answers to late fetches left out. -/
  own : List AppProcess.Event
  /-- The value that an update of a user has written last. -/
  updates : Uid → Field → Option Text

def Trail.initial : Trail := ⟨fun _ => none, [], fun _ _ => none⟩

def wrote (writers : Slot → Option Writer) (w : Writer) (k : Slot) (ud : Snapshot) (ok : Bool) :
    Slot → Option Writer := fun s =>
  if ok && k.assigns ud s then some w else writers s

def writersAfter (docs : Uid → Snapshot) (writers : Slot → Option Writer) (p : AppProcess) :
    AppProcess.Event → Slot → Option Writer
  | .signOut => fun s => (writers s).map fun w => { w with current := false }
  | .answer i ok =>
      match p.builders[i]?, p.user with
      | some b, some uid => wrote writers ⟨uid, true⟩ b.slot (docs uid) ok
      | _, _ => writers
  | .answerLate j ok =>
      match p.late[j]? with
      | some f => wrote writers ⟨f.uid, false⟩ f.slot (docs f.uid) ok
      | none => writers
  | _ => writers

def ownAfter (own : List AppProcess.Event) : AppProcess.Event → List AppProcess.Event
  | .signIn _ => []
  | .answerLate _ _ => own
  | event => own ++ [event]

def updatesAfter (updates : Uid → Field → Option Text) (p : AppProcess) :
    AppProcess.Event → Uid → Field → Option Text
  | .update edit => fun uid field =>
      if p.user = some uid ∧ edit.field = field then some edit.value else updates uid field
  | _ => updates

def Trail.record (docs : Uid → Snapshot) (t : Trail) (p : AppProcess) (event : AppProcess.Event) :
    Trail where
  writers := writersAfter docs t.writers p event
  own := ownAfter t.own event
  updates := updatesAfter t.updates p event

/-- The process, with its trail as history. -/
def trailed (v : Validators) (docs : Uid → Snapshot) :
    System (AppProcess × Trail) AppProcess.Event :=
  (profile v docs).recording .initial (Trail.record docs)

instance (v : Validators) (docs : Uid → Snapshot) (u : AppProcess × Trail)
    (event : AppProcess.Event) : Decidable ((trailed v docs).Enabled u event) :=
  inferInstanceAs (Decidable (event.Enabled v u.1))

theorem wrote_of_assigns {writers : Slot → Option Writer} {w : Writer} {k s : Slot}
    {ud : Snapshot} {ok : Bool} (h : (ok && k.assigns ud s) = true) :
    wrote writers w k ud ok s = some w := if_pos h

theorem wrote_of_not_assigns {writers : Slot → Option Writer} {w : Writer} {k s : Slot}
    {ud : Snapshot} {ok : Bool} (h : ¬ (ok && k.assigns ud s) = true) :
    wrote writers w k ud ok s = writers s := if_neg h

theorem wrote_eq_some {writers : Slot → Option Writer} {w w' : Writer} {k s : Slot}
    {ud : Snapshot} {ok : Bool} (h : wrote writers w k ud ok s = some w') :
    w' = w ∨ writers s = some w' := by
  by_cases hassigns : (ok && k.assigns ud s) = true
  · rw [wrote_of_assigns hassigns] at h
    exact .inl (Option.some.inj h).symm
  · rw [wrote_of_not_assigns hassigns] at h
    exact .inr h

/-! ## Variables hold what their writers have fetched -/

/-- A variable that a fetch has assigned holds the field of that user's document, any other its
first value. -/
structure Sourced (docs : Uid → Snapshot) (vars : Vars) (writers : Slot → Option Writer) :
    Prop where
  unwritten : ∀ s, writers s = none → s.draws vars = s.draws .initial
  written : ∀ s w, writers s = some w →
    ∃ value, docs w.uid s.field = some value ∧ s.draws vars = s.format value

theorem Sourced.fetch {docs : Uid → Snapshot} {vars : Vars} {writers : Slot → Option Writer}
    (h : Sourced docs vars writers) (w : Writer) (k : Slot) (ok : Bool) :
    Sourced docs (k.fetch (answered (docs w.uid) ok) vars).2
      (wrote writers w k (docs w.uid) ok) := by
  constructor
  · intro s hnone
    by_cases hassigns : (ok && k.assigns (docs w.uid) s) = true
    · simp [wrote_of_assigns hassigns] at hnone
    · rw [wrote_of_not_assigns hassigns] at hnone
      rw [Slot.draws_of_not_assigns vars hassigns]
      exact h.unwritten s hnone
  · intro s w' hsome
    by_cases hassigns : (ok && k.assigns (docs w.uid) s) = true
    · obtain rfl : w = w' := by simpa [wrote_of_assigns hassigns] using hsome
      obtain ⟨rfl, hassigns⟩ := Bool.and_eq_true_iff.mp hassigns
      exact Slot.draws_of_assigns vars hassigns
    · rw [wrote_of_not_assigns hassigns] at hsome
      rw [Slot.draws_of_not_assigns vars hassigns]
      exact h.written s w' hsome

theorem sourced {v : Validators} {docs : Uid → Snapshot} {u : AppProcess × Trail}
    (hu : Reachable (trailed v docs) u) : Sourced docs u.1.vars u.2.writers := by
  refine hu.invariant (I := fun u => Sourced docs u.1.vars u.2.writers) ?_ ?_
  · exact ⟨fun _ _ => rfl, fun _ _ h => nomatch h⟩
  · rintro ⟨p, t⟩ event _ h _
    cases event with
    | signOut =>
        constructor
        · intro s hnone
          exact h.unwritten s (Option.map_eq_none_iff.mp hnone)
        · intro s w hsome
          obtain ⟨w', hw', rfl⟩ := Option.map_eq_some_iff.mp hsome
          exact h.written s w' hw'
    | answer i ok =>
        show Sourced docs (AppProcess.perform docs p (.answer i ok)).vars
          (writersAfter docs t.writers p (.answer i ok))
        simp only [AppProcess.perform, AppProcess.withBuilder, writersAfter]
        cases p.builders[i]? with
        | none => exact h
        | some b =>
            cases p.user with
            | none => exact h
            | some uid => exact h.fetch ⟨uid, true⟩ b.slot ok
    | answerLate j ok =>
        show Sourced docs (AppProcess.perform docs p (.answerLate j ok)).vars
          (writersAfter docs t.writers p (.answerLate j ok))
        simp only [AppProcess.perform, writersAfter]
        cases p.late[j]? with
        | none => exact h
        | some f => exact h.fetch ⟨f.uid, false⟩ f.slot ok
    | draw i =>
        show Sourced docs (p.withBuilder i (p.draw i)).vars t.writers
        unfold AppProcess.withBuilder
        cases p.builders[i]? <;> exact h
    | _ => exact h

end Oun
