import Oun.Verification.Sessions.Effects

/-! # Accounting for issued writes

A write is issued once, is pending until it takes effect, and is then in the log for
ever. What the collections that only grow contain is read off the log. -/

namespace Oun

open Firestore Regex Transition

def World.pending (w : World) (q : Call → Bool) : ℕ :=
  Pool.total (fun p => p.handler.calls.countP q) w.processes

def World.logged (w : World) (q : Call → Bool) : ℕ :=
  w.log.countP fun e => q e.call

def World.issued (w : World) (q : Call → Bool) : ℕ :=
  w.logged q + w.pending q

theorem pending_pos {w : World} {q : Call → Bool} :
    0 < w.pending q ↔ ∃ p ∈ w.processes, ∃ c ∈ p.handler.calls, q c = true := by
  rw [Nat.pos_iff_ne_zero, ne_eq, World.pending, Pool.total_eq_zero]
  simp [List.countP_eq_zero]

theorem logged_pos {w : World} {q : Call → Bool} :
    0 < w.logged q ↔ ∃ e ∈ w.log, q e.call = true := by
  simp [World.logged, List.countP_pos_iff]

theorem issued_pos {w : World} {q : Call → Bool} :
    0 < w.issued q ↔ (∃ e ∈ w.log, q e.call = true) ∨
      ∃ p ∈ w.processes, ∃ c ∈ p.handler.calls, q c = true := by
  rw [World.issued, Nat.add_pos_iff_pos_or_pos, logged_pos, pending_pos]

theorem exists_issued_pos {ι : Type} {w : World} {q : Call → Bool} {q' : ι → Call → Bool}
    (h : ∀ c, q c = true → ∃ i, q' i c = true) (hq : 0 < w.issued q) :
    ∃ i, 0 < w.issued (q' i) := by
  rcases issued_pos.mp hq with ⟨e, he, hc⟩ | ⟨p, hp, c, hmem, hc⟩
  · obtain ⟨i, hi⟩ := h _ hc
    exact ⟨i, issued_pos.mpr (.inl ⟨e, he, hi⟩)⟩
  · obtain ⟨i, hi⟩ := h _ hc
    exact ⟨i, issued_pos.mpr (.inr ⟨p, hp, c, hmem, hi⟩)⟩

/-- No issued write is still on its way. -/
def World.Quiet (w : World) : Prop :=
  ∀ p ∈ w.processes, p.handler.calls = []

instance (w : World) : Decidable w.Quiet := by
  unfold World.Quiet; infer_instance

theorem World.Quiet.logged_eq_issued {w : World} (h : w.Quiet) (q : Call → Bool) :
    w.logged q = w.issued q := by
  have hpending : w.pending q = 0 :=
    (Pool.total_eq_zero _).mpr fun p hp => by simp [h p hp]
  rw [World.issued, hpending, Nat.add_zero]

/-- Issued calls are never lost: each step adds those it issues. -/
theorem issued_perform {w : World} {a : Action} (h : Enabled w a) (q : Call → Bool) :
    (perform w a).issued q = w.issued q + (issues w a).countP q := by
  have heffect := effect h
  generalize perform w a = w' at heffect
  cases heffect with
  | idle hissues _ _ hprocesses hlog =>
      simp [World.issued, World.logged, World.pending, hprocesses, hlog, hissues]
  | signUp uid user => simp [World.issued, World.logged, World.pending, issues, spawned]; rfl
  | spawn process _ hissues _ _ hprocesses hlog =>
      simp [World.issued, World.logged, World.pending, hprocesses, hlog, hissues, add_assoc]
  | @process k uid handler input hget henabled _ =>
      have hcalls := Handler.next_calls uid henabled
      have htotal := Pool.total_set (fun p : Process => p.handler.calls.countP q)
        ⟨uid, handler.next uid input⟩ hget
      simp only [hcalls.1, hcalls.2, List.countP_nil, add_zero] at htotal
      simp only [World.issued, World.logged, World.pending, issues, hget, Option.map_some,
        Option.getD_some, htotal, add_assoc]
  | @write k uid job call calls hget =>
      have htotal := Pool.total_set (fun p : Process => p.handler.calls.countP q)
        ⟨uid, .writing job calls⟩ hget
      simp only [Handler.calls, List.countP_cons] at htotal
      simp only [World.issued, World.logged, World.pending, issues, spawned, Option.map_none,
        Option.getD_none, List.countP_nil, List.countP_append, List.countP_singleton]
      simp only [Handler.calls] at htotal ⊢
      omega

/-- Where issued calls come from. -/
inductive Issues (w : World) : Action → List Call → Prop where
  | nothing {a} (hprocess : ∀ k input, a ≠ .process k input) : Issues w a []
  | newTask {a} (hprocess : ∀ k input, a ≠ .process k input) (uid : Uid)
      (title description : Text) (city : City) (category : Category) :
      Issues w a (sendNewTask uid title description city category)
  | process {k uid handler} (input : Input) (hget : w.processes[k]? = some ⟨uid, handler⟩)
      (henabled : handler.Enabled w.store input) (hreads : w.Reads handler input) :
      Issues w (.process k input) (handler.issued uid input)

theorem issues_inversion {w : World} {a : Action} (h : Enabled w a) : Issues w a (issues w a) := by
  by_cases hprocess : ∃ k input, a = .process k input
  · obtain ⟨k, input, rfl⟩ := hprocess
    obtain ⟨⟨uid, handler⟩, hget, henabled, hreads⟩ := (w.onProcess_iff k _).mp h
    have hissues : issues w (.process k input) = handler.issued uid input := by
      simp [issues, hget]
    rw [hissues]
    exact .process input hget henabled hreads
  · have hprocess : ∀ k input, a ≠ .process k input := by simpa using hprocess
    have heffect := effect h
    generalize perform w a = w' at heffect
    cases heffect with
    | idle hissues => rw [hissues]; exact .nothing hprocess
    | signUp uid user => exact .nothing hprocess
    | spawn process hspawned hissues =>
        rw [hissues]
        rcases spawned_calls hspawned with hcalls | ⟨uid, title, description, city, category, rfl⟩
        · rw [hcalls]; exact .nothing hprocess
        · exact .newTask hprocess uid title description city category
    | process input => exact absurd rfl (hprocess _ input)
    | write hget => exact .nothing hprocess

/-! ## The store after a step -/

/-- Two stores that differ at most in their users. -/
structure SameDocs (s s' : Store) : Prop where
  tasks : s'.tasks = s.tasks
  offers : s'.offers = s.offers
  notifs : s'.notifs = s.notifs
  violations : s'.violations = s.violations
  rate : s'.rate = s.rate

theorem perform_of_lands {w : World} {a : Action} {c : Call} (h : Enabled w a)
    (hlands : lands w a = some c) :
    (perform w a).store = c.write.apply w.store ∧
      ∃ uid, (perform w a).log = w.log ++ [⟨uid, c, c.write.docId w.store⟩] := by
  have heffect := effect h
  generalize perform w a = w' at heffect
  cases heffect with
  | idle _ hnone => simp [hnone] at hlands
  | signUp uid user => simp [lands] at hlands
  | spawn process _ _ hnone => simp [hnone] at hlands
  | process input => simp [lands] at hlands
  | @write k uid job call calls hget =>
      obtain rfl : call = c := by simpa [lands, hget, Handler.calls] using hlands
      exact ⟨rfl, uid, rfl⟩

theorem perform_of_not_lands {w : World} {a : Action} (h : Enabled w a)
    (hlands : lands w a = none) :
    SameDocs w.store (perform w a).store ∧ (perform w a).log = w.log := by
  have heffect := effect h
  generalize perform w a = w' at heffect
  cases heffect with
  | idle _ _ hstore _ hlog => exact ⟨by rw [hstore]; exact ⟨rfl, rfl, rfl, rfl, rfl⟩, hlog⟩
  | signUp uid user => exact ⟨⟨rfl, rfl, rfl, rfl, rfl⟩, rfl⟩
  | spawn process _ _ _ hstore _ hlog =>
      exact ⟨by rw [hstore]; exact ⟨rfl, rfl, rfl, rfl, rfl⟩, hlog⟩
  | process input => exact ⟨⟨rfl, rfl, rfl, rfl, rfl⟩, rfl⟩
  | write hget => simp [lands, hget, Handler.calls] at hlands

theorem logged_perform {w : World} {a : Action} (h : Enabled w a) (q : Call → Bool) :
    (perform w a).logged q = w.logged q + (lands w a).toList.countP q := by
  cases hlands : lands w a with
  | none => simp [World.logged, (perform_of_not_lands h hlands).2]
  | some c =>
      obtain ⟨-, uid, hlog⟩ := perform_of_lands h hlands
      simp [World.logged, hlog, List.countP_append, List.countP_singleton]

theorem issued_mono {w w' : World} {trace : List (World × Action)} (run : Run app w trace w')
    (q : Call → Bool) : w.issued q ≤ w'.issued q := by
  refine run.invariant (C := fun _ _ => True) (I := fun u => w.issued q ≤ u.issued q)
    (fun _ _ => trivial) le_rfl ?_
  intro u a hu ha _
  calc
    w.issued q ≤ u.issued q := hu
    _ ≤ u.issued q + (issues u a).countP q := Nat.le_add_right _ _
    _ = (perform u a).issued q := (issued_perform ha q).symm

theorem logged_mono {w w' : World} {trace : List (World × Action)} (run : Run app w trace w')
    (q : Call → Bool) : w.logged q ≤ w'.logged q := by
  refine run.invariant (C := fun _ _ => True) (I := fun u => w.logged q ≤ u.logged q)
    (fun _ _ => trivial) le_rfl ?_
  intro u a hu ha _
  calc
    w.logged q ≤ u.logged q := hu
    _ ≤ u.logged q + (lands u a).toList.countP q := Nat.le_add_right _ _
    _ = (perform u a).logged q := (logged_perform ha q).symm

/-- What is on its way grows by what a step issues and shrinks by what lands. -/
theorem pending_perform {w : World} {a : Action} (h : Enabled w a) (q : Call → Bool) :
    (perform w a).pending q + (lands w a).toList.countP q =
      w.pending q + (issues w a).countP q := by
  have hissued := issued_perform h q
  have hlogged := logged_perform h q
  simp only [World.issued] at hissued
  omega

/-- What has taken effect stays in the log. -/
theorem mem_log_perform {w : World} {a : Action} {e : Event} (h : Enabled w a)
    (he : e ∈ w.log) : e ∈ (perform w a).log := by
  cases hlands : lands w a with
  | none => rwa [(perform_of_not_lands h hlands).2]
  | some c =>
      obtain ⟨-, uid, hlog⟩ := perform_of_lands h hlands
      rw [hlog]
      exact List.mem_append_left _ he

/-- What one write does to the offers. -/
def Write.onOffers : Option Write → Collection Offer → Collection Offer
  | some (.addOffer o), offers => offers.add o
  | some (.deleteOffer id), offers => offers.delete id
  | _, offers => offers

theorem offers_perform {w : World} {a : Action} (h : Enabled w a) :
    (perform w a).store.offers = Write.onOffers ((lands w a).map Call.write) w.store.offers := by
  cases hlands : lands w a with
  | none => exact (perform_of_not_lands h hlands).1.offers
  | some c =>
      rw [(perform_of_lands h hlands).1]
      cases hwrite : c.write <;> simp [hwrite, Write.apply, Write.onOffers]

theorem mem_offers_perform {w : World} {a : Action} (h : Enabled w a) (d : Doc Offer) :
    d ∈ (perform w a).store.offers.docs ↔
      (d ∈ w.store.offers.docs ∧ ∀ c ∈ lands w a, c.write ≠ .deleteOffer d.id) ∨
        ∃ c ∈ lands w a, c.write = .addOffer d.data ∧ d.id = w.store.offers.next := by
  rw [offers_perform h]
  cases hlands : lands w a with
  | none => simp [Write.onOffers]
  | some c =>
      cases hwrite : c.write with
      | addOffer o =>
          cases d
          simp [Write.onOffers, hwrite, and_comm, eq_comm]
      | deleteOffer id => simp [Write.onOffers, hwrite, eq_comm]
      | _ => simp [Write.onOffers, hwrite]

/-! ## Users -/

/-- Of a registered user a step changes at most the rate. -/
theorem users_perform {w : World} {a : Action} (h : Enabled w a) {p : Uid} {user : User}
    (huser : w.store.users p = some user) :
    ∃ rate, (perform w a).store.users p = some { user with rate } := by
  have hsame : w.store.users p = some { user with rate := user.rate } := huser
  have heffect := effect h
  generalize perform w a = w' at heffect
  cases heffect with
  | idle _ _ hstore => exact ⟨_, hstore ▸ hsame⟩
  | signUp uid profile hnew =>
      have hne : p ≠ uid := by
        rintro rfl
        simp [huser] at hnew
      exact ⟨_, (if_neg hne).trans hsame⟩
  | spawn _ _ _ _ hstore => exact ⟨_, hstore ▸ hsame⟩
  | process => exact ⟨_, hsame⟩
  | @write _ _ _ call =>
      cases hwrite : call.write with
      | updateRate q rate =>
          by_cases hp : p = q
          · subst hp
            exact ⟨rate, by simp [Write.apply, huser]⟩
          · exact ⟨_, (if_neg hp).trans hsame⟩
      | _ => exact ⟨_, hsame⟩

/-- Registered users stay registered. -/
theorem users_isSome_perform {w : World} {a : Action} (h : Enabled w a) {p : Uid}
    (hp : (w.store.users p).isSome) : ((perform w a).store.users p).isSome := by
  obtain ⟨user, huser⟩ := Option.isSome_iff_exists.mp hp
  obtain ⟨rate, hnext⟩ := users_perform h huser
  exact Option.isSome_iff_exists.mpr ⟨_, hnext⟩

theorem users_of_not_lands {w : World} {a : Action} (h : Enabled w a) (hlands : lands w a = none)
    {p : Uid} {user : User} (huser : (perform w a).store.users p = some user) :
    w.store.users p = some user ∨ w.store.users p = none ∧ user.rate = .value 0 := by
  have heffect := effect h
  generalize perform w a = w' at heffect huser
  cases heffect with
  | idle _ _ hstore => exact .inl (hstore ▸ huser)
  | signUp uid profile hnew =>
      simp only [World.signUp] at huser
      split at huser
      · rename_i hp
        exact .inr ⟨hp ▸ hnew, (Option.some.inj huser) ▸ rfl⟩
      · exact .inl huser
  | spawn _ _ _ _ hstore => exact .inl (hstore ▸ huser)
  | process => exact .inl huser
  | write hget => simp [lands, hget, Handler.calls] at hlands

/-! ## Collections that only grow -/

def Write.notif? : Write → Option Notif
  | .addNotif n => some n
  | _ => none

def Write.violation? : Write → Option Violation
  | .addViolation v => some v
  | _ => none

def Write.rate? : Write → Option Rate
  | .addRate r => some r
  | _ => none

/-- The call adds a document of the kind that satisfies `q`. -/
def Call.adds {α : Type} (added : Write → Option α) (q : α → Bool) (c : Call) : Bool :=
  (added c.write).any q

theorem Call.adds_iff {α : Type} {added : Write → Option α} {q : α → Bool} {c : Call} :
    c.adds added q = true ↔ ∃ a ∈ added c.write, q a = true := by
  rw [Call.adds]
  cases added c.write <;> simp

/-- All that writes do to a collection is to add the documents of one kind. -/
structure Grows {α : Type} (docs : Store → Collection α) (added : Write → Option α) : Prop where
  empty : docs .empty = .empty
  same : ∀ {s s'}, SameDocs s s' → docs s' = docs s
  add : ∀ {write a}, added write = some a → ∀ s, docs (write.apply s) = (docs s).add a
  keep : ∀ {write}, added write = none → ∀ s, docs (write.apply s) = docs s
  docId : ∀ {write a}, added write = some a → ∀ s, write.docId s = (docs s).next

theorem notifs_grow : Grows Store.notifs Write.notif? where
  empty := rfl
  same h := h.notifs
  add {write _} h _ := by
    cases write <;> cases h
    rfl
  keep {write} h _ := by cases write <;> cases h <;> rfl
  docId {write _} h _ := by
    cases write <;> cases h
    rfl

theorem violations_grow : Grows Store.violations Write.violation? where
  empty := rfl
  same h := h.violations
  add {write _} h _ := by
    cases write <;> cases h
    rfl
  keep {write} h _ := by cases write <;> cases h <;> rfl
  docId {write _} h _ := by
    cases write <;> cases h
    rfl

theorem rate_grows : Grows Store.rate Write.rate? where
  empty := rfl
  same h := h.rate
  add {write _} h _ := by
    cases write <;> cases h
    rfl
  keep {write} h _ := by cases write <;> cases h <;> rfl
  docId {write _} h _ := by
    cases write <;> cases h
    rfl

section Grows

variable {α : Type} {docs : Store → Collection α} {added : Write → Option α}
  (grows : Grows docs added)
include grows

theorem Grows.mem_apply {write : Write} {s : Store} {d : Doc α}
    (h : d ∈ (docs (write.apply s)).docs) :
    d ∈ (docs s).docs ∨ added write = some d.data ∧ write.docId s = d.id := by
  cases hadded : added write with
  | none => exact .inl (by rwa [grows.keep hadded] at h)
  | some a =>
      rw [grows.add hadded] at h
      rcases ((docs s).mem_add a d).mp h with h | rfl
      · exact .inl h
      · exact .inr ⟨rfl, grows.docId hadded s⟩

/-- Documents of the kind are never removed. -/
theorem Grows.mem_perform {w : World} {a : Action} (h : Enabled w a) {d : Doc α}
    (hd : d ∈ (docs w.store).docs) : d ∈ (docs (perform w a).store).docs := by
  cases hlands : lands w a with
  | none => rwa [grows.same (perform_of_not_lands h hlands).1]
  | some c =>
      rw [(perform_of_lands h hlands).1]
      cases hadded : added c.write with
      | none => rwa [grows.keep hadded]
      | some x => exact (grows.add hadded _) ▸ ((docs w.store).mem_add x d).mpr (.inl hd)

theorem Grows.count_perform {w : World} {a : Action} (h : Enabled w a) (q : α → Bool) :
    (docs (perform w a).store).count q =
      (docs w.store).count q + (lands w a).toList.countP (Call.adds added q) := by
  cases hlands : lands w a with
  | none => simp [grows.same (perform_of_not_lands h hlands).1]
  | some c =>
      rw [(perform_of_lands h hlands).1]
      cases hadded : added c.write with
      | none => simp [grows.keep hadded, Call.adds, hadded]
      | some x => simp [grows.add hadded, Call.adds, hadded, List.countP_singleton]

/-- The documents are those that the log says were written. -/
theorem Grows.count_eq_logged {w : World} (hw : Reachable app w) (q : α → Bool) :
    (docs w.store).count q = w.logged (Call.adds added q) := by
  refine hw.invariant (I := fun w => (docs w.store).count q = w.logged (Call.adds added q)) ?_ ?_
  · simp [app, World.init, World.logged, grows.empty]
  · intro u a _ hu ha
    show (docs (perform u a).store).count q = _
    rw [grows.count_perform ha, hu]
    exact (logged_perform ha _).symm

end Grows

/-! ## Notifications and offers -/

def Call.onNotif (q : Notif → Bool) (c : Call) : Bool :=
  match c.write with
  | .addNotif n => q n
  | _ => false

def Call.onOffer (q : Offer → Bool) (c : Call) : Bool :=
  match c.write with
  | .addOffer o => q o
  | _ => false

theorem Call.onNotif_iff {q : Notif → Bool} {c : Call} :
    c.onNotif q = true ↔ ∃ n, c.write = .addNotif n ∧ q n = true := by
  unfold Call.onNotif
  cases c.write <;> simp

theorem Call.onOffer_iff {q : Offer → Bool} {c : Call} :
    c.onOffer q = true ↔ ∃ o, c.write = .addOffer o ∧ q o = true := by
  unfold Call.onOffer
  cases c.write <;> simp

theorem Call.adds_notif (q : Notif → Bool) : Call.adds Write.notif? q = Call.onNotif q := by
  funext c
  obtain ⟨write, -, -⟩ := c
  cases write <;> rfl

theorem notifs_perform {w : World} {a : Action} (h : Enabled w a) (q : Notif → Bool) :
    (perform w a).store.notifs.count q =
      w.store.notifs.count q + (lands w a).toList.countP (Call.onNotif q) := by
  rw [← Call.adds_notif]
  exact notifs_grow.count_perform h q

theorem notifs_eq_logged {w : World} (hw : Reachable app w) (q : Notif → Bool) :
    w.store.notifs.count q = w.logged (Call.onNotif q) := by
  rw [← Call.adds_notif]
  exact notifs_grow.count_eq_logged hw q

theorem mem_offers_apply {write : Write} {s : Store} {d : Doc Offer}
    (h : d ∈ (write.apply s).offers.docs) :
    d ∈ s.offers.docs ∨ write = .addOffer d.data ∧ write.docId s = d.id := by
  cases write with
  | addOffer o =>
      rcases (s.offers.mem_add o d).mp h with h | rfl
      · exact .inl h
      · exact .inr ⟨rfl, rfl⟩
  | deleteOffer id => exact .inl ((s.offers.mem_delete id d).mp h).1
  | _ => exact .inl h

theorem mem_notifs_apply {write : Write} {s : Store} {d : Doc Notif}
    (h : d ∈ (write.apply s).notifs.docs) :
    d ∈ s.notifs.docs ∨ write = .addNotif d.data ∧ write.docId s = d.id := by
  refine (notifs_grow.mem_apply h).imp_right fun ⟨hadded, hid⟩ => ⟨?_, hid⟩
  cases write <;> simp_all [Write.notif?]

theorem mem_violations_apply {write : Write} {s : Store} {d : Doc Violation}
    (h : d ∈ (write.apply s).violations.docs) :
    d ∈ s.violations.docs ∨ write = .addViolation d.data ∧ write.docId s = d.id := by
  refine (violations_grow.mem_apply h).imp_right fun ⟨hadded, hid⟩ => ⟨?_, hid⟩
  cases write <;> simp_all [Write.violation?]

theorem mem_rate_apply {write : Write} {s : Store} {d : Doc Rate}
    (h : d ∈ (write.apply s).rate.docs) :
    d ∈ s.rate.docs ∨ write = .addRate d.data := by
  refine (rate_grows.mem_apply h).imp_right fun ⟨hadded, _⟩ => ?_
  cases write <;> simp_all [Write.rate?]

/-! ## Calls that are issued once -/

/-- If a step issues a call of the kind only where none has been issued before, and then
only one, then at most one is ever issued. -/
theorem issued_le_one {w : World} {trace : List (World × Action)} {C : World → Action → Prop}
    {q : Call → Bool} (run : Run app World.init trace w) (hC : Meets C trace)
    (hone : ∀ u a, Reachable app u → Enabled u a → C u a →
      (issues u a).countP q = 0 ∨ u.issued q = 0 ∧ (issues u a).countP q = 1) :
    w.issued q ≤ 1 := by
  refine run.invariant_init (I := fun u => u.issued q ≤ 1) hC ?_ fun u a hu hle ha hCa => ?_
  · simp [World.issued, World.logged, World.pending, app, World.init]
  · show (perform u a).issued q ≤ 1
    rw [issued_perform ha]
    rcases hone u a hu ha hCa with hnone | ⟨hnew, hsingle⟩
    · omega
    · omega

/-- One more call of the kind leaves two issued from then on. -/
theorem two_le_issued {w w' : World} {a : Action} {trace : List (World × Action)} {q : Call → Bool}
    (ha : Enabled w a) (hbefore : 0 < w.issued q) (hissues : 0 < (issues w a).countP q)
    (run : Run app (perform w a) trace w') : 2 ≤ w'.issued q := by
  refine le_trans ?_ (issued_mono run q)
  rw [issued_perform ha]
  omega

/-- Apart from notifications, deletes and updates, a step issues at most one call. -/
theorem countP_issues_le_one {w : World} {a : Action} (h : Enabled w a) {q : Call → Bool}
    (hnotif : ∀ n awaited about, q ⟨.addNotif n, awaited, about⟩ = false)
    (hdelete : ∀ id awaited about, q ⟨.deleteOffer id, awaited, about⟩ = false)
    (hupdate : ∀ uid rate awaited about, q ⟨.updateRate uid rate, awaited, about⟩ = false) :
    (issues w a).countP q ≤ 1 := by
  have hissues := issues_inversion h
  generalize issues w a = calls at hissues
  cases hissues with
  | nothing => simp
  | newTask _ uid title description city category =>
      exact List.countP_le_length
  | @process k uid handler input hget henabled =>
      have hmoves := moves uid henabled
      generalize handler.next uid input = next at hmoves
      generalize handler.issued uid input = issued at hmoves
      cases hmoves with
      | accept taskId item documents =>
          refine le_of_eq_of_le (List.countP_eq_zero.mpr fun c hc => ?_) (Nat.zero_le 1)
          obtain ⟨x, -, ⟨-, rfl | rfl⟩ | ⟨-, rfl⟩⟩ := mem_accept.mp hc <;> simp [hnotif, hdelete]
      | reject => simp [reject, hnotif, hdelete]
      | offer | rate =>
          simp only [addOffer, rate, List.countP_cons, List.countP_nil, hnotif, hupdate,
            Bool.false_eq_true, ite_false, Nat.add_zero, Nat.zero_add]
          split <;> omega
      | report => exact List.countP_le_length
      | _ => exact Nat.zero_le 1

end Oun
