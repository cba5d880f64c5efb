import Oun.Model.Homes
import Oun.Verification.Entrance.Validated
import Oun.Verification.Profile.Isolation
import Oun.Verification.Whole.Agreement

/-! # Whose data a phone shows

The variables that the profile page and the greeting draw outlive a logout, so that what is
shown may be of an earlier user. It is of no user who was never signed in on the phone. -/

namespace Oun

open Firestore Regex Numeral Future Transition

/-! ## One process -/

/-- The process works for the users `U`, and what it shows or might show is known by `K`. -/
structure AppProcess.Knows (U : Uid → Prop) (K : Slot → Text → Prop) (p : AppProcess) : Prop where
  user : ∀ uid, p.user = some uid → U uid
  late : ∀ f ∈ p.late, U f.uid
  vars : ∀ slot, K slot (slot.draws p.vars)
  shown : ∀ b ∈ p.builders, ∀ shown, b.shown = some shown → K b.slot shown

theorem AppProcess.Knows.mono {U U' : Uid → Prop} {K K' : Slot → Text → Prop} {p : AppProcess}
    (h : p.Knows U K) (hU : ∀ uid, U uid → U' uid) (hK : ∀ slot text, K slot text → K' slot text) :
    p.Knows U' K' where
  user uid huid := hU uid (h.user uid huid)
  late f hf := hU _ (h.late f hf)
  vars slot := hK slot _ (h.vars slot)
  shown b hb text htext := hK _ text (h.shown b hb text htext)

/-- A fetch leaves what a slot draws, or has it draw the field of the document. -/
theorem Slot.known_fetch {K : Slot → Text → Prop} {s : Slot} {v : Vars} (hold : K s (s.draws v))
    {ud : Snapshot} (hud : ∀ value, ud s.field = some value → K s (s.format value)) (k : Slot)
    (ok : Bool) : K s (s.draws (k.fetch (answered ud ok) v).2) := by
  by_cases hassigns : (ok && k.assigns ud s) = true
  · obtain ⟨rfl, hassigns⟩ := Bool.and_eq_true_iff.mp hassigns
    obtain ⟨value, hvalue, hdraws⟩ := Slot.draws_of_assigns v hassigns
    exact hdraws ▸ hud value hvalue
  · exact (Slot.draws_of_not_assigns v hassigns).symm ▸ hold

section Steps

variable {U : Uid → Prop} {K : Slot → Text → Prop} {p : AppProcess}

theorem AppProcess.Knows.leave (h : p.Knows U K) (tab : Tab) : (p.leave tab).Knows U K where
  user := h.user
  late := h.late
  vars := h.vars
  shown b hb text htext := by
    obtain ⟨b', hb', rfl⟩ := List.mem_map.mp hb
    have hsame : (b'.leaveTab tab).slot = b'.slot ∧ (b'.leaveTab tab).shown = b'.shown := by
      unfold Builder.leaveTab
      split <;> exact ⟨rfl, rfl⟩
    exact hsame.1 ▸ h.shown b' hb' text (hsame.2 ▸ htext)

theorem AppProcess.Knows.build (h : p.Knows U K) (tab : Tab) : (p.build tab).Knows U K where
  user := h.user
  late := h.late
  vars := h.vars
  shown b hb text htext := by
    rcases List.mem_append.mp hb with hb | hb
    · exact (h.leave tab).shown b hb text htext
    · obtain ⟨slot, -, rfl⟩ := List.mem_map.mp hb
      cases htext

theorem AppProcess.Knows.signOut (h : p.Knows U K) : p.signOut.Knows U K where
  user uid huid := by cases huid
  late f hf := by
    rcases List.mem_append.mp hf with hf | hf
    · exact h.late f hf
    · obtain ⟨uid, huid, hf⟩ := List.mem_flatMap.mp hf
      obtain ⟨b, -, rfl⟩ := List.mem_map.mp hf
      exact h.user uid (Option.mem_toList.mp huid)
  vars := h.vars
  shown b hb := by cases hb

/-- Setting a builder at its place. -/
theorem AppProcess.Knows.set (h : p.Knows U K) {b : Builder}
    (hshown : ∀ text, b.shown = some text → K b.slot text) (i : ℕ) :
    AppProcess.Knows U K { p with builders := p.builders.set i b } where
  user := h.user
  late := h.late
  vars := h.vars
  shown b' hb' text htext := by
    rcases List.mem_or_eq_of_mem_set hb' with hb' | rfl
    · exact h.shown b' hb' text htext
    · exact hshown text htext

theorem AppProcess.Knows.fetch (h : p.Knows U K) {ud : Snapshot}
    (hud : ∀ slot value, ud slot.field = some value → K slot (slot.format value)) (k : Slot)
    (ok : Bool) : AppProcess.Knows U K { p with vars := (k.fetch (answered ud ok) p.vars).2 } where
  user := h.user
  late := h.late
  vars slot := Slot.known_fetch (h.vars slot) (hud slot) k ok
  shown := h.shown

/-- All that an event brings to the process comes from the documents of its users. -/
theorem AppProcess.Knows.step {docs : Uid → Snapshot} (h : p.Knows U K)
    (hdocs : ∀ uid, U uid → ∀ slot value, docs uid slot.field = some value →
      K slot (slot.format value))
    {event : AppProcess.Event} (hevent : ∀ uid, event = .signIn uid → U uid) :
    (p.perform docs event).Knows U K := by
  cases event with
  | signIn uid =>
      refine { h with user := fun other hother => ?_, shown := nofun }
      obtain rfl := Option.some.inj hother
      exact hevent _ rfl
  | signOut => exact h.signOut
  | build tab => exact h.build tab
  | leave tab => exact h.leave tab
  | update edit =>
      have hupdated : AppProcess.Knows U K { p with myUser := edit.updateUserValue p.myUser } :=
        ⟨h.user, h.late, h.vars, h.shown⟩
      exact hupdated.build .profile
  | draw i =>
      simp only [AppProcess.perform, AppProcess.withBuilder]
      cases p.builders[i]? with
      | none => exact h
      | some b =>
          refine h.set (fun text htext => ?_) i
          obtain rfl := Option.some.inj htext
          exact h.vars b.slot
  | answer i ok =>
      simp only [AppProcess.perform, AppProcess.withBuilder]
      cases hi : p.builders[i]? with
      | none => exact h
      | some b =>
          cases huser : p.user with
          | none => exact h
          | some uid =>
              have hfetched := h.fetch (hdocs uid (h.user uid huser)) b.slot ok
              have hb := h.shown b (List.mem_of_getElem? hi)
              exact hfetched.set (b := { b with done := true }) hb i
  | answerLate j ok =>
      simp only [AppProcess.perform]
      cases hj : p.late[j]? with
      | none => exact h
      | some f =>
          have hf := List.mem_of_getElem? hj
          have hfetched := h.fetch (hdocs f.uid (h.late f hf)) f.slot ok
          exact { hfetched with late := fun g hg => h.late g (List.mem_of_mem_eraseIdx hg) }

end Steps

/-! ## All phones -/

/-- The user has been signed in on the phone. -/
def HasSignedIn (steps : List (Homes × Homes.Action)) (phone : ℕ) (uid : Uid) : Prop :=
  .signIn phone uid ∈ steps.map Prod.snd

/-- What a phone may show: the value of a variable that was never assigned, or a field of a user
who has been signed in there. -/
def Homes.Known (h : Homes) (steps : List (Homes × Homes.Action)) (phone : ℕ) (slot : Slot)
    (shown : Text) : Prop :=
  shown = slot.draws .initial ∨ ∃ uid user, HasSignedIn steps phone uid ∧
    h.users uid = some user ∧ shown = slot.format (user.get slot.field)

theorem HasSignedIn.append {steps : List (Homes × Homes.Action)} {phone : ℕ} {uid : Uid}
    (h : HasSignedIn steps phone uid) (last : Homes × Homes.Action) :
    HasSignedIn (steps ++ [last]) phone uid := by
  rw [HasSignedIn, List.map_append]
  exact List.mem_append_left _ h

/-- A document that is stored stays as it is. -/
theorem Homes.users_perform {v : Validators} {h : Homes} {a : Homes.Action} (ha : h.Enabled v a)
    {uid : Uid} {user : User} (huser : h.users uid = some user) :
    (h.perform a).users uid = some user := by
  cases a with
  | stored d =>
      have hne : uid ≠ d.id := by
        rintro rfl
        simp [Homes.Enabled, huser] at ha
      exact (if_neg hne).trans huser
  | signIn | event => exact huser

/-- The process of one phone takes the place of what ran there. -/
theorem AppProcess.Knows.put {U : Uid → Prop} {K : Slot → Text → Prop} {h : Homes}
    {phone other : ℕ} {p : AppProcess} (hkept : (h.phones phone).Knows U K)
    (hput : phone = other → p.Knows U K) : ((h.put other p).phones phone).Knows U K := by
  by_cases hphone : phone = other
  · have hsame : (h.put other p).phones phone = p := if_pos hphone
    rw [hsame]
    exact hput hphone
  · have hsame : (h.put other p).phones phone = h.phones phone := if_neg hphone
    rw [hsame]
    exact hkept

theorem homes_known {v : Validators} {steps : List (Homes × Homes.Action)} {h : Homes}
    (run : Run (homes v) (homes v).init steps h) (phone : ℕ) :
    (h.phones phone).Knows (HasSignedIn steps phone) (h.Known steps phone) := by
  induction run with
  | nil =>
      exact ⟨fun uid huid => (by cases huid), fun f hf => (by cases hf), fun slot => .inl rfl,
        fun b hb => (by cases hb)⟩
  | @snoc steps h a run ha ih =>
      have hknown : ∀ slot text, h.Known steps phone slot text →
          (h.perform a).Known (steps ++ [(h, a)]) phone slot text := by
        rintro slot text (hinit | ⟨uid, user, hsigned, huser, htext⟩)
        · exact .inl hinit
        · exact .inr ⟨uid, user, hsigned.append _, Homes.users_perform ha huser, htext⟩
      have hkept := ih.mono (fun uid huid => huid.append (h, a)) hknown
      cases a with
      | stored d => exact hkept
      | signIn other uid =>
          refine hkept.put fun hphone => ?_
          subst hphone
          refine { hkept.signOut with user := fun uid' huid' => ?_ }
          obtain rfl := Option.some.inj huid'
          simp [HasSignedIn]
      | event other event =>
          refine hkept.put fun hphone => ?_
          subst hphone
          refine hkept.step (fun uid huid slot value hvalue => ?_) ?_
          · obtain ⟨user, huser, rfl⟩ := Option.map_eq_some_iff.mp hvalue
            exact .inr ⟨uid, user, huid, huser, rfl⟩
          · rintro uid rfl
            exact ha.elim

/-! ## Below the entrance -/

/-- What the entrance does to the home screens. -/
theorem movesHome_cases {w : Entrance} {event : Entrance.Event} {a : Homes.Action}
    (h : event.movesHome w = some a) :
    (∃ d, event = .wrote d true ∧ a = .stored d) ∨
      ∃ i uid attempt, event = .answer i (.user (.ok uid)) ∧ w.attempts[i]? = some attempt ∧
        a = .signIn attempt.phone uid := by
  cases hmoves : event.moves w with
  | none => simp [Entrance.Event.movesHome, hmoves] at h
  | some b =>
      rcases moves_cases hmoves with ⟨d, rfl, rfl⟩ | ⟨i, uid, attempt, rfl, hi, rfl⟩
      · simp only [Entrance.Event.movesHome, hmoves] at h
        exact .inl ⟨d, rfl, (Option.some.inj h).symm⟩
      · simp only [Entrance.Event.movesHome, hmoves] at h
        exact .inr ⟨i, uid, attempt, rfl, hi, (Option.some.inj h).symm⟩

/-- No page of a phone is shown when a request signs a user in there. -/
def PagesClosed (u : Entrance × Homes) : Entrance.Event ⊕ Homes.Action → Prop
  | .inl event => ∀ phone ∈ event.signsInOn u.1,
      ∀ b ∈ (u.2.phones phone).builders, b.mounted = false
  | .inr _ => True

instance PagesClosed.decidable (u : Entrance × Homes) (c : Entrance.Event ⊕ Homes.Action) :
    Decidable (PagesClosed u c) := by
  apply Sum.casesOn (motive := fun c => Decidable (PagesClosed u c)) c <;> intros <;>
    unfold PagesClosed <;> infer_instance

/-! ## Runs of the entrance and the home screens -/

section Addresses

variable {address : Addressing} {v : Validators}

/-- The home screens read the documents that the entrance has stored. -/
theorem users_agree {u : Entrance × Homes} (hu : Reachable (everybody address v) u) :
    ∀ uid, u.2.users uid = u.1.services.user uid := by
  refine hu.invariant (I := fun u => ∀ uid, u.2.users uid = u.1.services.user uid)
    (fun _ => rfl) fun u c _ hsame henabled uid => ?_
  cases c with
  | inr a =>
      obtain ⟨hown, ha⟩ := henabled
      cases a with
      | event phone event => exact hsame uid
      | _ => exact hown.elim
  | inl event =>
      have hentrance : ((everybody address v).perform u (.inl event)).1 = u.1.perform event := rfl
      rw [hentrance, user_perform henabled]
      cases hmoves : event.moves u.1 with
      | none =>
          simp only [everybody, System.drives, Entrance.Event.movesHome, hmoves]
          exact hsame uid
      | some a =>
          rcases moves_cases hmoves with ⟨d, -, rfl⟩ | ⟨i, p, attempt, -, -, rfl⟩
          · simp only [everybody, System.drives, Entrance.Event.movesHome, hmoves]
            by_cases hid : uid = d.id
            · simp [homes, Homes.perform, hid]
            · simpa [homes, Homes.perform, hid] using hsame uid
          · simp only [everybody, System.drives, Entrance.Event.movesHome, hmoves]
            exact hsame uid

/-- The home screens can follow but for a sign-in beside an open page. -/
theorem followsHome_iff {u : Entrance × Homes} {c : Entrance.Event ⊕ Homes.Action}
    (hu : Reachable (everybody address v) u) (henabled : (everybody address v).Enabled u c) :
    Follows (homes v) Entrance.Event.movesHome u c ↔ PagesClosed u c := by
  cases c with
  | inr a => exact iff_of_true trivial trivial
  | inl event =>
      constructor
      · intro h phone hphone
        obtain ⟨uid, hmoves⟩ := mem_signsInOn.mp hphone
        exact h (.signIn phone uid) (by simp [Entrance.Event.movesHome, hmoves])
      · intro h a ha
        rcases movesHome_cases ha with ⟨d, rfl, rfl⟩ | ⟨i, uid, attempt, rfl, hi, rfl⟩
        · have hnone := Services.user_eq_none (reachable_consistent hu.driving).services henabled
          simp [homes, Homes.Enabled, users_agree hu, hnone]
        · exact h _ (mem_signsInOn.mpr ⟨uid, by simp [Entrance.Event.moves, hi]⟩)

/-- In the state `x` of the run a request signs the user in on the phone. -/
def SignsIn (trace : List ((Entrance × Homes) × (Entrance.Event ⊕ Homes.Action)))
    (x : Entrance × Homes) (phone : ℕ) (uid : Uid) : Prop :=
  ∃ i attempt, (x, .inl (.answer i (.user (.ok uid)))) ∈ trace ∧
    x.1.attempts[i]? = some attempt ∧ attempt.phone = phone

/-- In the state `x` of the run the creation of a user is answered, and the form of the phone then
holds what the document of this user holds. -/
def Creates (trace : List ((Entrance × Homes) × (Entrance.Event ⊕ Homes.Action)))
    (x : Entrance × Homes) (phone : ℕ) (d : Doc User) : Prop :=
  ∃ i attempt email password id, (x, .inl (.answer i (.user (.ok d.id)))) ∈ trace ∧
    x.1.attempts[i]? = some attempt ∧ attempt.phone = phone ∧
    attempt.stage = .creatingUser email password ∧
    parse (x.1.phones phone).fields.id = some id ∧ d.data = (x.1.phones phone).fields.user id

/-- What is in `users` or on its way there is what the creation of its user reads off the form. -/
theorem documents_perform {w : Entrance} {event : Entrance.Event}
    (henabled : event.Enabled address w) {d : Doc User}
    (hd : d ∈ (w.perform event).services.documents) :
    d ∈ w.services.documents ∨ ∃ i attempt email password id,
      event = .answer i (.user (.ok d.id)) ∧ w.attempts[i]? = some attempt ∧
      attempt.stage = .creatingUser email password ∧
      parse (w.phones attempt.phone).fields.id = some id ∧
      d.data = (w.phones attempt.phone).fields.user id := by
  cases event with
  | type | signUp | login | back => exact .inl hd
  | wrote d' ok =>
      refine .inl ?_
      cases ok with
      | false =>
          rcases List.mem_append.mp hd with hd | hd
          · exact List.mem_append_left _ hd
          · exact List.mem_append_right _ (List.mem_of_mem_erase hd)
      | true =>
          rcases List.mem_append.mp hd with hd | hd
          · rcases List.mem_cons.mp hd with rfl | hd
            · exact List.mem_append_right _ henabled
            · exact List.mem_append_left _ (List.mem_of_mem_filter hd)
          · exact List.mem_append_right _ (List.mem_of_mem_erase hd)
  | answer i result =>
      obtain ⟨attempt, hi, -⟩ := henabled
      have hi : w.attempts[i]? = some attempt := hi
      simp only [Entrance.perform, hi, Entrance.put] at hd
      rcases services_resume (w.scope attempt) attempt.stage result with
        hsame | ⟨email, password, uid, hstage, rfl, hcreated⟩
      · rw [hsame] at hd
        exact .inl hd
      · rw [hcreated] at hd
        simp only [Services.documents, ← List.append_assoc, List.mem_append, Option.mem_toList,
          Option.map_eq_some_iff] at hd
        rcases hd with hd | ⟨id, hid, rfl⟩
        · exact .inl (List.mem_append.mpr hd)
        · exact .inr ⟨i, attempt, email, password, id, rfl, hi, hstage, hid, rfl⟩

section Runs

variable {trace : List ((Entrance × Homes) × (Entrance.Event ⊕ Homes.Action))}
  {u : Entrance × Homes} (run : Run (everybody address v) (everybody address v).init trace u)
include run

/-- A stored document holds what stood in a form when its user was created. -/
theorem exists_creates {d : Doc User} (hd : d ∈ u.1.services.documents) :
    ∃ x phone, Creates trace x phone d := by
  induction run with
  | nil => cases hd
  | @snoc trace x c run henabled ih =>
      have hkept : d ∈ x.1.services.documents →
          ∃ y phone, Creates (trace ++ [(x, c)]) y phone d := by
        intro hd
        obtain ⟨y, phone, i, attempt, email, password, id, hmem, hform⟩ := ih hd
        exact ⟨y, phone, i, attempt, email, password, id, List.mem_append_left _ hmem, hform⟩
      cases c with
      | inr a => exact hkept hd
      | inl event =>
          rcases documents_perform henabled hd with
            hd | ⟨i, attempt, email, password, id, rfl, hi, hstage, hid, hdata⟩
          · exact hkept hd
          · exact ⟨x, attempt.phone, i, attempt, email, password, id, by simp, hi, rfl, hstage, hid,
              hdata⟩

theorem exists_signsIn {phone : ℕ} {uid : Uid}
    (h : .signIn phone uid ∈ labels (driven Entrance.Event.movesHome) trace) :
    ∃ x, SignsIn trace x phone uid := by
  obtain ⟨⟨x, c⟩, hmem, hlabel⟩ := List.mem_filterMap.mp h
  obtain ⟨-, -, -, -, henabled, -⟩ := run.split hmem
  cases c with
  | inr a =>
      obtain rfl := Option.some.inj hlabel
      exact henabled.1.elim
  | inl event =>
      rcases movesHome_cases hlabel with ⟨d, -, ha⟩ | ⟨i, uid, attempt, rfl, hi, ha⟩
      · cases ha
      · obtain ⟨rfl, rfl⟩ := Homes.Action.signIn.inj ha
        exact ⟨x, i, attempt, hmem, hi, rfl⟩

/-- What a phone shows is the value of a variable that was never assigned, or a field of a stored
document, whose user was signed in on this phone and which holds what stood in the form of the
phone where this user was created, when the creation was answered. -/
theorem shown_belongs (h : Meets PagesClosed trace) {phone : ℕ} {slot : Slot} {shown : Text}
    (hshown : (u.2.phones phone).Shows slot shown) :
    shown = slot.draws .initial ∨ ∃ uid user, u.1.services.user uid = some user ∧
      (∃ x, SignsIn trace x phone uid) ∧ (∃ x phone', Creates trace x phone' ⟨uid, user⟩) ∧
      shown = slot.format (user.get slot.field) := by
  have hfollows := (run.meets_congr fun _ _ => followsHome_iff).mpr h
  obtain ⟨steps, hsteps, hlabels⟩ := (drives_driven_iff run).mpr hfollows
  obtain ⟨b, hb, -, rfl, htext⟩ := hshown
  refine ((homes_known hsteps phone).shown b hb shown htext).imp_right ?_
  rintro ⟨uid, user, hsigned, huser, hformat⟩
  rw [users_agree ⟨trace, run⟩] at huser
  have hstored := List.mem_append_left u.1.services.writing (Services.mem_of_user huser)
  exact ⟨uid, user, huser, exists_signsIn run (hlabels ▸ hsigned), exists_creates run hstored,
    hformat⟩

end Runs

end Addresses

namespace Scenario

abbrev phones := everybody lowerCase validators

/-- A user reads the profile and logs out. A sign-up fails, and the page is opened with nobody
signed in. Then the next user logs in on the same phone, and the fetch of this session fails. -/
def nextUser : List (Entrance.Event ⊕ Homes.Action) :=
  (signedUp 0 0 '1' (.ok 1)).map .inl ++
    [.inl (.wrote ⟨1, (form '1').user 1123456789⟩ true),
      .inr (.event 0 (.build .profile)), .inr (.event 0 (.answer 2 true)),
      .inr (.event 0 (.draw 2)), .inr (.event 0 .signOut),
      .inl (.type 0 providerForm), .inl (.signUp 0), .inl (.answer 1 (.documents (.ok []))),
      .inl (.answer 1 (.user (.error (.firebase "")))), .inr (.event 0 (.build .profile)),
      .inr (.event 0 (.draw 2)), .inr (.event 0 (.leave .profile)),
      .inl (.type 1 providerForm), .inl (.signUp 1), .inl (.answer 2 (.documents (.ok []))),
      .inl (.answer 2 (.user (.ok 2))), .inl (.wrote ⟨2, providerForm.user 2123456789⟩ true),
      .inl (.login 0 providerForm.email eightDigits), .inl (.answer 3 (.user (.ok 2))),
      .inr (.event 0 (.build .profile)), .inr (.event 0 (.answer 2 false)),
      .inr (.event 0 (.draw 2))]

end Scenario

/-- What is shown is the email of the user before. -/
theorem shown_belongs_nextUser :
    let trace := Scenario.phones.steps Scenario.phones.init Scenario.nextUser
    let u := Scenario.phones.final Scenario.phones.init Scenario.nextUser
    (u.2.phones 0).user = some 2 ∧ (u.2.phones 0).Shows .email Scenario.address ∧
      (Scenario.address = Slot.email.draws .initial ∨ ∃ uid user,
        u.1.services.user uid = some user ∧ (∃ x, SignsIn trace x 0 uid) ∧
        (∃ x phone, Creates trace x phone ⟨uid, user⟩) ∧
        Scenario.address = Slot.email.format (user.get .email)) := by
  have run := Scenario.phones.run_steps Scenario.phones.init Scenario.nextUser (by decide +kernel)
  have hshown : ((Scenario.phones.final Scenario.phones.init Scenario.nextUser).2.phones 0).Shows
      .email Scenario.address := by decide +kernel
  exact ⟨by decide +kernel, hshown, shown_belongs run (by decide +kernel) hshown⟩

end Oun
