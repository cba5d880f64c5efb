import Oun.Verification.Entrance.Complete

/-! # Accounts and the texts that were validated

SIGN UP validates the form once; every later step of the sign-up reads it again. What is
created agrees with what was validated as long as nobody edits the form meanwhile. -/

namespace Oun

open Firestore Regex Numeral Future Transition

/-- For each attempt that a press on SIGN UP has started, the fields of that press. -/
abbrev Presses := ℕ → Option Fields

def press (pressed : Presses) (w : Entrance) : Entrance.Event → Presses
  | .signUp phone => Function.update pressed w.attempts.length (some (w.phones phone).fields)
  | _ => pressed

/-- Signing up and logging in, with the pressed fields as history. -/
def signUps (address : Addressing) : System (Entrance × Presses) Entrance.Event :=
  (entrance address).recording (fun _ => none) press

instance signUps.decidableEnabled (address : Addressing) (u : Entrance × Presses)
    (event : Entrance.Event) : Decidable ((signUps address).Enabled u event) :=
  inferInstanceAs (Decidable (event.Enabled address u.1))

/-- `a` is the attempt of a press on SIGN UP with the fields `f`. -/
def Signing (u : Entrance × Presses) (a : Attempt) (f : Fields) : Prop :=
  ∃ i, u.1.attempts[i]? = some a ∧ u.2 i = some f

/-- The documents in `users`, those included whose write is on its way. -/
def Services.documents (services : Services) : List (Doc User) :=
  services.users ++ services.writing

/-- What a sign-up has looked up, created and written are the texts of its press, and those
were valid; every account and document is of a press, and no two documents have one email. -/
structure Validated (u : Entrance × Presses) : Prop where
  valid : ∀ a f, Signing u a f → f.validate = true
  lookedUp : ∀ a f email, Signing u a f → a.stage = .fetchingEmail email → email = f.email
  requested : ∀ a f email password, Signing u a f → a.stage = .creatingUser email password →
    email = trim f.email ∧ password = trim f.password
  account : ∀ a f uid, Signing u a f → a.signedIn = some uid →
    ⟨uid, trim f.email, trim f.password⟩ ∈ u.1.services.accounts
  document : ∀ a f, Signing u a f → ∀ d ∈ u.1.services.documents, a.signedIn = some d.id →
    ∃ id, parse f.id = some id ∧ d.data = f.user id
  created : ∀ account ∈ u.1.services.accounts,
    ∃ a f, Signing u a f ∧ a.signedIn = some account.uid
  written : ∀ d ∈ u.1.services.documents, ∃ a f, Signing u a f ∧ a.signedIn = some d.id
  distinct : ∀ d ∈ u.1.services.documents, ∀ d' ∈ u.1.services.documents,
    d.data.email = d'.data.email → d = d'

/-! ## Conditions on single steps -/

/-- The attempt will read the form when its answer arrives. -/
def Stage.readsForm : Stage → Bool
  | .fetchingEmail _ | .creatingUser _ _ => true
  | _ => false

/-- The forms have the same texts, the repeated password apart, which is only validated. -/
def Fields.Agree (f g : Fields) : Prop :=
  f.name = g.name ∧ f.email = g.email ∧ f.id = g.id ∧ f.phone = g.phone ∧ f.password = g.password

instance Fields.decidableAgree (f g : Fields) : Decidable (f.Agree g) := by
  unfold Fields.Agree; infer_instance

/-- No text is changed while a sign-up of the phone waits. -/
def Entrance.Event.LeavesForm (w : Entrance) : Entrance.Event → Prop
  | .type phone fields => (∃ a ∈ w.attempts, a.phone = phone ∧ a.stage.readsForm = true) →
      fields.Agree (w.phones phone).fields
  | _ => True

instance Entrance.Event.decidableLeavesForm (w : Entrance) (event : Entrance.Event) :
    Decidable (event.LeavesForm w) := by
  apply Entrance.Event.casesOn (motive := fun e => Decidable (e.LeavesForm w)) event <;> intros <;>
    unfold Entrance.Event.LeavesForm <;> infer_instance

/-- The address has no account yet. -/
def Stage.Unused (address : Addressing) (services : Services) : Stage → Prop
  | .creatingUser email _ => ∀ account ∈ services.accounts, address account.email ≠ address email
  | _ => True

instance Stage.decidableUnused (address : Addressing) (services : Services) (stage : Stage) :
    Decidable (stage.Unused address services) := by
  apply Stage.casesOn (motive := fun s => Decidable (s.Unused address services)) stage <;>
    intros <;> unfold Stage.Unused <;> infer_instance

/-- `createUserWithEmailAndPassword` refuses a second account for an address. -/
def Entrance.Event.RefusesTaken (address : Addressing) (w : Entrance) : Entrance.Event → Prop
  | .answer i (.user (.ok _)) => ∀ a ∈ w.attempts[i]?, a.stage.Unused address w.services
  | _ => True

instance Entrance.Event.decidableRefusesTaken (address : Addressing) (w : Entrance)
    (event : Entrance.Event) : Decidable (event.RefusesTaken address w) := by
  unfold Entrance.Event.RefusesTaken; split <;> infer_instance

/-! ## The invariant -/

/-- While it waits, a sign-up finds the texts of its press in the form. -/
def Stage.Reads (fields f : Fields) : Stage → Prop
  | .fetchingEmail email => email = f.email ∧ fields.Agree f
  | .creatingUser email password =>
      email = trim f.email ∧ password = trim f.password ∧ fields.Agree f
  | .signingIn _ _ => False
  | .ended => True

/-- What a sign-up owns was made of the texts of its press. -/
def Attempt.Owns (services : Services) (f : Fields) (a : Attempt) : Prop :=
  ∀ uid, a.signedIn = some uid →
    ⟨uid, trim f.email, trim f.password⟩ ∈ services.accounts ∧
      ∀ d ∈ services.documents, d.id = uid → ∃ id, parse f.id = some id ∧ d.data = f.user id

/-- An attempt, with the fields of its press if it is a sign-up. -/
def Attempt.Faithful (w : Entrance) (pressed : Option Fields) (a : Attempt) : Prop :=
  match pressed with
  | some f => a.stage.Reads (w.phones a.phone).fields f ∧ a.Owns w.services f
  | none => a.stage.readsForm = false

structure SignsUp (u : Entrance × Presses) : Prop where
  pressed : ∀ i f, u.2 i = some f → i < u.1.attempts.length ∧ f.validate = true
  attempts : ∀ i (a : Attempt), u.1.attempts[i]? = some a → a.Faithful u.1 (u.2 i)
  created : ∀ account ∈ u.1.services.accounts,
    ∃ a f, Signing u a f ∧ a.signedIn = some account.uid
  emails : (u.1.services.accounts.map Account.email).Nodup

theorem SignsUp.signing {u : Entrance × Presses} (h : SignsUp u) {a : Attempt} {f : Fields}
    (hsigning : Signing u a f) : f.validate = true ∧
      a.stage.Reads (u.1.phones a.phone).fields f ∧ a.Owns u.1.services f := by
  obtain ⟨i, hi, hpressed⟩ := hsigning
  have hfaithful := h.attempts i a hi
  rw [hpressed] at hfaithful
  exact ⟨(h.pressed i f hpressed).2, hfaithful⟩

/-- Documents with one email belong to one account. -/
theorem SignsUp.validated {u : Entrance × Presses} (h : SignsUp u) (hw : u.1.Consistent) :
    Validated u := by
  have hwritten : ∀ d ∈ u.1.services.documents, ∃ a f, Signing u a f ∧ a.signedIn = some d.id := by
    intro d hd
    obtain ⟨account, haccount, huid⟩ := hw.services.owned d.id (List.mem_map_of_mem hd)
    exact huid ▸ h.created account haccount
  refine ⟨fun a f hsigning => (h.signing hsigning).1, ?_, ?_, ?_, ?_, h.created, hwritten, ?_⟩
  · intro a f email hsigning hstage
    have hreads := (h.signing hsigning).2.1
    rw [hstage] at hreads
    exact hreads.1
  · intro a f email password hsigning hstage
    have hreads := (h.signing hsigning).2.1
    rw [hstage] at hreads
    exact ⟨hreads.1, hreads.2.1⟩
  · exact fun a f uid hsigning hsigned => ((h.signing hsigning).2.2 uid hsigned).1
  · exact fun a f hsigning d hd hsigned => ((h.signing hsigning).2.2 d.id hsigned).2 d hd rfl
  · have haccount : ∀ d ∈ u.1.services.documents, ∃ account ∈ u.1.services.accounts,
        account.uid = d.id ∧ account.email = trim d.data.email := by
      intro d hd
      obtain ⟨a, f, hsigning, hsigned⟩ := hwritten d hd
      obtain ⟨haccount, hdocuments⟩ := (h.signing hsigning).2.2 d.id hsigned
      obtain ⟨id, -, hdata⟩ := hdocuments d hd rfl
      exact ⟨_, haccount, rfl, by rw [hdata, Fields.user]⟩
    intro d hd d' hd' hemail
    obtain ⟨account, hmem, huid, htrim⟩ := haccount d hd
    obtain ⟨account', hmem', huid', htrim'⟩ := haccount d' hd'
    have hsame : account = account' :=
      List.inj_on_of_nodup_map h.emails hmem hmem' (by rw [htrim, htrim', hemail])
    exact List.inj_on_of_nodup_map hw.services.nodup hd hd' (by rw [← huid, ← huid', hsame])

/-! ## What a step does to the other attempts -/

/-- `a` is `b`, but for what its screen shows. -/
def Attempt.SameAs (a b : Attempt) : Prop :=
  a.phone = b.phone ∧ a.stage = b.stage ∧ a.signedIn = b.signedIn

theorem Attempt.removedBy_sameAs (a b : Attempt) : (a.removedBy b).SameAs b := by
  unfold Attempt.removedBy
  split <;> exact ⟨rfl, rfl, rfl⟩

/-- `services'` has new accounts and for the old ones no new documents. -/
structure Services.Extends (services services' : Services) : Prop where
  accounts : ∀ account ∈ services.accounts, account ∈ services'.accounts
  documents : ∀ d ∈ services'.documents, ∀ account ∈ services.accounts, account.uid = d.id →
    d ∈ services.documents

theorem Services.Extends.refl (services : Services) : services.Extends services :=
  ⟨fun _ h => h, fun _ h _ _ _ => h⟩

theorem Stage.Reads.agree {stage : Stage} {fields fields' f : Fields}
    (h : stage.Reads fields f) (hagree : stage.readsForm = true → fields'.Agree fields) :
    stage.Reads fields' f := by
  have htrans : ∀ {g : Fields}, fields'.Agree fields → fields.Agree g → fields'.Agree g := by
    unfold Fields.Agree
    grind
  cases stage with
  | fetchingEmail email => exact ⟨h.1, htrans (hagree rfl) h.2⟩
  | creatingUser email password => exact ⟨h.1, h.2.1, htrans (hagree rfl) h.2.2⟩
  | signingIn email password => exact h
  | ended => trivial

theorem Attempt.Owns.extends {services services' : Services} {f : Fields} {a : Attempt}
    (h : a.Owns services f) (hext : services.Extends services') : a.Owns services' f := by
  intro uid hsigned
  obtain ⟨haccount, hdocuments⟩ := h uid hsigned
  refine ⟨hext.accounts _ haccount, fun d hd hid => ?_⟩
  exact hdocuments d (hext.documents d hd _ haccount hid.symm) hid

theorem Attempt.Faithful.step {w w' : Entrance} {pressed : Option Fields} {a a' : Attempt}
    (h : a.Faithful w pressed) (hsame : a'.SameAs a) (hext : w.services.Extends w'.services)
    (hform : a.stage.readsForm = true →
      (w'.phones a.phone).fields.Agree (w.phones a.phone).fields) : a'.Faithful w' pressed := by
  obtain ⟨hphone, hstage, hsigned⟩ := hsame
  unfold Attempt.Faithful at h ⊢
  cases pressed with
  | none => rwa [hstage]
  | some f =>
      obtain ⟨hreads, howns⟩ := h
      rw [hphone, hstage]
      refine ⟨hreads.agree hform, fun uid hu => ?_⟩
      exact howns.extends hext uid (hsigned ▸ hu)

theorem Attempt.Faithful.ended {w w' : Entrance} {pressed : Option Fields} {a a' : Attempt}
    (h : a.Faithful w pressed) (hservices : w'.services = w.services) (hended : a'.stage = .ended)
    (hsigned : pressed.isSome = true → a'.signedIn = a.signedIn) : a'.Faithful w' pressed := by
  unfold Attempt.Faithful at h ⊢
  cases pressed with
  | none => rw [hended]; rfl
  | some f =>
      refine ⟨by rw [hended]; trivial, fun uid hu => ?_⟩
      rw [hservices]
      exact h.2 uid (hsigned rfl ▸ hu)

/-! ## Steps that create no account -/

/-- It is enough to look at the attempts one by one. -/
theorem SignsUp.pointwise {u : Entrance × Presses} {w' : Entrance} (h : SignsUp u)
    (hlength : w'.attempts.length = u.1.attempts.length)
    (haccounts : w'.services.accounts = u.1.services.accounts)
    (hattempts : ∀ i (a' : Attempt), w'.attempts[i]? = some a' → ∃ a, u.1.attempts[i]? = some a ∧
      a'.Faithful w' (u.2 i) ∧ ((u.2 i).isSome = true → a'.signedIn = a.signedIn)) :
    SignsUp (w', u.2) where
  pressed i f hpressed := hlength ▸ h.pressed i f hpressed
  attempts i a' hi := by
    obtain ⟨a, -, hfaithful, -⟩ := hattempts i a' hi
    exact hfaithful
  created account haccount := by
    rw [haccounts] at haccount
    obtain ⟨a, f, ⟨i, hi, hpressed⟩, hsigned⟩ := h.created account haccount
    obtain ⟨hlt, -⟩ := List.getElem?_eq_some_iff.mp hi
    obtain ⟨a', hi'⟩ : ∃ a', w'.attempts[i]? = some a' :=
      ⟨_, List.getElem?_eq_getElem (hlength ▸ hlt)⟩
    obtain ⟨b, hb, -, hsame⟩ := hattempts i a' hi'
    obtain rfl : a = b := Option.some.inj (hi.symm.trans hb)
    exact ⟨a', f, ⟨i, hi', hpressed⟩, by rw [hsame (by simp [hpressed]), hsigned]⟩
  emails := haccounts ▸ h.emails

theorem SignsUp.type {u : Entrance × Presses} {phone : ℕ} {fields : Fields} (h : SignsUp u)
    (hleaves : Entrance.Event.LeavesForm u.1 (.type phone fields)) :
    SignsUp (u.1.perform (.type phone fields), u.2) := by
  refine h.pointwise rfl rfl fun i a hi => ⟨a, hi, ?_, fun _ => rfl⟩
  refine (h.attempts i a hi).step ⟨rfl, rfl, rfl⟩ (.refl _) fun hreads => ?_
  simp only [Entrance.perform]
  split
  · rename_i hphone
    rw [hphone]
    exact hleaves ⟨a, List.mem_of_getElem? hi, hphone, hreads⟩
  · exact ⟨rfl, rfl, rfl, rfl, rfl⟩

theorem SignsUp.wrote {u : Entrance × Presses} {d : Doc User} (ok : Bool) (h : SignsUp u)
    (hd : d ∈ u.1.services.writing) : SignsUp (u.1.perform (.wrote d ok), u.2) := by
  have hext : u.1.services.Extends (u.1.perform (.wrote d ok)).services := by
    refine ⟨fun account haccount => ?_, fun x hx _ _ _ => ?_⟩
    · cases ok <;> exact haccount
    · cases ok with
      | false =>
          simp only [Services.documents, Entrance.perform, List.mem_append] at hx ⊢
          exact hx.imp_right List.mem_of_mem_erase
      | true =>
          simp only [Services.documents, Entrance.perform, Services.set, ite_true,
            List.mem_append, List.mem_cons, List.mem_filter] at hx ⊢
          rcases hx with (rfl | ⟨hx, -⟩) | hx
          · exact .inr hd
          · exact .inl hx
          · exact .inr (List.mem_of_mem_erase hx)
  refine h.pointwise rfl (by cases ok <;> rfl) fun i a hi => ⟨a, hi, ?_, fun _ => rfl⟩
  exact (h.attempts i a hi).step ⟨rfl, rfl, rfl⟩ hext fun _ => ⟨rfl, rfl, rfl, rfl, rfl⟩

theorem SignsUp.back {u : Entrance × Presses} (h : SignsUp u) (i : ℕ) :
    SignsUp (u.1.perform (.back i), u.2) := by
  refine h.pointwise (by simp [Entrance.perform]) rfl fun j a' hj => ?_
  simp only [Entrance.perform, List.getElem?_modify, Option.map_eq_map,
    Option.map_eq_some_iff] at hj
  obtain ⟨a, ha, rfl⟩ := hj
  refine ⟨a, ha, (h.attempts j a ha).step ?_ (.refl _) fun _ => ⟨rfl, rfl, rfl, rfl, rfl⟩, ?_⟩
  · split <;> exact ⟨rfl, rfl, rfl⟩
  · intro _
    split <;> rfl

/-! ## Answers -/

/-- Taking an attempt back leaves the others as they were, but for their screens. -/
theorem Entrance.getElem?_put {w : Entrance} {i phone : ℕ} {s : Scope} {attempt : Attempt}
    (hi : w.attempts[i]? = some attempt) {j : ℕ} {a' : Attempt}
    (hj : (w.put i phone s).attempts[j]? = some a') :
    (j = i ∧ a'.SameAs s.attempt) ∨ (j ≠ i ∧ ∃ a, w.attempts[j]? = some a ∧ a'.SameAs a) := by
  simp only [Entrance.put, List.getElem?_map, Option.map_eq_some_iff] at hj
  obtain ⟨b, hb, rfl⟩ := hj
  have hremoved := Attempt.removedBy_sameAs s.attempt b
  by_cases hji : j = i
  · subst hji
    obtain ⟨hlt, -⟩ := List.getElem?_eq_some_iff.mp hi
    rw [List.getElem?_set_self hlt] at hb
    exact .inl ⟨rfl, Option.some.inj hb ▸ hremoved⟩
  · rw [List.getElem?_set_ne (Ne.symm hji)] at hb
    exact .inr ⟨hji, b, hb, hremoved⟩

theorem Entrance.length_put (w : Entrance) (i phone : ℕ) (s : Scope) :
    (w.put i phone s).attempts.length = w.attempts.length := by
  simp [Entrance.put]

theorem Entrance.put_self {w : Entrance} {i : ℕ} {attempt : Attempt} (phone : ℕ) (s : Scope)
    (hi : w.attempts[i]? = some attempt) :
    ∃ a', (w.put i phone s).attempts[i]? = some a' ∧ a'.SameAs s.attempt := by
  obtain ⟨hlt, -⟩ := List.getElem?_eq_some_iff.mp hi
  have hi' := List.getElem?_eq_getElem (w.length_put i phone s ▸ hlt)
  rcases Entrance.getElem?_put hi hi' with ⟨-, hsame⟩ | ⟨hne, -⟩
  · exact ⟨_, hi', hsame⟩
  · exact absurd rfl hne

theorem Entrance.put_other {w : Entrance} {i : ℕ} {attempt : Attempt} (phone : ℕ) (s : Scope)
    (hi : w.attempts[i]? = some attempt) {j : ℕ} {a : Attempt} (hji : j ≠ i)
    (hj : w.attempts[j]? = some a) :
    ∃ a', (w.put i phone s).attempts[j]? = some a' ∧ a'.SameAs a := by
  obtain ⟨hlt, -⟩ := List.getElem?_eq_some_iff.mp hj
  have hj' := List.getElem?_eq_getElem (w.length_put i phone s ▸ hlt)
  rcases Entrance.getElem?_put hi hj' with ⟨hsame, -⟩ | ⟨-, b, hb, hsame⟩
  · exact absurd hsame hji
  · exact ⟨_, hj', Option.some.inj (hj.symm.trans hb) ▸ hsame⟩

/-- The forms stay as they are while an attempt runs. -/
theorem Entrance.fields_put {w : Entrance} {i phone : ℕ} {s : Scope}
    (hfields : s.phone.fields = (w.phones phone).fields) (p : ℕ) :
    ((w.put i phone s).phones p).fields = (w.phones p).fields := by
  simp only [Entrance.put]
  split
  · rename_i hp
    rw [hp, hfields]
  · rfl

theorem Fields.Agree.refl (f : Fields) : f.Agree f := ⟨rfl, rfl, rfl, rfl, rfl⟩

section Answers

variable {u : Entrance × Presses} {i : ℕ} {attempt : Attempt} (h : SignsUp u)
  (hi : u.1.attempts[i]? = some attempt)
include h hi

/-- An answer that creates no account. -/
theorem SignsUp.put {s : Scope} (hservices : s.services = u.1.services)
    (hfields : s.phone.fields = (u.1.phones attempt.phone).fields)
    (hfaithful : s.attempt.Faithful (u.1.put i attempt.phone s) (u.2 i))
    (hsigned : (u.2 i).isSome = true → s.attempt.signedIn = attempt.signedIn) :
    SignsUp (u.1.put i attempt.phone s, u.2) := by
  have hagree : ∀ p, ((u.1.put i attempt.phone s).phones p).fields.Agree (u.1.phones p).fields :=
    fun p => Entrance.fields_put hfields p ▸ .refl _
  have hext : u.1.services.Extends (u.1.put i attempt.phone s).services := by
    simpa only [Entrance.put, hservices] using Services.Extends.refl _
  refine h.pointwise (Entrance.length_put ..) (by simp only [Entrance.put, hservices]) ?_
  intro j a' hj
  rcases Entrance.getElem?_put hi hj with ⟨rfl, hsame⟩ | ⟨-, a, ha, hsame⟩
  · refine ⟨attempt, hi, hfaithful.step hsame (.refl _) fun _ => .refl _, fun hpressed => ?_⟩
    rw [hsame.2.2, hsigned hpressed]
  · exact ⟨a, ha, (h.attempts j a ha).step hsame hext fun _ => hagree _, fun _ => hsame.2.2⟩

theorem SignsUp.documents {email : Text} (hw : u.1.Consistent)
    (hstage : attempt.stage = .fetchingEmail email) (answer : Except Error (List (Doc User))) :
    SignsUp (u.1.put i attempt.phone (signup answer (u.1.scope attempt)).2, u.2) := by
  obtain ⟨hnone, hhome⟩ := hw.scope hi (by simp [hstage])
  obtain ⟨hservices, hsigned, -⟩ :=
    signup_keeps u.1.services none false answer (u.1.scope attempt) ⟨rfl, hnone, hhome⟩
  obtain ⟨hfields, hphone, hnext⟩ := signup_keepsForm (u.1.phones attempt.phone).fields
    attempt.phone answer (u.1.scope attempt) ⟨rfl, rfl, .inl rfl⟩
  have hold := h.attempts i attempt hi
  generalize (signup answer (u.1.scope attempt)).2 = s at *
  refine h.put hi hservices hfields ?_ fun _ => by rw [hsigned]; exact hnone.symm
  unfold Attempt.Faithful at hold ⊢
  cases hpressed : u.2 i with
  | none => simp [hpressed, hstage, Stage.readsForm] at hold
  | some f =>
      rw [hpressed, hstage] at hold
      obtain ⟨⟨-, hagree⟩, -⟩ := hold
      refine ⟨?_, fun uid hu => by simp [hsigned] at hu⟩
      rcases hnext with hended | hcreating
      · rw [hended]
        trivial
      · have hemail := hagree.2.1
        have hpassword := hagree.2.2.2.2
        rw [hcreating, hphone]
        refine ⟨by rw [hemail], by rw [hpassword], ?_⟩
        rw [Entrance.fields_put hfields]
        exact hagree

theorem SignsUp.notCreated (email password : Text) (e : Error) :
    SignsUp (u.1.put i attempt.phone
      (signupCreated email password (.error e) (u.1.scope attempt)).2, u.2) := by
  obtain ⟨alert, hstate⟩ := signupCreated_failed (u.1.scope attempt) email password e
  have hold := h.attempts i attempt hi
  rw [hstate]
  exact h.put hi rfl rfl (hold.ended rfl rfl fun _ => rfl) fun _ => rfl

theorem SignsUp.signingIn {email password : Text}
    (hstage : attempt.stage = .signingIn email password) (answer : Except Error Uid) :
    SignsUp (u.1.put i attempt.phone (login answer (u.1.scope attempt)).2, u.2) := by
  have hold := h.attempts i attempt hi
  have hnone : u.2 i = none := by
    cases hpressed : u.2 i with
    | none => rfl
    | some f =>
        rw [hpressed] at hold
        simp only [Attempt.Faithful, hstage, Stage.Reads, false_and] at hold
  cases answer with
  | ok uid =>
      rw [login_ok]
      exact h.put hi rfl rfl (hold.ended rfl rfl (by simp [hnone])) (by simp [hnone])
  | error e =>
      obtain ⟨alert, hstate⟩ := login_error (u.1.scope attempt) e
      rw [hstate]
      exact h.put hi rfl rfl (hold.ended rfl rfl (by simp [hnone])) (by simp [hnone])

/-- An attempt that creates an account has been pressed, and its form is still the same. -/
theorem SignsUp.creating {email password : Text}
    (hstage : attempt.stage = .creatingUser email password) :
    ∃ f, u.2 i = some f ∧ email = trim f.email ∧ password = trim f.password ∧
      (u.1.phones attempt.phone).fields.Agree f := by
  have hold := h.attempts i attempt hi
  cases hpressed : u.2 i with
  | none => simp [Attempt.Faithful, hpressed, hstage, Stage.readsForm] at hold
  | some f =>
      simp only [Attempt.Faithful, hpressed, hstage, Stage.Reads] at hold
      exact ⟨f, rfl, hold.1⟩

/-- A new account of a press, and perhaps its document. -/
theorem SignsUp.create {s : Scope} {email password : Text} {uid : Uid} (hw : u.1.Consistent)
    (hstage : attempt.stage = .creatingUser email password)
    (hnew : ∀ account ∈ u.1.services.accounts, account.uid ≠ uid)
    (hunused : ∀ account ∈ u.1.services.accounts, account.email ≠ email)
    (hended : s.attempt.stage = .ended) (hsigned : s.attempt.signedIn = some uid)
    (hfields : s.phone.fields = (u.1.phones attempt.phone).fields)
    (haccounts : s.services.accounts = ⟨uid, email, password⟩ :: u.1.services.accounts)
    (hdocuments : ∀ d ∈ s.services.documents, d ∈ u.1.services.documents ∨
      ∃ id, parse s.phone.fields.id = some id ∧ d = ⟨uid, s.phone.fields.user id⟩) :
    SignsUp (u.1.put i attempt.phone s, u.2) := by
  obtain ⟨f, hpressed, hemail, hpassword, hagree⟩ := h.creating hi hstage
  rw [← hfields] at hagree
  have hext : u.1.services.Extends (u.1.put i attempt.phone s).services := by
    refine ⟨fun account haccount => ?_, fun d hd account haccount huid => ?_⟩
    · exact haccounts ▸ List.mem_cons_of_mem _ haccount
    · rcases hdocuments d hd with hd | ⟨id, -, rfl⟩
      · exact hd
      · exact absurd huid (hnew account haccount)
  have howns : s.attempt.Owns s.services f := by
    intro uid' huid'
    obtain rfl : uid = uid' := Option.some.inj (hsigned.symm.trans huid')
    refine ⟨?_, fun d hd hid => ?_⟩
    · rw [← hemail, ← hpassword]
      exact haccounts ▸ List.mem_cons_self
    · rcases hdocuments d hd with hd | ⟨id, hparse, rfl⟩
      · exact absurd (List.mem_map_of_mem hd) (hid ▸ hw.services.not_mem_ids hnew)
      · obtain ⟨hname, hemail', hid', hphone, hpassword'⟩ := hagree
        refine ⟨id, hid' ▸ hparse, ?_⟩
        simp only [Fields.user, hname, hemail', hphone, hpassword']
  have hlength := u.1.length_put i attempt.phone s
  refine ⟨fun j g hg => hlength ▸ h.pressed j g hg, fun j a' hj => ?_, ?_, ?_⟩
  · rcases Entrance.getElem?_put hi hj with ⟨rfl, hsame⟩ | ⟨-, a, ha, hsame⟩
    · simp only [Attempt.Faithful, hpressed, hsame.2.1, hended, Stage.Reads, true_and]
      exact fun uid' huid' => howns uid' (hsame.2.2.symm.trans huid')
    · exact (h.attempts j a ha).step hsame hext fun _ =>
        Entrance.fields_put hfields a.phone ▸ .refl _
  · intro account haccount
    rcases List.mem_cons.mp (haccounts ▸ haccount) with rfl | haccount
    · obtain ⟨a', hi', hsame⟩ := Entrance.put_self attempt.phone s hi
      exact ⟨a', f, ⟨i, hi', hpressed⟩, hsame.2.2.trans hsigned⟩
    · obtain ⟨a, g, ⟨j, hj, hg⟩, hsign⟩ := h.created account haccount
      have hji : j ≠ i := by
        rintro rfl
        obtain rfl := Option.some.inj (hi.symm.trans hj)
        have hnone := (hw.waiting attempt (List.mem_of_getElem? hi) (by simp [hstage])).1
        simp [hnone] at hsign
      obtain ⟨a', hj', hsame⟩ := Entrance.put_other attempt.phone s hi hji hj
      exact ⟨a', g, ⟨j, hj', hg⟩, hsame.2.2.trans hsign⟩
  · show (s.services.accounts.map Account.email).Nodup
    rw [haccounts, List.map_cons, List.nodup_cons]
    refine ⟨fun hmem => ?_, h.emails⟩
    obtain ⟨account, haccount, hsame⟩ := List.mem_map.mp hmem
    exact hunused account haccount hsame

theorem SignsUp.createdOk {email password : Text} {uid : Uid} (hw : u.1.Consistent)
    (hstage : attempt.stage = .creatingUser email password)
    (hnew : ∀ account ∈ u.1.services.accounts, account.uid ≠ uid)
    (hunused : ∀ account ∈ u.1.services.accounts, account.email ≠ email) :
    SignsUp (u.1.put i attempt.phone
      (signupCreated email password (.ok uid) (u.1.scope attempt)).2, u.2) := by
  cases hid : parse (u.1.phones attempt.phone).fields.id with
  | none =>
      obtain ⟨alert, hstate⟩ := signupCreated_malformed (u.1.scope attempt) email password uid hid
      rw [hstate]
      exact h.create hi hw hstage hnew hunused rfl rfl rfl rfl fun d hd => .inl hd
  | some id =>
      rw [signupCreated_stored (u.1.scope attempt) email password uid hid]
      refine h.create hi hw hstage hnew hunused rfl rfl rfl rfl fun d hd => ?_
      simp only [Services.documents, ← List.append_assoc] at hd
      refine (List.mem_append.mp hd).imp_right fun hd => ⟨id, hid, ?_⟩
      exact List.mem_singleton.mp hd

end Answers

/-! ## New attempts -/

theorem SignsUp.append {u : Entrance × Presses} {a : Attempt} {p : Option Fields}
    (h : SignsUp u) (hvalid : ∀ f, p = some f → f.validate = true)
    (hfaithful : a.Faithful u.1 p) :
    SignsUp ({ u.1 with attempts := u.1.attempts ++ [a] },
      Function.update u.2 u.1.attempts.length p) where
  pressed i f hi := by
    dsimp only at hi ⊢
    rw [List.length_append, List.length_singleton]
    by_cases hlast : i = u.1.attempts.length
    · subst hlast
      exact ⟨Nat.lt_succ_self _, hvalid f (by simpa using hi)⟩
    · rw [Function.update_of_ne hlast] at hi
      exact ⟨Nat.lt_succ_of_lt (h.pressed i f hi).1, (h.pressed i f hi).2⟩
  attempts i b hb := by
    dsimp only at hb ⊢
    rcases Nat.lt_or_ge i u.1.attempts.length with hlt | hge
    · rw [List.getElem?_append_left hlt] at hb
      rw [Function.update_of_ne hlt.ne]
      exact h.attempts i b hb
    · rw [List.getElem?_append_right hge, List.getElem?_singleton] at hb
      split at hb
      · obtain rfl : i = u.1.attempts.length := by omega
        rw [Function.update_self, ← Option.some.inj hb]
        exact hfaithful
      · cases hb
  created account haccount := by
    obtain ⟨b, f, ⟨i, hi, hpressed⟩, hsigned⟩ := h.created account haccount
    have hlt := (h.pressed i f hpressed).1
    refine ⟨b, f, ⟨i, ?_, ?_⟩, hsigned⟩ <;> dsimp only
    · rwa [List.getElem?_append_left hlt]
    · rwa [Function.update_of_ne hlt.ne]
  emails := h.emails

section Runs

variable {address : Addressing}

theorem SignsUp.signUp {u : Entrance × Presses} {phone : ℕ} (h : SignsUp u)
    (hvalid : (u.1.phones phone).fields.validate = true) :
    SignsUp ((signUps address).perform u (.signUp phone)) := by
  refine h.append (fun f hf => Option.some.inj hf ▸ hvalid) ⟨⟨rfl, .refl _⟩, fun uid hu => ?_⟩
  cases hu

theorem SignsUp.login {u : Entrance × Presses} (h : SignsUp u) (phone : ℕ)
    (email password : Text) :
    SignsUp ((signUps address).perform u (.login phone email password)) := by
  have hlast : u.2 u.1.attempts.length = none := by
    cases hpressed : u.2 u.1.attempts.length with
    | none => rfl
    | some f => exact absurd (h.pressed _ f hpressed).1 (Nat.lt_irrefl _)
  have happend : ∀ a : Attempt, a.stage.readsForm = false →
      SignsUp ({ u.1 with attempts := u.1.attempts ++ [a] }, u.2) := by
    intro a ha
    have hnext := h.append (a := a) (p := none) (fun f hf => by cases hf) ha
    rwa [← hlast, Function.update_eq_self] at hnext
  refine happend _ ?_
  split <;> rfl

/-! ## One step and whole runs -/

theorem SignsUp.step {u : Entrance × Presses} {event : Entrance.Event} (h : SignsUp u)
    (hw : u.1.Consistent) (henabled : event.Enabled address u.1) (hleaves : event.LeavesForm u.1)
    (hrefuses : event.RefusesTaken address u.1) : SignsUp ((signUps address).perform u event) := by
  cases event with
  | type phone fields => exact h.type hleaves
  | signUp phone => exact h.signUp henabled
  | login phone email password => exact h.login phone email password
  | back i => exact h.back i
  | wrote d ok => exact h.wrote ok henabled
  | answer i result =>
      obtain ⟨attempt, hi, hanswered⟩ := henabled
      have hi : u.1.attempts[i]? = some attempt := hi
      have hput : (signUps address).perform u (.answer i result) =
          (u.1.put i attempt.phone (attempt.stage.resume result (u.1.scope attempt)).2, u.2) := by
        simp only [signUps, System.recording, entrance, Entrance.perform, hi, press]
      rw [hput]
      cases hstage : attempt.stage with
      | fetchingEmail email =>
          cases result with
          | documents answer => exact h.documents hi hw hstage answer
          | user answer => rw [hstage] at hanswered; exact hanswered.elim
      | creatingUser email password =>
          cases result with
          | documents answer => rw [hstage] at hanswered; cases answer <;> exact hanswered.elim
          | user answer =>
              cases answer with
              | error e => exact h.notCreated hi email password e
              | ok uid =>
                  rw [hstage] at hanswered
                  have hunused := hrefuses attempt hi
                  rw [hstage] at hunused
                  exact h.createdOk hi hw hstage hanswered fun account haccount hemail =>
                    hunused account haccount (congrArg address hemail)
      | signingIn email password =>
          cases result with
          | documents answer => rw [hstage] at hanswered; cases answer <;> exact hanswered.elim
          | user answer => exact h.signingIn hi hstage answer
      | ended => rw [hstage] at hanswered; exact hanswered.elim

/-- If no form is edited under a waiting sign-up, all that sign-ups look up, create and write
are the texts that were validated, and no two documents have one email. -/
theorem created_from_validated {trace : List ((Entrance × Presses) × Entrance.Event)}
    {u : Entrance × Presses} (run : Run (signUps address) (signUps address).init trace u)
    (hrefuses : Meets (fun v event => event.RefusesTaken address v.1) trace)
    (hleaves : Meets (fun v event => event.LeavesForm v.1) trace) :
    ∀ v ∈ visited trace u, Validated v := by
  intro v hv
  obtain ⟨front, back, rfl, hfront, -⟩ := run.split_visited hv
  rw [meets_append] at hrefuses hleaves
  have hsigns : SignsUp v := by
    refine hfront.invariant_init (I := SignsUp) (C := fun v event =>
      event.LeavesForm v.1 ∧ event.RefusesTaken address v.1) ?_ ?_ ?_
    · exact fun step hstep => ⟨hleaves.1 step hstep, hrefuses.1 step hstep⟩
    · exact ⟨by simp [signUps, System.recording],
        by simp [signUps, System.recording, entrance, Entrance.init],
        by simp [signUps, System.recording, entrance, Entrance.init], List.nodup_nil⟩
    · intro w event hw h henabled hC
      exact h.step (reachable_consistent hw.forget) henabled hC.1 hC.2
  have hreach : Reachable (signUps address) v := ⟨_, hfront⟩
  exact hsigns.validated (reachable_consistent hreach.forget)

end Runs

namespace Scenario

abbrev pressing := signUps lowerCase

/-- A sign-up whose repeated password is deleted while it waits. -/
def signedUpOnce : List Entrance.Event :=
  [.type 0 (form '1'), .signUp 0, .type 0 { form '1' with confirm := [] },
    .answer 0 (.documents (.ok [])), .answer 0 (.user (.ok 7)),
    .wrote ⟨7, (form '1').user 1123456789⟩ true]

def otherForm : Fields :=
  { form '2' with email := text ['b', '@', 'k', 's', 'u', '.', 's', 'a'] }

/-- Then a sign-up with another email, which is replaced by the first while the account is
created. -/
def editedMeanwhile : List Entrance.Event :=
  signedUpOnce ++ [.type 1 otherForm, .signUp 1, .answer 1 (.documents (.ok [])),
    .type 1 (form '2'), .answer 1 (.user (.ok 8)), .wrote ⟨8, (form '2').user 2123456789⟩ true]

end Scenario

/-- The repeated password is not read again. -/
theorem created_from_validated_signedUpOnce :
    (Scenario.pressing.final Scenario.pressing.init Scenario.signedUpOnce).1.services.users ≠ [] ∧
      ∀ v ∈ visited (Scenario.pressing.steps Scenario.pressing.init Scenario.signedUpOnce)
        (Scenario.pressing.final Scenario.pressing.init Scenario.signedUpOnce), Validated v :=
  ⟨by decide +kernel,
    created_from_validated (Scenario.pressing.run_steps _ Scenario.signedUpOnce (by decide +kernel))
      (by decide +kernel) (by decide +kernel)⟩

/-- Two documents with one email are reachable by an edit. -/
theorem edited_meanwhile_reachable :
    ¬ ∀ trace u, Run Scenario.pressing Scenario.pressing.init trace u →
      Meets (fun v event => event.RefusesTaken Scenario.lowerCase v.1) trace → Validated u := by
  intro h
  have run := Scenario.pressing.run_steps Scenario.pressing.init Scenario.editedMeanwhile
    (by decide +kernel)
  have hvalidated := h _ _ run (by decide +kernel)
  set u := Scenario.pressing.final Scenario.pressing.init Scenario.editedMeanwhile with hu
  have htwo : ∃ d ∈ u.1.services.documents, ∃ d' ∈ u.1.services.documents,
      d.data.email = d'.data.email ∧ d ≠ d' := by
    rw [hu]
    decide +kernel
  obtain ⟨d, hd, d', hd', hemail, hne⟩ := htwo
  exact hne (hvalidated.distinct d hd d' hd' hemail)

end Oun
