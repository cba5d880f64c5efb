import Oun.Verification.Entrance.Validated

/-! # One account for one address

An attempt signs in an account with the address and the password of the texts it has presented.
As long as no address gets a second account, an address stands for one account and one password,
all along a run, whatever the service takes for the same address. -/

namespace Oun

open Firestore Regex Numeral Future Transition

/-- For each attempt, the texts of its email and of its password. -/
abbrev Presented := ℕ → Option (Text × Text)

/-- LOGIN reads its texts when it is pressed, a sign-up when its lookup is answered. -/
def present (presented : Presented) (w : Entrance) : Entrance.Event → Presented
  | .login _ email password =>
      Function.update presented w.attempts.length (some (email, password))
  | .answer i (.documents _) =>
      Function.update presented i ((w.attempts[i]?).map fun a =>
        ((w.phones a.phone).fields.email, (w.phones a.phone).fields.password))
  | _ => presented

/-- Signing up and logging in, with the presented texts as history. -/
def signIns (address : Addressing) : System (Entrance × Presented) Entrance.Event :=
  (entrance address).recording (fun _ => none) present

instance signIns.decidableEnabled (address : Addressing) (u : Entrance × Presented)
    (event : Entrance.Event) : Decidable ((signIns address).Enabled u event) :=
  inferInstanceAs (Decidable (event.Enabled address u.1))

/-- What the services make of the texts. -/
def credentials (address : Addressing) (texts : Text × Text) : Text × Text :=
  (address (trim texts.1), trim texts.2)

/-- An attempt has presented the texts and signed the user in. -/
def SignedIn (u : Entrance × Presented) (texts : Text × Text) (uid : Uid) : Prop :=
  ∃ i a, u.1.attempts[i]? = some a ∧ u.2 i = some texts ∧ a.signedIn = some uid

/-! ## The invariant -/

/-- An account of the user has these credentials. -/
def Services.Knows (address : Addressing) (services : Services) (texts : Text × Text)
    (uid : Uid) : Prop :=
  ∃ account ∈ services.accounts, account.uid = uid ∧
    (address account.email, account.password) = credentials address texts

structure Attempt.Presents (address : Addressing) (services : Services)
    (presented : Option (Text × Text)) (a : Attempt) : Prop where
  asks : ∀ email password,
    a.stage = .creatingUser email password ∨ a.stage = .signingIn email password →
      ∃ texts, presented = some texts ∧ trim texts.1 = email ∧ trim texts.2 = password
  signed : ∀ uid, a.signedIn = some uid →
    ∃ texts, presented = some texts ∧ services.Knows address texts uid

structure Identified (address : Addressing) (u : Entrance × Presented) : Prop where
  attempts : ∀ i (a : Attempt), u.1.attempts[i]? = some a → a.Presents address u.1.services (u.2 i)
  uids : (u.1.services.accounts.map Account.uid).Nodup
  emails : (u.1.services.accounts.map fun account => address account.email).Nodup

section Addresses

variable {address : Addressing}

theorem Services.Knows.mono {services services' : Services} {texts : Text × Text} {uid : Uid}
    (h : services.Knows address texts uid) (haccounts : services.accounts ⊆ services'.accounts) :
    services'.Knows address texts uid := by
  obtain ⟨account, haccount, hknown⟩ := h
  exact ⟨account, haccounts haccount, hknown⟩

theorem Attempt.Presents.step {services services' : Services} {presented : Option (Text × Text)}
    {a a' : Attempt} (h : a.Presents address services presented) (hsame : a'.SameAs a)
    (haccounts : services.accounts ⊆ services'.accounts) :
    a'.Presents address services' presented where
  asks := hsame.2.1 ▸ h.asks
  signed uid huid := by
    obtain ⟨texts, hpresented, hknows⟩ := h.signed uid (hsame.2.2 ▸ huid)
    exact ⟨texts, hpresented, hknows.mono haccounts⟩

/-- An attempt that has nothing left to ask for. -/
theorem Attempt.Presents.ended {services : Services} {presented : Option (Text × Text)}
    {a : Attempt} (hended : a.stage = .ended) (hsigned : ∀ uid, a.signedIn = some uid →
      ∃ texts, presented = some texts ∧ services.Knows address texts uid) :
    a.Presents address services presented where
  asks email password hasks := by simp [hended] at hasks
  signed := hsigned

/-! ## What a step keeps -/

/-- The attempts are as before, but for their screens. -/
theorem Identified.same {u : Entrance × Presented} {w' : Entrance} (h : Identified address u)
    (haccounts : w'.services.accounts = u.1.services.accounts)
    (hattempts : ∀ (i : ℕ) (a' : Attempt), w'.attempts[i]? = some a' →
      ∃ a, u.1.attempts[i]? = some a ∧ a'.SameAs a) : Identified address (w', u.2) where
  attempts i a' hi := by
    obtain ⟨a, ha, hsame⟩ := hattempts i a' hi
    exact (h.attempts i a ha).step hsame (haccounts ▸ List.Subset.refl _)
  uids := haccounts ▸ h.uids
  emails := haccounts ▸ h.emails

theorem Identified.append {u : Entrance × Presented} {a : Attempt} {presented : Presented}
    (h : Identified address u) (hold : ∀ i < u.1.attempts.length, presented i = u.2 i)
    (hnew : a.Presents address u.1.services (presented u.1.attempts.length)) :
    Identified address ({ u.1 with attempts := u.1.attempts ++ [a] }, presented) where
  attempts i b hb := by
    dsimp only at hb ⊢
    rcases Nat.lt_or_ge i u.1.attempts.length with hlt | hge
    · rw [List.getElem?_append_left hlt] at hb
      rw [hold i hlt]
      exact h.attempts i b hb
    · rw [List.getElem?_append_right hge, List.getElem?_singleton] at hb
      split at hb
      · obtain rfl : i = u.1.attempts.length := by omega
        exact Option.some.inj hb ▸ hnew
      · cases hb
  uids := h.uids
  emails := h.emails

section Answers

variable {u : Entrance × Presented} {i : ℕ} {attempt : Attempt} (h : Identified address u)
  (hi : u.1.attempts[i]? = some attempt)

include h hi

theorem Identified.put {s : Scope} {texts : Option (Text × Text)}
    (haccounts : u.1.services.accounts ⊆ s.services.accounts)
    (hpresents : s.attempt.Presents address s.services texts)
    (huids : (s.services.accounts.map Account.uid).Nodup)
    (hemails : (s.services.accounts.map fun account => address account.email).Nodup) :
    Identified address (u.1.put i attempt.phone s, Function.update u.2 i texts) where
  attempts j a' hj := by
    dsimp only
    rcases Entrance.getElem?_put hi hj with ⟨rfl, hsame⟩ | ⟨hji, a, ha, hsame⟩
    · rw [Function.update_self]
      exact hpresents.step hsame (List.Subset.refl _)
    · rw [Function.update_of_ne hji]
      exact (h.attempts j a ha).step hsame haccounts
  uids := huids
  emails := hemails

/-- The same for an answer on which nothing is read off the screen. -/
theorem Identified.put_self {s : Scope}
    (haccounts : u.1.services.accounts ⊆ s.services.accounts)
    (hpresents : s.attempt.Presents address s.services (u.2 i))
    (huids : (s.services.accounts.map Account.uid).Nodup)
    (hemails : (s.services.accounts.map fun account => address account.email).Nodup) :
    Identified address (u.1.put i attempt.phone s, u.2) := by
  have hput := h.put hi haccounts hpresents huids hemails
  rwa [Function.update_eq_self] at hput

theorem Identified.documents (hw : u.1.Consistent) (hstage : attempt.stage ≠ .ended)
    (answer : Except Error (List (Doc User))) :
    Identified address (u.1.put i attempt.phone (signup answer (u.1.scope attempt)).2,
      Function.update u.2 i (some ((u.1.phones attempt.phone).fields.email,
        (u.1.phones attempt.phone).fields.password))) := by
  obtain ⟨hnone, hhome⟩ := hw.scope hi hstage
  obtain ⟨hservices, hsigned, -⟩ :=
    signup_keeps u.1.services none false answer (u.1.scope attempt) ⟨rfl, hnone, hhome⟩
  obtain ⟨-, -, hnext⟩ := signup_keepsForm (u.1.phones attempt.phone).fields
    attempt.phone answer (u.1.scope attempt) ⟨rfl, rfl, .inl rfl⟩
  generalize (signup answer (u.1.scope attempt)).2 = s at *
  refine h.put hi (hservices ▸ List.Subset.refl _) ⟨?_, ?_⟩ (hservices ▸ h.uids)
    (hservices ▸ h.emails)
  · intro email password hasks
    rcases hnext with hended | hcreating
    · simp [hended] at hasks
    · simp only [hcreating, Stage.creatingUser.injEq, reduceCtorEq, or_false] at hasks
      exact ⟨_, rfl, hasks⟩
  · intro uid huid
    simp [hsigned] at huid

theorem Identified.notCreated (hw : u.1.Consistent) (hstage : attempt.stage ≠ .ended)
    (email password : Text) (e : Error) :
    Identified address (u.1.put i attempt.phone
      (signupCreated email password (.error e) (u.1.scope attempt)).2, u.2) := by
  obtain ⟨hnone, -⟩ := hw.scope hi hstage
  obtain ⟨alert, hstate⟩ := signupCreated_failed (u.1.scope attempt) email password e
  rw [hstate]
  refine h.put_self hi (List.Subset.refl _) (.ended rfl fun uid huid => ?_) h.uids h.emails
  simp [hnone] at huid

/-- What is known of a sign-in that succeeds. -/
theorem Identified.asked {email password : Text}
    (hstage : attempt.stage = .creatingUser email password ∨
      attempt.stage = .signingIn email password) :
    ∃ texts, u.2 i = some texts ∧ ∀ services : Services, ∀ account ∈ services.accounts,
      address account.email = address email → account.password = password →
        services.Knows address texts account.uid := by
  obtain ⟨texts, hpresented, rfl, rfl⟩ := (h.attempts i attempt hi).asks email password hstage
  exact ⟨texts, hpresented, fun services account haccount hemail hpassword =>
    ⟨account, haccount, rfl, Prod.ext hemail hpassword⟩⟩

theorem Identified.created {email password : Text} {uid : Uid} {s : Scope}
    (hstage : attempt.stage = .creatingUser email password)
    (hnew : ∀ account ∈ u.1.services.accounts, account.uid ≠ uid)
    (hunused : ∀ account ∈ u.1.services.accounts, address account.email ≠ address email)
    (hended : s.attempt.stage = .ended) (hsigned : s.attempt.signedIn = some uid)
    (haccounts : s.services.accounts = ⟨uid, email, password⟩ :: u.1.services.accounts) :
    Identified address (u.1.put i attempt.phone s, u.2) := by
  obtain ⟨texts, hpresented, hknows⟩ := h.asked hi (.inl hstage)
  refine h.put_self hi (haccounts ▸ List.subset_cons_self _ _) (.ended hended ?_) ?_ ?_
  · intro uid' huid'
    obtain rfl : uid = uid' := Option.some.inj (hsigned.symm.trans huid')
    exact ⟨texts, hpresented, hknows _ _ (haccounts ▸ List.mem_cons_self) rfl rfl⟩
  · rw [haccounts, List.map_cons, List.nodup_cons]
    exact ⟨by simpa using hnew, h.uids⟩
  · rw [haccounts, List.map_cons, List.nodup_cons]
    exact ⟨by simpa using hunused, h.emails⟩

theorem Identified.createdOk {email password : Text} {uid : Uid}
    (hstage : attempt.stage = .creatingUser email password)
    (hnew : ∀ account ∈ u.1.services.accounts, account.uid ≠ uid)
    (hunused : ∀ account ∈ u.1.services.accounts, address account.email ≠ address email) :
    Identified address (u.1.put i attempt.phone
      (signupCreated email password (.ok uid) (u.1.scope attempt)).2, u.2) := by
  cases hid : parse (u.1.phones attempt.phone).fields.id with
  | none =>
      obtain ⟨alert, hstate⟩ := signupCreated_malformed (u.1.scope attempt) email password uid hid
      rw [hstate]
      exact h.created hi hstage hnew hunused rfl rfl rfl
  | some id =>
      rw [signupCreated_stored (u.1.scope attempt) email password uid hid]
      exact h.created hi hstage hnew hunused rfl rfl rfl

theorem Identified.signingIn (hw : u.1.Consistent) {email password : Text}
    (hstage : attempt.stage = .signingIn email password) (answer : Except Error Uid)
    (hanswered : ∀ uid, answer = .ok uid → ∃ account ∈ u.1.services.accounts,
      account.uid = uid ∧ address account.email = address email ∧ account.password = password) :
    Identified address (u.1.put i attempt.phone (login answer (u.1.scope attempt)).2, u.2) := by
  cases answer with
  | error e =>
      obtain ⟨hnone, -⟩ := hw.scope hi (by simp [hstage])
      obtain ⟨alert, hstate⟩ := login_error (u.1.scope attempt) e
      rw [hstate]
      refine h.put_self hi (List.Subset.refl _) (.ended rfl fun uid huid => ?_) h.uids h.emails
      simp [hnone] at huid
  | ok uid =>
      obtain ⟨texts, hpresented, hknows⟩ := h.asked hi (.inr hstage)
      rw [login_ok]
      refine h.put_self hi (List.Subset.refl _) (.ended rfl fun uid' huid' => ?_) h.uids h.emails
      obtain rfl : uid = uid' := Option.some.inj huid'
      obtain ⟨account, haccount, rfl, hemail, hpassword⟩ := hanswered uid rfl
      exact ⟨texts, hpresented, hknows _ account haccount hemail hpassword⟩

end Answers

theorem Identified.step {u : Entrance × Presented} {event : Entrance.Event}
    (h : Identified address u) (hw : u.1.Consistent) (henabled : event.Enabled address u.1)
    (hrefuses : event.RefusesTaken address u.1) :
    Identified address ((signIns address).perform u event) := by
  cases event with
  | type phone fields => exact h.same rfl fun i a hi => ⟨a, hi, rfl, rfl, rfl⟩
  | signUp phone =>
      refine h.append (fun _ _ => rfl) ⟨?_, ?_⟩
      · intro email password hasks
        simp at hasks
      · intro uid huid
        cases huid
  | login phone email password =>
      refine h.append (fun i hlt => Function.update_of_ne hlt.ne _ _) ?_
      rw [present, Function.update_self]
      split
      · refine ⟨fun email' password' hasks => ⟨_, rfl, ?_⟩, fun uid huid => by cases huid⟩
        simpa using hasks
      · exact .ended rfl fun uid huid => by cases huid
  | back i =>
      refine h.same rfl fun j a' hj => ?_
      have hj : (u.1.perform (.back i)).attempts[j]? = some a' := hj
      simp only [Entrance.perform, List.getElem?_modify, Option.map_eq_map,
        Option.map_eq_some_iff] at hj
      obtain ⟨a, ha, rfl⟩ := hj
      refine ⟨a, ha, ?_⟩
      split <;> exact ⟨rfl, rfl, rfl⟩
  | wrote d ok => exact h.same (by cases ok <;> rfl) fun i a hi => ⟨a, hi, rfl, rfl, rfl⟩
  | answer i result =>
      obtain ⟨attempt, hi, hanswered⟩ := henabled
      have hi : u.1.attempts[i]? = some attempt := hi
      have hput : (signIns address).perform u (.answer i result) =
          (u.1.put i attempt.phone (attempt.stage.resume result (u.1.scope attempt)).2,
            present u.2 u.1 (.answer i result)) := by
        simp only [signIns, System.recording, entrance, Entrance.perform, hi]
      rw [hput]
      cases hstage : attempt.stage with
      | fetchingEmail email =>
          cases result with
          | documents answer =>
              simp only [present, hi, Option.map_some]
              exact h.documents hi hw (by simp [hstage]) answer
          | user answer => rw [hstage] at hanswered; exact hanswered.elim
      | creatingUser email password =>
          cases result with
          | documents answer => rw [hstage] at hanswered; cases answer <;> exact hanswered.elim
          | user answer =>
              cases answer with
              | error e => exact h.notCreated hi hw (by simp [hstage]) email password e
              | ok uid =>
                  rw [hstage] at hanswered
                  have hunused := hrefuses attempt hi
                  rw [hstage] at hunused
                  exact h.createdOk hi hstage hanswered hunused
      | signingIn email password =>
          cases result with
          | documents answer => rw [hstage] at hanswered; cases answer <;> exact hanswered.elim
          | user answer =>
              refine h.signingIn hi hw hstage answer fun uid huid => ?_
              rw [hstage, huid] at hanswered
              exact hanswered
      | ended => rw [hstage] at hanswered; exact hanswered.elim

theorem Identified.of_run {trace : List ((Entrance × Presented) × Entrance.Event)}
    {u : Entrance × Presented} (run : Run (signIns address) (signIns address).init trace u)
    (hrefuses : Meets (fun v event => event.RefusesTaken address v.1) trace) :
    Identified address u := by
  refine run.invariant_init hrefuses ⟨?_, List.nodup_nil, List.nodup_nil⟩ ?_
  · simp [signIns, System.recording, entrance, Entrance.init]
  · intro v event hreach hv henabled hC
    exact hv.step (reachable_consistent hreach.forget) henabled hC

/-! ## Accounts stay -/

theorem accounts_resume (stage : Stage) (result : Answer) (s : Scope) :
    s.services.accounts ⊆ (stage.resume result s).2.services.accounts := by
  rcases services_resume s stage result with hsame | ⟨email, password, uid, -, -, hcreated⟩
  · exact hsame ▸ List.Subset.refl _
  · exact hcreated ▸ List.subset_cons_self _ _

theorem accounts_perform {w : Entrance} {event : Entrance.Event}
    (henabled : event.Enabled address w) :
    w.services.accounts ⊆ (w.perform event).services.accounts := by
  cases event with
  | type | signUp | login | back => exact List.Subset.refl _
  | wrote d ok => cases ok <;> exact List.Subset.refl _
  | answer i result =>
      obtain ⟨attempt, hi, -⟩ := henabled
      have hi : w.attempts[i]? = some attempt := hi
      simp only [Entrance.perform, hi]
      exact accounts_resume attempt.stage result (w.scope attempt)

theorem accounts_run {u v : Entrance × Presented}
    {trace : List ((Entrance × Presented) × Entrance.Event)}
    (run : Run (signIns address) u trace v) :
    u.1.services.accounts ⊆ v.1.services.accounts :=
  run.invariant (C := fun _ _ => True) (I := fun w => u.1.services.accounts ⊆ w.1.services.accounts)
    (fun _ _ => trivial) (List.Subset.refl _) fun _ _ hw henabled _ =>
      List.Subset.trans hw (accounts_perform henabled)

theorem Identified.knows {u : Entrance × Presented} (h : Identified address u)
    {texts : Text × Text} {uid : Uid} (hsigned : SignedIn u texts uid) :
    u.1.services.Knows address texts uid := by
  obtain ⟨i, a, hi, hpresented, huid⟩ := hsigned
  obtain ⟨texts', hpresented', hknows⟩ := (h.attempts i a hi).signed uid huid
  obtain rfl := Option.some.inj (hpresented.symm.trans hpresented')
  exact hknows

/-- Two users of one address are one, with one password, and the other way round. -/
theorem Identified.knows_iff {u : Entrance × Presented} (h : Identified address u)
    {texts texts' : Text × Text} {uid uid' : Uid} (hknows : u.1.services.Knows address texts uid)
    (hknows' : u.1.services.Knows address texts' uid') :
    (uid = uid' ↔ address (trim texts.1) = address (trim texts'.1)) ∧
      (uid = uid' → credentials address texts = credentials address texts') := by
  obtain ⟨account, haccount, rfl, hknown⟩ := hknows
  obtain ⟨account', haccount', rfl, hknown'⟩ := hknows'
  have hsame : account.uid = account'.uid →
      credentials address texts = credentials address texts' := by
    intro heq
    obtain rfl := List.inj_on_of_nodup_map h.uids haccount haccount' heq
    exact hknown.symm.trans hknown'
  refine ⟨⟨fun heq => congrArg Prod.fst (hsame heq), fun hemail => ?_⟩, hsame⟩
  have hemails : address account.email = address account'.email :=
    (congrArg Prod.fst hknown).trans (hemail.trans (congrArg Prod.fst hknown').symm)
  exact congrArg Account.uid (List.inj_on_of_nodup_map h.emails haccount haccount' hemails)

theorem Attempt.removedBy_home (a b : Attempt) : (a.removedBy b).home = b.home := by
  unfold Attempt.removedBy
  split <;> rfl

theorem Entrance.getElem?_put_self {w : Entrance} {i : ℕ} {attempt : Attempt}
    (hi : w.attempts[i]? = some attempt) (phone : ℕ) (s : Scope) :
    (w.put i phone s).attempts[i]? = some (s.attempt.removedBy s.attempt) := by
  obtain ⟨hlt, -⟩ := List.getElem?_eq_some_iff.mp hi
  simp [Entrance.put, hlt]

/-- From any state, whoever presents the credentials of an account can enter the app as its
user. -/
theorem exists_login {u : Entrance × Presented} {texts : Text × Text} {uid : Uid}
    (hknows : u.1.services.Knows address texts uid) (hemail : texts.1 ≠ [])
    (hpassword : texts.2 ≠ []) (phone : ℕ) : ∃ trace v, Run (signIns address) u trace v ∧
      Meets (fun v event => event.RefusesTaken address v.1) trace ∧
      ∃ a, v.1.attempts[u.1.attempts.length]? = some a ∧ a.phone = phone ∧
        v.2 u.1.attempts.length = some texts ∧ a.signedIn = some uid ∧ a.home = true := by
  set n := u.1.attempts.length
  let a : Attempt := ⟨phone, .signingIn (trim texts.1) (trim texts.2), true, none, false, none⟩
  let pressed : Entrance × Presented :=
    ({ u.1 with attempts := u.1.attempts ++ [a] }, Function.update u.2 n (some texts))
  have hpressed : (signIns address).perform u (.login phone texts.1 texts.2) = pressed := by
    simp [signIns, System.recording, entrance, Entrance.perform, present, hemail, hpassword, a, n,
      pressed]
  have hn : pressed.1.attempts[n]? = some a := by simp [pressed, n]
  have hanswer : (signIns address).Enabled pressed (.answer n (.user (.ok uid))) := by
    obtain ⟨account, haccount, huid, hknown⟩ := hknows
    exact ⟨a, hn, account, haccount, huid, congrArg Prod.fst hknown, congrArg Prod.snd hknown⟩
  have hlogin : (signIns address).Enabled u (.login phone texts.1 texts.2) := trivial
  refine ⟨_, _, (Run.single hlogin).snoc _ (hpressed ▸ hanswer), ?_, ?_⟩
  · rw [meets_append, meets_singleton, meets_singleton, hpressed]
    refine ⟨trivial, fun b hb => ?_⟩
    obtain rfl : a = b := Option.some.inj (hn.symm.trans hb)
    trivial
  · rw [hpressed]
    have hput : ((signIns address).perform pressed (.answer n (.user (.ok uid)))).1 =
        pressed.1.put n phone (login (.ok uid) (pressed.1.scope a)).2 := by
      simp only [signIns, System.recording, entrance, Entrance.perform, hn]
      rfl
    obtain ⟨hphone, -, hsigned⟩ := Attempt.removedBy_sameAs
      (login (.ok uid) (pressed.1.scope a)).2.attempt
      (login (.ok uid) (pressed.1.scope a)).2.attempt
    refine ⟨_, hput ▸ Entrance.getElem?_put_self hn phone _, ?_, ?_, ?_, ?_⟩
    · rw [hphone, login_ok]
      rfl
    · simp [signIns, System.recording, present, pressed]
    · rw [hsigned, login_ok]
    · rw [Attempt.removedBy_home, login_ok]
      rfl

/-- All along a run that gives no address a second account, who is signed in goes by the address
that has been presented, and with it by the password; and whoever has been signed in once can
be signed in by the same credentials at the end of the run, on any phone. The service may take
any texts for the same address. -/
theorem signed_in_as {trace : List ((Entrance × Presented) × Entrance.Event)}
    {u : Entrance × Presented} (run : Run (signIns address) (signIns address).init trace u)
    (hrefuses : Meets (fun v event => event.RefusesTaken address v.1) trace) :
    (∀ i (a : Attempt) uid, u.1.attempts[i]? = some a → a.signedIn = some uid →
      ∃ texts, u.2 i = some texts) ∧
    (∀ v ∈ visited trace u, ∀ v' ∈ visited trace u, ∀ texts texts' uid uid',
      SignedIn v texts uid → SignedIn v' texts' uid' →
        (uid = uid' ↔ address (trim texts.1) = address (trim texts'.1)) ∧
          (uid = uid' → credentials address texts = credentials address texts')) ∧
    ∀ v ∈ visited trace u, ∀ texts texts' uid, SignedIn v texts uid →
      texts'.1 ≠ [] → texts'.2 ≠ [] → credentials address texts' = credentials address texts →
        ∀ phone : ℕ, ∃ trace' u', Run (signIns address) u trace' u' ∧
          Meets (fun v event => event.RefusesTaken address v.1) trace' ∧
          ∃ a, u'.1.attempts[u.1.attempts.length]? = some a ∧ a.phone = phone ∧
            u'.2 u.1.attempts.length = some texts' ∧ a.signedIn = some uid ∧ a.home = true := by
  have hidentified := Identified.of_run run hrefuses
  have hknows : ∀ v ∈ visited trace u, ∀ texts uid, SignedIn v texts uid →
      u.1.services.Knows address texts uid := by
    intro v hv texts uid hsigned
    obtain ⟨front, back, rfl, hfront, hback⟩ := run.split_visited hv
    rw [meets_append] at hrefuses
    exact ((Identified.of_run hfront hrefuses.1).knows hsigned).mono (accounts_run hback)
  refine ⟨fun i a uid hi huid => ?_, fun v hv v' hv' texts texts' uid uid' hsigned hsigned' => ?_,
    fun v hv texts texts' uid hsigned hemail hpassword hsame phone => ?_⟩
  · obtain ⟨texts, hpresented, -⟩ := (hidentified.attempts i a hi).signed uid huid
    exact ⟨texts, hpresented⟩
  · exact hidentified.knows_iff (hknows v hv texts uid hsigned) (hknows v' hv' texts' uid' hsigned')
  · have hknown := hknows v hv texts uid hsigned
    rw [Services.Knows, ← hsame] at hknown
    exact exists_login hknown hemail hpassword phone

end Addresses

namespace Scenario

abbrev presenting := signIns lowerCase

/-- The address with capitals. -/
def capitalAddress : Text := text ['S', '@', 'K', 'S', 'U', '.', 's', 'a']

/-- After the sign-up, a login on another phone with capitals in the address and blanks around
it. -/
def loggedIn : List Entrance.Event :=
  signedUpOnce ++ [.login 1 (text [' '] ++ capitalAddress ++ text [' ']) eightDigits,
    .answer 1 (.user (.ok 7))]

end Scenario

/-- Both attempts are of one user. -/
theorem signed_in_as_loggedIn :
    let v := Scenario.presenting.final Scenario.presenting.init Scenario.loggedIn
    v.1.attempts.map Attempt.signedIn = [some 7, some 7] ∧
      ∀ texts texts' uid uid', SignedIn v texts uid → SignedIn v texts' uid' →
        (uid = uid' ↔
            Scenario.lowerCase (trim texts.1) = Scenario.lowerCase (trim texts'.1)) ∧
          (uid = uid' →
            credentials Scenario.lowerCase texts = credentials Scenario.lowerCase texts') := by
  have run := Scenario.presenting.run_steps Scenario.presenting.init Scenario.loggedIn
    (by decide +kernel)
  exact ⟨by decide +kernel, (signed_in_as run (by decide +kernel)).2.1 _ run.mem_visited_self _
    run.mem_visited_self⟩

end Oun
