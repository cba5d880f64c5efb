import Oun.Verification.Entrance.Attempts

/-! # Who enters the app has a complete account -/

namespace Oun

open Firestore Regex Numeral Future Transition

/-- The ids of the documents in `users` that are stored or on their way. -/
def Services.ids (services : Services) : List Uid :=
  (services.users ++ services.writing).map Doc.id

/-- The attempt enters the app only with a signed-in user who has a document. -/
def Attempt.EntersComplete (services : Services) (a : Attempt) : Prop :=
  a.home = true → ∃ uid ∈ a.signedIn, uid ∈ services.ids

/-- No account is left without its document. -/
def Services.Complete (services : Services) : Prop :=
  ∀ account ∈ services.accounts, account.uid ∈ services.ids

structure Entrance.Complete (w : Entrance) : Prop where
  attempts : ∀ a ∈ w.attempts, a.EntersComplete w.services
  services : w.services.Complete

instance Attempt.decidableEntersComplete (services : Services) (a : Attempt) :
    Decidable (a.EntersComplete services) := by
  unfold Attempt.EntersComplete; infer_instance

instance Entrance.decidableComplete (w : Entrance) : Decidable w.Complete :=
  decidable_of_iff ((∀ a ∈ w.attempts, a.EntersComplete w.services) ∧
      ∀ account ∈ w.services.accounts, account.uid ∈ w.services.ids)
    ⟨fun h => ⟨h.1, h.2⟩, fun h => ⟨h.attempts, h.services⟩⟩

/-- A sign-up creates its user as long as its screen is there, and then the ID field holds a
number. -/
def Attempt.Smooth (w : Entrance) (a : Attempt) (result : Answer) : Prop :=
  match a.stage, result with
  | .creatingUser _ _, .user (.ok _) => (parse (w.phones a.phone).fields.id).isSome = true
  | .creatingUser _ _, .user (.error _) => a.mounted = false
  | _, _ => True

instance Attempt.decidableSmooth (w : Entrance) (a : Attempt) (result : Answer) :
    Decidable (a.Smooth w result) := by
  unfold Attempt.Smooth; split <;> infer_instance

/-- While the form is as the validators have accepted it, only a bar can spoil the ID. -/
theorem Attempt.smooth_iff_of_valid {w : Entrance} {a : Attempt} {email password : Text}
    (hstage : a.stage = .creatingUser email password)
    (hvalid : (w.phones a.phone).fields.validate = true) (uid : Uid) :
    a.Smooth w (.user (.ok uid)) ↔ (w.phones a.phone).fields.id.head? ≠ some 124 := by
  have hid : idValidator (w.phones a.phone).fields.id = none := by
    simp only [Fields.validate, Bool.and_eq_true, Option.isNone_iff_eq_none] at hvalid
    exact hvalid.1.1.1.2
  rw [← parse_isSome_iff hid]
  simp only [Attempt.Smooth, hstage]

/-- And the writes of the documents succeed. -/
def Entrance.Event.Smooth (w : Entrance) : Entrance.Event → Prop
  | .answer i result => ∀ attempt ∈ w.attempts[i]?, attempt.Smooth w result
  | .wrote _ ok => ok = true
  | _ => True

instance Entrance.Event.decidableSmooth (w : Entrance) (event : Entrance.Event) :
    Decidable (event.Smooth w) := by
  apply Entrance.Event.casesOn (motive := fun e => Decidable (e.Smooth w)) event <;> intros <;>
    unfold Entrance.Event.Smooth <;> infer_instance

/-! ## The invariant -/

/-- There is one document for each uid, and it belongs to an account. -/
structure Services.Sound (services : Services) : Prop where
  nodup : services.ids.Nodup
  owned : ∀ uid ∈ services.ids, ∃ account ∈ services.accounts, account.uid = uid

/-- An attempt signs in and enters at its end. -/
def Attempt.Waiting (a : Attempt) : Prop :=
  a.stage ≠ .ended → a.signedIn = none ∧ a.home = false

structure Entrance.Consistent (w : Entrance) : Prop where
  services : w.services.Sound
  waiting : ∀ a ∈ w.attempts, a.Waiting

theorem Services.Sound.not_mem_ids {services : Services} (sound : services.Sound) {uid : Uid}
    (h : ∀ account ∈ services.accounts, account.uid ≠ uid) : uid ∉ services.ids := by
  intro hmem
  obtain ⟨account, haccount, huid⟩ := sound.owned uid hmem
  exact h account haccount huid

theorem Services.Sound.create {services : Services} (sound : services.Sound)
    (account : Account) :
    Services.Sound { services with accounts := account :: services.accounts } where
  nodup := sound.nodup
  owned uid h :=
    have ⟨other, hother, huid⟩ := sound.owned uid h
    ⟨other, by simp [hother], huid⟩

theorem Services.ids_append (services : Services) (accounts : List Account) (d : Doc User) :
    Services.ids ⟨accounts, services.users, services.writing ++ [d]⟩ = services.ids ++ [d.id] := by
  simp [Services.ids]

theorem Services.Sound.store {services : Services} (sound : services.Sound)
    {account : Account} {d : Doc User} (hid : d.id = account.uid)
    (h : ∀ other ∈ services.accounts, other.uid ≠ account.uid) :
    Services.Sound
      ⟨account :: services.accounts, services.users, services.writing ++ [d]⟩ where
  nodup := by
    have hnew : d.id ∉ services.ids := hid ▸ sound.not_mem_ids h
    rw [Services.ids_append, List.nodup_append]
    refine ⟨sound.nodup, by simp, ?_⟩
    rintro uid huid _ hlast rfl
    obtain rfl := List.mem_singleton.mp hlast
    exact hnew huid
  owned uid huid := by
    rw [Services.ids_append, List.mem_append, List.mem_singleton] at huid
    rcases huid with huid | rfl
    · obtain ⟨other, hother, rfl⟩ := sound.owned uid huid
      exact ⟨other, by simp [hother], rfl⟩
    · exact ⟨account, by simp, hid.symm⟩

/-- A write that ends well only moves its document. -/
theorem Services.ids_wrote {services : Services} (sound : services.Sound) {d : Doc User}
    (hd : d ∈ services.writing) :
    (Services.set { services with writing := services.writing.erase d } d).ids.Perm
      services.ids := by
  have hnodup := sound.nodup
  rw [Services.ids, List.map_append, List.nodup_append] at hnodup
  have hother : ∀ other ∈ services.users, other.id ≠ d.id := fun other hmem =>
    hnodup.2.2 _ (List.mem_map_of_mem hmem) _ (List.mem_map_of_mem hd)
  have hfilter : services.users.filter (fun other => other.id ≠ d.id) = services.users := by
    simpa using hother
  simp only [Services.ids, Services.set, hfilter]
  refine List.Perm.map _ ?_
  exact List.perm_middle.symm.trans ((List.perm_cons_erase hd).symm.append_left _)

/-- A write that fails leaves no document of its id. -/
theorem Services.not_mem_ids_erase {services : Services} (sound : services.Sound) {d : Doc User}
    (hd : d ∈ services.writing) :
    d.id ∉ Services.ids { services with writing := services.writing.erase d } := by
  have hperm : services.ids.Perm
      (d.id :: Services.ids { services with writing := services.writing.erase d }) := by
    simp only [Services.ids, ← List.map_cons]
    refine List.Perm.map _ ?_
    exact ((List.perm_cons_erase hd).append_left _).trans List.perm_middle
  exact (List.nodup_cons.mp (hperm.nodup_iff.mp sound.nodup)).1

/-! ## Taking an attempt back -/

/-- What holds of the attempts afterwards; that a screen is gone plays no part in it. -/
theorem Entrance.forall_put_iff {w : Entrance} {i phone : ℕ} {s : Scope} {attempt : Attempt}
    {P Q : Attempt → Prop} (hi : w.attempts[i]? = some attempt)
    (hP : ∀ a, P { a with mounted := false } ↔ P a) (hQ : ∀ a ∈ w.attempts, Q a)
    (himp : ∀ a, Q a → P a) :
    (∀ a ∈ (w.put i phone s).attempts, P a) ↔ P s.attempt := by
  obtain ⟨hlt, -⟩ := List.getElem?_eq_some_iff.mp hi
  have hremoved : ∀ a, P (s.attempt.removedBy a) ↔ P a := by
    intro a
    unfold Attempt.removedBy
    split
    · exact hP a
    · rfl
  simp only [Entrance.put, List.forall_mem_map, hremoved]
  constructor
  · exact fun h => h _ (List.mem_set hlt s.attempt)
  · intro h a ha
    rcases List.mem_or_eq_of_mem_set ha with ha | rfl
    · exact himp a (hQ a ha)
    · exact h

theorem Attempt.entersComplete_mono {services services' : Services} {a : Attempt}
    (hsub : services.ids ⊆ services'.ids) (h : a.EntersComplete services) :
    a.EntersComplete services' := fun hhome =>
  have ⟨uid, huid, hmem⟩ := h hhome
  ⟨uid, huid, hsub hmem⟩

/-- An answer that takes no document away keeps the state complete exactly if the attempt
itself enters complete and every account has its document. -/
theorem Entrance.complete_put_iff {w : Entrance} {i phone : ℕ} {s : Scope} {attempt : Attempt}
    (hi : w.attempts[i]? = some attempt) (hw : w.Complete)
    (hsub : w.services.ids ⊆ s.services.ids) :
    (w.put i phone s).Complete ↔
      s.attempt.EntersComplete s.services ∧ s.services.Complete := by
  have hattempts : (∀ a ∈ (w.put i phone s).attempts, a.EntersComplete s.services) ↔
      s.attempt.EntersComplete s.services :=
    Entrance.forall_put_iff hi (fun _ => Iff.rfl) hw.attempts
      fun _ => Attempt.entersComplete_mono hsub
  exact ⟨fun h => ⟨hattempts.mp h.attempts, h.services⟩,
    fun h => ⟨hattempts.mpr h.1, h.2⟩⟩

theorem Entrance.Consistent.put {w : Entrance} {i phone : ℕ} {s : Scope} {attempt : Attempt}
    (hw : w.Consistent) (hi : w.attempts[i]? = some attempt) (hservices : s.services.Sound)
    (hwaiting : s.attempt.Waiting) : (w.put i phone s).Consistent where
  services := hservices
  waiting := (Entrance.forall_put_iff hi (fun _ => Iff.rfl) hw.waiting fun _ h => h).mpr hwaiting

/-- An attempt that ends without a change of the accounts and documents only matters by
what it has entered. -/
theorem Entrance.Consistent.put_ended {w : Entrance} {i : ℕ} {s : Scope} {attempt : Attempt}
    (hw : w.Consistent) (phone : ℕ) (hi : w.attempts[i]? = some attempt)
    (hsame : s.services = w.services) (hended : s.attempt.stage = .ended) :
    (w.put i phone s).Consistent ∧ (w.Complete →
      ((w.put i phone s).Complete ↔ s.attempt.EntersComplete w.services)) := by
  refine ⟨hw.put hi (hsame ▸ hw.services) fun hwaits => absurd hended hwaits, fun hc => ?_⟩
  rw [Entrance.complete_put_iff hi hc (hsame ▸ List.Subset.refl _), hsame,
    and_iff_left hc.services]

/-! ## What an answer does -/

section Answers

variable {w : Entrance} {i : ℕ} {attempt : Attempt}
  (hw : w.Consistent) (hi : w.attempts[i]? = some attempt)

include hw hi

/-- What is known of an attempt that still waits. -/
theorem Entrance.Consistent.scope (hstage : attempt.stage ≠ .ended) :
    (w.scope attempt).attempt.signedIn = none ∧ (w.scope attempt).attempt.home = false :=
  hw.waiting attempt (List.mem_of_getElem? hi) hstage

theorem documents_consistent (hstage : attempt.stage ≠ .ended)
    (answer : Except Error (List (Doc User))) :
    (w.put i attempt.phone (signup answer (w.scope attempt)).2).Consistent := by
  obtain ⟨hsigned, hhome⟩ := hw.scope hi hstage
  obtain ⟨hservices, hsigned', hhome'⟩ :=
    signup_keeps w.services none false answer (w.scope attempt) ⟨rfl, hsigned, hhome⟩
  exact hw.put hi (hservices ▸ hw.services) fun _ => ⟨hsigned', hhome'⟩

theorem documents_complete (hc : w.Complete) (hstage : attempt.stage ≠ .ended)
    (answer : Except Error (List (Doc User))) :
    (w.put i attempt.phone (signup answer (w.scope attempt)).2).Complete := by
  obtain ⟨hsigned, hhome⟩ := hw.scope hi hstage
  obtain ⟨hservices, -, hhome'⟩ :=
    signup_keeps w.services none false answer (w.scope attempt) ⟨rfl, hsigned, hhome⟩
  rw [Entrance.complete_put_iff hi hc (hservices ▸ List.Subset.refl _), hservices]
  exact ⟨fun h => by simp [hhome'] at h, hc.services⟩

/-- After a success of `createUserWithEmailAndPassword` the account is complete exactly if
the ID field holds a number. -/
theorem created_ok (email password : Text) {uid : Uid}
    (hnew : ∀ account ∈ w.services.accounts, account.uid ≠ uid) :
    let next := w.put i attempt.phone (signupCreated email password (.ok uid) (w.scope attempt)).2
    next.Consistent ∧ (w.Complete →
      (next.Complete ↔ (parse (w.phones attempt.phone).fields.id).isSome = true)) := by
  intro next
  cases hid : parse (w.phones attempt.phone).fields.id with
  | none =>
      obtain ⟨alert, hstate⟩ := signupCreated_malformed (w.scope attempt) email password uid hid
      have hnext : next.Consistent := by
        refine hw.put hi ?_ ?_ <;> rw [hstate]
        · exact hw.services.create _
        · exact fun h => absurd rfl h
      refine ⟨hnext, fun _ => ?_⟩
      have hids : next.services.ids = w.services.ids := by
        simp only [next, Entrance.put, hstate]
        rfl
      have haccount : ⟨uid, email, password⟩ ∈ next.services.accounts := by
        simp only [next, Entrance.put, hstate]
        exact List.mem_cons_self
      simp only [Option.isSome_none, Bool.false_eq_true, iff_false]
      intro h
      exact hw.services.not_mem_ids hnew (hids ▸ h.services _ haccount)
  | some id =>
      have hstate := signupCreated_stored (w.scope attempt) email password uid hid
      have hids :
          (signupCreated email password (.ok uid) (w.scope attempt)).2.services.ids =
            w.services.ids ++ [uid] := by
        rw [hstate]
        exact Services.ids_append ..
      refine ⟨?_, fun hc => ?_⟩
      · refine hw.put hi ?_ ?_ <;> rw [hstate]
        · exact hw.services.store rfl hnew
        · exact fun h => absurd rfl h
      · rw [Entrance.complete_put_iff hi hc (hids ▸ List.subset_append_left _ _)]
        refine iff_of_true ⟨?_, ?_⟩ rfl
        · intro _
          exact ⟨uid, by rw [hstate]; rfl, by simp [hids]⟩
        · intro account haccount
          rw [hstate] at haccount
          rw [hids]
          rcases List.mem_cons.mp haccount with rfl | haccount
          · simp
          · exact List.mem_append_left _ (hc.services account haccount)

/-- After a failure the app is entered, by nobody, unless the screen is gone. -/
theorem created_error (email password : Text) (hstage : attempt.stage ≠ .ended) (e : Error) :
    let next := w.put i attempt.phone (signupCreated email password (.error e) (w.scope attempt)).2
    next.Consistent ∧ (w.Complete → (next.Complete ↔ attempt.mounted = false)) := by
  intro next
  obtain ⟨hsigned, hhome⟩ := hw.scope hi hstage
  obtain ⟨alert, hstate⟩ := signupCreated_failed (w.scope attempt) email password e
  obtain ⟨hnext, hiff⟩ := hw.put_ended attempt.phone hi
    (congrArg Scope.services hstate) (congrArg (·.attempt.stage) hstate)
  refine ⟨hnext, fun hc => (hiff hc).trans ?_⟩
  rw [hstate]
  simp only [Attempt.EntersComplete, hsigned, hhome, Bool.false_or]
  cases hmounted : attempt.mounted <;> simp [Entrance.scope, hmounted]

theorem signedIn_ok {account : Account} (haccount : account ∈ w.services.accounts) :
    let next := w.put i attempt.phone (login (.ok account.uid) (w.scope attempt)).2
    next.Consistent ∧ (w.Complete → next.Complete) := by
  intro next
  have hstate := login_ok (w.scope attempt) account.uid
  obtain ⟨hnext, hiff⟩ := hw.put_ended attempt.phone hi
    (congrArg Scope.services hstate) (congrArg (·.attempt.stage) hstate)
  refine ⟨hnext, fun hc => (hiff hc).mpr fun _ => ⟨account.uid, ?_, hc.services _ haccount⟩⟩
  rw [hstate]
  rfl

theorem signedIn_error (hstage : attempt.stage ≠ .ended) (e : Error) :
    let next := w.put i attempt.phone (login (.error e) (w.scope attempt)).2
    next.Consistent ∧ (w.Complete → next.Complete) := by
  intro next
  obtain ⟨hsigned, hhome⟩ := hw.scope hi hstage
  obtain ⟨alert, hstate⟩ := login_error (w.scope attempt) e
  obtain ⟨hnext, hiff⟩ := hw.put_ended attempt.phone hi
    (congrArg Scope.services hstate) (congrArg (·.attempt.stage) hstate)
  refine ⟨hnext, fun hc => (hiff hc).mpr fun h => ?_⟩
  rw [hstate] at h
  exact absurd h (by simp [hhome])

end Answers

/-! ## One step -/

section Runs

variable {address : Addressing}

theorem Entrance.answer_step {w : Entrance} {i : ℕ} {attempt : Attempt} {result : Answer}
    (hw : w.Consistent) (hi : w.attempts[i]? = some attempt)
    (hanswered : attempt.stage.Answered address w.services result) :
    (w.perform (.answer i result)).Consistent ∧ (w.Complete →
      ((Entrance.Event.answer i result).Smooth w ↔ (w.perform (.answer i result)).Complete)) := by
  have hperform : w.perform (.answer i result) =
      w.put i attempt.phone (attempt.stage.resume result (w.scope attempt)).2 := by
    simp only [Entrance.perform, hi]
  rw [hperform]
  cases hstage : attempt.stage with
  | ended => cases result <;> simp [hstage, Stage.Answered] at hanswered
  | fetchingEmail email =>
      have hwaits : attempt.stage ≠ .ended := by simp [hstage]
      rcases result with answer | answer
      · exact ⟨documents_consistent hw hi hwaits answer,
          fun hc => iff_of_true (by simp [Entrance.Event.Smooth, Attempt.Smooth, hi])
            (documents_complete hw hi hc hwaits answer)⟩
      · simp [hstage, Stage.Answered] at hanswered
  | creatingUser email password =>
      have hwaits : attempt.stage ≠ .ended := by simp [hstage]
      rcases result with answer | e | uid
      · simp [hstage, Stage.Answered] at hanswered
      · obtain ⟨hnext, hiff⟩ := created_error hw hi email password hwaits e
        refine ⟨hnext, fun hc => Iff.trans ?_ (hiff hc).symm⟩
        simp [Entrance.Event.Smooth, Attempt.Smooth, hi, hstage]
      · rw [hstage] at hanswered
        obtain ⟨hnext, hiff⟩ := created_ok hw hi email password hanswered
        refine ⟨hnext, fun hc => Iff.trans ?_ (hiff hc).symm⟩
        simp [Entrance.Event.Smooth, Attempt.Smooth, hi, hstage]
  | signingIn email password =>
      have hwaits : attempt.stage ≠ .ended := by simp [hstage]
      have hsmooth : ∀ answer, (Entrance.Event.answer i (.user answer)).Smooth w := by
        simp [Entrance.Event.Smooth, Attempt.Smooth, hi, hstage]
      rcases result with answer | e | uid
      · simp [hstage, Stage.Answered] at hanswered
      · obtain ⟨hnext, hcomplete⟩ := signedIn_error hw hi hwaits e
        exact ⟨hnext, fun hc => iff_of_true (hsmooth _) (hcomplete hc)⟩
      · rw [hstage] at hanswered
        obtain ⟨account, haccount, rfl, -⟩ := hanswered
        obtain ⟨hnext, hcomplete⟩ := signedIn_ok hw hi haccount
        exact ⟨hnext, fun hc => iff_of_true (hsmooth _) (hcomplete hc)⟩

theorem Entrance.wrote_step {w : Entrance} {d : Doc User} (ok : Bool)
    (hw : w.Consistent) (hd : d ∈ w.services.writing) :
    (w.perform (.wrote d ok)).Consistent ∧ (w.Complete →
      ((Entrance.Event.wrote d ok).Smooth w ↔ (w.perform (.wrote d ok)).Complete)) := by
  cases ok with
  | true =>
      have hperm := Services.ids_wrote hw.services hd
      have hids : ∀ uid, uid ∈ (w.perform (.wrote d true)).services.ids ↔
          uid ∈ w.services.ids := fun uid => hperm.mem_iff
      refine ⟨⟨⟨hperm.nodup_iff.mpr hw.services.nodup, ?_⟩, hw.waiting⟩,
        fun hc => iff_of_true rfl ⟨?_, ?_⟩⟩
      · exact fun uid h => hw.services.owned uid ((hids uid).mp h)
      · exact fun a ha =>
          Attempt.entersComplete_mono (fun uid => (hids uid).mpr) (hc.attempts a ha)
      · exact fun account h => (hids _).mpr (hc.services account h)
  | false =>
      have hsub : (w.perform (.wrote d false)).services.ids.Sublist w.services.ids :=
        (List.erase_sublist.append_left _).map _
      refine ⟨⟨⟨hw.services.nodup.sublist hsub, ?_⟩, hw.waiting⟩,
        fun _ => iff_of_false (by simp [Entrance.Event.Smooth]) ?_⟩
      · exact fun uid h => hw.services.owned uid (hsub.subset h)
      · intro h
        obtain ⟨account, haccount, huid⟩ := hw.services.owned d.id
          (List.mem_map_of_mem (List.mem_append_right _ hd))
        exact Services.not_mem_ids_erase hw.services hd (huid ▸ h.services account haccount)

/-- A new attempt has not entered anything. -/
theorem Entrance.started_step {w : Entrance} {a : Attempt} (hw : w.Consistent)
    (hsigned : a.signedIn = none) (hhome : a.home = false) :
    Entrance.Consistent { w with attempts := w.attempts ++ [a] } ∧
      (w.Complete → Entrance.Complete { w with attempts := w.attempts ++ [a] }) := by
  refine ⟨⟨hw.services, ?_⟩, fun hc => ⟨?_, hc.services⟩⟩ <;>
    simp only [List.forall_mem_append, List.forall_mem_singleton]
  · exact ⟨hw.waiting, fun _ => ⟨hsigned, hhome⟩⟩
  · exact ⟨hc.attempts, fun h => by simp [hhome] at h⟩

theorem Entrance.back_step {w : Entrance} (i : ℕ) (hw : w.Consistent) :
    (w.perform (.back i)).Consistent ∧ (w.Complete → (w.perform (.back i)).Complete) := by
  have hmodify : ∀ P : Attempt → Prop, (∀ a, P { a with mounted := false } ↔ P a) →
      (∀ a ∈ w.attempts, P a) → ∀ a ∈ (w.perform (.back i)).attempts, P a := by
    intro P hP h a ha
    obtain ⟨j, hj⟩ := List.mem_iff_getElem?.mp ha
    simp only [Entrance.perform, List.getElem?_modify, Option.map_eq_map,
      Option.map_eq_some_iff] at hj
    obtain ⟨b, hb, rfl⟩ := hj
    have hPb := h b (List.mem_of_getElem? hb)
    split
    · exact (hP b).mpr hPb
    · exact hPb
  exact ⟨⟨hw.services, hmodify _ (fun _ => Iff.rfl) hw.waiting⟩,
    fun hc => ⟨hmodify _ (fun _ => Iff.rfl) hc.attempts, hc.services⟩⟩

/-- A step keeps a complete state complete exactly if it is smooth. -/
theorem Entrance.step {w : Entrance} {event : Entrance.Event} (hw : w.Consistent)
    (henabled : event.Enabled address w) :
    (w.perform event).Consistent ∧
      (w.Complete → (event.Smooth w ↔ (w.perform event).Complete)) := by
  cases event with
  | type phone fields =>
      exact ⟨⟨hw.services, hw.waiting⟩, fun hc => iff_of_true trivial ⟨hc.attempts, hc.services⟩⟩
  | signUp phone =>
      obtain ⟨hnext, hcomplete⟩ := Entrance.started_step hw
        (a := { phone, stage := .fetchingEmail (w.phones phone).fields.email }) rfl rfl
      exact ⟨hnext, fun hc => iff_of_true trivial (hcomplete hc)⟩
  | login phone email password =>
      obtain ⟨hnext, hcomplete⟩ : (w.perform (.login phone email password)).Consistent ∧
          (w.Complete → (w.perform (.login phone email password)).Complete) := by
        refine Entrance.started_step hw ?_ ?_ <;> split <;> rfl
      exact ⟨hnext, fun hc => iff_of_true trivial (hcomplete hc)⟩
  | answer i result =>
      obtain ⟨attempt, hi, hanswered⟩ := henabled
      exact Entrance.answer_step hw hi hanswered
  | back i =>
      obtain ⟨hnext, hcomplete⟩ := Entrance.back_step i hw
      exact ⟨hnext, fun hc => iff_of_true trivial (hcomplete hc)⟩
  | wrote d ok => exact Entrance.wrote_step ok hw henabled

/-! ## Whole runs -/

theorem Entrance.init_consistent : Entrance.init.Consistent where
  services := ⟨List.nodup_nil, by simp [Services.ids, Entrance.init]⟩
  waiting := by simp [Entrance.init]

theorem reachable_consistent {w : Entrance} (reachable : Reachable (entrance address) w) :
    w.Consistent :=
  reachable.invariant Entrance.init_consistent fun _ _ _ hw henabled =>
    (Entrance.step hw henabled).1

/-- All along a run whoever has entered the app was signed in by the attempt and has a
document, and every account has one, exactly when every step is smooth. -/
theorem entrance_complete {trace : List (Entrance × Entrance.Event)} {w : Entrance}
    (run : Run (entrance address) Entrance.init trace w) :
    (∀ u ∈ visited trace w, u.Complete) ↔ Meets (fun u event => event.Smooth u) trace :=
  run.forall_visited_iff ⟨[], .nil⟩ (I := Entrance.Complete) (by decide)
    fun _ _ reachable hc henabled =>
      (Entrance.step (reachable_consistent reachable) henabled).2 hc

end Runs

namespace Scenario

def eightDigits : Text := text ['1', '2', '3', '4', '5', '6', '7', '8']

def address : Text := text ['s', '@', 'k', 's', 'u', '.', 's', 'a']

/-- An address of ASCII characters as the service takes it: it makes no difference between
capitals and small letters. -/
def lowerCase : Addressing :=
  List.map fun u => if 65 ≤ u ∧ u ≤ 90 then u + 32 else u

abbrev folding := entrance lowerCase

/-- A valid form whose ID begins with the given character. -/
def form (first : Char) : Fields where
  name := text ['S', 'a', 'r', 'a']
  email := address
  id := text [first, '1', '2', '3', '4', '5', '6', '7', '8', '9']
  phone := text ['0', '5', '5', '5', '5', '5', '5', '5', '5', '5']
  password := eightDigits
  confirm := eightDigits

/-- A sign-up on the phone as the `i`-th attempt, up to what `createUser` answers. -/
def signedUp (phone i : ℕ) (first : Char) (answer : Except Error Uid) : List Entrance.Event :=
  [.type phone (form first), .signUp phone, .answer i (.documents (.ok [])),
    .answer i (.user answer)]

/-- A sign-up that works out, and a login after it. -/
def smooth : List Entrance.Event :=
  signedUp 0 0 '1' (.ok 7) ++ [.wrote ⟨7, (form '1').user 1123456789⟩ true,
    .login 0 address eightDigits, .answer 1 (.user (.ok 7))]

/-- A sign-up whose user is not created, one with a bar in the ID, and a login after it. -/
def halfFinished : List Entrance.Event :=
  signedUp 0 0 '1' (.error (.firebase "network-request-failed")) ++
    signedUp 1 1 '|' (.ok 7) ++ [.login 1 address eightDigits, .answer 2 (.user (.ok 7))]

end Scenario

/-- A sign-up and a login that work out enter with a complete account. -/
theorem entrance_complete_smooth :
    (∃ a ∈ (Scenario.folding.final Scenario.folding.init Scenario.smooth).attempts, a.home = true) ∧
      ∀ u ∈ visited (Scenario.folding.steps Scenario.folding.init Scenario.smooth)
        (Scenario.folding.final Scenario.folding.init Scenario.smooth), u.Complete :=
  ⟨by decide +kernel,
    (entrance_complete (Scenario.folding.run_steps _ Scenario.smooth (by decide +kernel))).mpr
      (by decide +kernel)⟩

/-- Reachable: an attempt has entered the app without signing anybody in, and another as the
user of an account without a document. -/
theorem incomplete_entrance_reachable :
    ∃ w, Reachable Scenario.folding w ∧ ¬ w.Complete ∧
      (∃ a ∈ w.attempts, a.home = true ∧ a.signedIn = none) ∧
      ∃ account ∈ w.services.accounts, account.uid ∉ w.services.ids ∧
        ∃ a ∈ w.attempts, a.home = true ∧ a.signedIn = some account.uid :=
  ⟨Scenario.folding.final Scenario.folding.init Scenario.halfFinished,
    ⟨_, Scenario.folding.run_steps _ Scenario.halfFinished (by decide +kernel)⟩,
    by decide +kernel, by decide +kernel, by decide +kernel⟩

end Oun
