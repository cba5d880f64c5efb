import Mathlib.Tactic.FieldSimp
import Mathlib.Tactic.Linarith
import Mathlib.Algebra.Order.Field.Rat
import Oun.Verification.Rating.Registered
import Oun.Verification.Winner.Single

/-! # The rate of a provider and the mean of the ratings

The handler averages the ratings that its screen had received before the new one was
added, and the branch without data writes the new rating itself. -/

namespace Oun

open Firestore Regex Transition

/-- The arithmetic mean, 0 for no ratings. -/
def mean (documents : List (Doc Rate)) : ℚ :=
  (documents.map fun d => (d.data.rate.val : ℚ)).sum / documents.length

/-- The call is a write of the rating handler for the provider. -/
def Call.rates (p : Uid) (c : Call) : Bool :=
  match c.write with
  | .addRate r => decide (r.user = p)
  | .updateRate q _ => decide (q = p)
  | _ => false

/-- The call writes the result of a division by zero. -/
def Call.undefined (c : Call) : Bool :=
  match c.write with
  | .updateRate _ (.value _) => false
  | .updateRate _ _ => true
  | _ => false

/-- No division by zero has happened, and every user of whom no rating is on its way has
the mean of the stored ratings as rate. -/
structure RatesAreMeans (w : World) : Prop where
  defined : w.issued Call.undefined = 0
  mean : ∀ p user, w.store.users p = some user → w.pending (Call.rates p) = 0 →
    user.rate = .value (mean (w.store.rate.whereEqualTo Rate.user p))

/-! ## Conditions on single steps -/

/-- What the ratings that a handler captured average to; without data, the new one. -/
def capturedMean (snapshot : Option (List (Doc Rate))) (rating : Stars) : ℚ :=
  match snapshot with
  | some documents => mean documents
  | none => rating.val

/-- A confirmed rating has not captured an empty list. -/
def Handler.Divides : Handler → Input → Prop
  | .ratingDialog _ _ snapshot, .rate _ _ => snapshot ≠ some []
  | _, _ => True

/-- Where the last write of ratings of a provider takes effect, the ratings that its
handler captured average to the mean of the stored ones. -/
def Handler.Agrees (w : World) : Handler → Prop
  | .writing (.rating snapshot provider rating) [_] => w.pending (Call.rates provider) = 1 →
      capturedMean snapshot rating = Oun.mean (w.store.rate.whereEqualTo Rate.user provider)
  | _ => True

def RatesAlike (w : World) : Action → Prop
  | .process k input => ∀ p ∈ w.processes[k]?, p.handler.Divides input
  | .write k => ∀ p ∈ w.processes[k]?, p.handler.Agrees w
  | _ => True

instance (handler : Handler) (input : Input) : Decidable (handler.Divides input) := by
  apply Handler.casesOn (motive := fun h => Decidable (h.Divides input)) handler <;> intros <;>
    apply Input.casesOn (motive := fun i => Decidable (Handler.Divides _ i)) input <;> intros <;>
    unfold Handler.Divides <;> infer_instance

instance (w : World) (handler : Handler) : Decidable (handler.Agrees w) := by
  unfold Handler.Agrees; split <;> infer_instance

instance (w : World) (a : Action) : Decidable (RatesAlike w a) := by
  apply Action.casesOn (motive := fun a => Decidable (RatesAlike w a)) a <;> intros <;>
    unfold RatesAlike <;> infer_instance

/-! ## What the handler computes -/

theorem allRates_eq_sum (documents : List (Doc Rate)) :
    allRates documents = (documents.map fun d => (d.data.rate.val : ℚ)).sum := by
  have hfold : ∀ sum : ℚ, documents.foldl (fun sum d => sum + (d.data.rate.val : ℚ)) sum =
      sum + (documents.map fun d => (d.data.rate.val : ℚ)).sum := by
    induction documents with
    | nil => simp
    | cons d documents ih =>
        intro sum
        rw [List.foldl_cons, ih, List.map_cons, List.sum_cons, add_assoc]
  simpa [allRates] using hfold 0

theorem newRate_eq {snapshot : Option (List (Doc Rate))} (h : snapshot ≠ some [])
    (rating : Stars) : newRate snapshot rating = .value (capturedMean snapshot rating) := by
  cases snapshot with
  | none => rfl
  | some documents =>
      have hlength : documents.length ≠ 0 := by simpa using h
      simp [newRate, Double.div, hlength, capturedMean, mean, allRates_eq_sum]

theorem newRate_empty (rating : Stars) : newRate (some []) rating = .nan := rfl

/-- With an up to date snapshot, the old mean stays right just for a rating equal to it. -/
theorem mean_append_iff {documents : List (Doc Rate)} (h : documents ≠ []) (d : Doc Rate) :
    mean documents = mean (documents ++ [d]) ↔ (d.data.rate.val : ℚ) = mean documents := by
  have hlength : (documents.length : ℚ) ≠ 0 := by simpa using h
  have hsucc : (documents.length : ℚ) + 1 ≠ 0 := by positivity
  simp only [mean, List.map_append, List.sum_append, List.map_singleton, List.sum_singleton,
    List.length_append, List.length_singleton, Nat.cast_add, Nat.cast_one]
  rw [div_eq_div_iff hlength hsucc, eq_div_iff hlength]
  constructor <;> intro heq <;> linarith

/-! ## The writes of rating handlers -/

/-- A rating handler adds the rating and then updates the user; no other handler does. -/
def Handler.RatesInOrder : Handler → Prop
  | .writing (.rating snapshot provider rating) calls =>
      ∃ furniture, calls <:+ rate furniture snapshot provider rating
  | .writing _ calls => ∀ c ∈ calls, ∀ p, c.rates p = false
  | _ => True

theorem accept_rates {taskId : DocId} {item : Item} {documents : List (Doc Offer)} {c : Call}
    (hc : c ∈ accept taskId item documents) (p : Uid) : c.rates p = false := by
  obtain ⟨x, -, ⟨-, rfl | rfl⟩ | ⟨-, rfl⟩⟩ := mem_accept.mp hc <;> rfl

private theorem spawned_ratesInOrder {w : World} {a : Action} {p : Process}
    (h : spawned w a = some p) : p.handler.RatesInOrder := by
  cases a <;> simp only [spawned, Option.map_eq_some_iff, reduceCtorEq] at h
  case sendNewTask =>
    obtain ⟨uid, -, rfl⟩ := h
    simp [Handler.RatesInOrder, sendNewTask, Call.rates]
  all_goals
    obtain ⟨screen, -, rfl⟩ := h
    trivial

theorem ratesInOrder {w : World} (hw : Reachable app w) :
    ∀ p ∈ w.processes, p.handler.RatesInOrder := by
  refine hw.invariant (I := fun w => ∀ p ∈ w.processes, p.handler.RatesInOrder)
    (by simp [app, World.init]) ?_
  intro u a _ hu ha
  show ∀ p ∈ (perform u a).processes, p.handler.RatesInOrder
  have heffect := effect ha
  generalize perform u a = u' at heffect
  cases heffect with
  | idle _ _ _ hprocesses => exact hprocesses ▸ hu
  | signUp => exact hu
  | spawn p hspawned _ _ _ hprocesses =>
      rw [hprocesses]
      exact Pool.forall_append hu (spawned_ratesInOrder hspawned)
  | @process k uid handler input hget hinput =>
      refine Pool.forall_set hu ?_
      have hmoves := moves uid hinput
      generalize handler.next uid input = next at hmoves ⊢
      generalize handler.issued uid input = issued at hmoves
      cases hmoves with
      | accept taskId item documents => exact fun c hc p => accept_rates hc p
      | rate session furniture snapshot provider rating => exact ⟨furniture, List.suffix_rfl⟩
      | offer | reject | report =>
          simp [Handler.RatesInOrder, addOffer, reject, report, Call.rates]
      | _ => trivial
  | @write k uid job call calls hget =>
      refine Pool.forall_set hu ?_
      have horder := hu _ (List.mem_of_getElem? hget)
      cases job with
      | rating snapshot provider rating =>
          obtain ⟨furniture, hsuffix⟩ := horder
          exact ⟨furniture, (List.suffix_cons call calls).trans hsuffix⟩
      | _ => exact fun c hc p => horder c (List.mem_cons_of_mem _ hc) p

/-! ## Steps in which no write takes effect -/

private theorem issued_undefined_iff {s : Store} {uid : Uid} {handler : Handler} {input : Input}
    (h : handler.Enabled s input) :
    (handler.issued uid input).countP Call.undefined = 0 ↔ handler.Divides input := by
  have hmoves := moves uid h
  generalize handler.next uid input = next at hmoves
  generalize handler.issued uid input = issued at hmoves
  cases hmoves with
  | accept taskId item documents =>
      refine iff_of_true (List.countP_eq_zero.mpr fun c hc => ?_) trivial
      obtain ⟨x, -, ⟨-, rfl | rfl⟩ | ⟨-, rfl⟩⟩ := mem_accept.mp hc <;> simp [Call.undefined]
  | rate session furniture snapshot provider rating =>
      by_cases hempty : snapshot = some []
      · simp [hempty, Handler.Divides, rate, newRate_empty, Call.undefined]
      · simp [hempty, Handler.Divides, rate, newRate_eq hempty, Call.undefined]
  | dismiss handler => cases handler <;> exact iff_of_true rfl trivial
  | _ => exact iff_of_true (by simp [addOffer, reject, report, Call.undefined]) trivial

private theorem ratesAlike_iff_of_not_lands {w : World} {a : Action} (h : Enabled w a)
    (hlands : lands w a = none) :
    RatesAlike w a ↔ (issues w a).countP Call.undefined = 0 := by
  have hissues := issues_inversion h
  by_cases hprocess : ∃ k input, a = .process k input
  · obtain ⟨k, input, rfl⟩ := hprocess
    generalize issues w (.process k input) = calls at hissues
    cases hissues with
    | nothing hne => exact absurd rfl (hne k input)
    | newTask hne => exact absurd rfl (hne k input)
    | process _ hget henabled =>
        rw [issued_undefined_iff henabled]
        simp [RatesAlike, hget]
  · refine iff_of_true ?_ ?_
    · cases a with
      | process k input => exact absurd ⟨k, input, rfl⟩ hprocess
      | write k =>
          obtain ⟨⟨uid, handler⟩, hget, hcalls⟩ := (w.onProcess_iff k _).mp h
          simp [lands, hget, hcalls] at hlands
      | _ => trivial
    · generalize issues w a = calls at hissues
      cases hissues with
      | nothing => rfl
      | newTask => simp [sendNewTask, Call.undefined]
      | process input => exact absurd ⟨_, input, rfl⟩ hprocess

private theorem means_iff_of_not_lands {w : World} {a : Action} (h : Enabled w a)
    (hregistered : Registered w) (hmeans : RatesAreMeans w) (hlands : lands w a = none) :
    RatesAreMeans (perform w a) ↔ (issues w a).countP Call.undefined = 0 := by
  have hissued := issued_perform h Call.undefined
  rw [hmeans.defined, Nat.zero_add] at hissued
  refine ⟨fun hafter => hissued.symm.trans hafter.defined, fun hnone => ⟨hissued.trans hnone, ?_⟩⟩
  intro p user huser hpending
  rw [(perform_of_not_lands h hlands).1.rate]
  have hbefore := pending_perform h (Call.rates p)
  rw [hpending, hlands] at hbefore
  rcases users_of_not_lands h hlands huser with hold | ⟨hnew, hzero⟩
  · refine hmeans.mean p user hold ?_
    simp only [Option.toList_none, List.countP_nil] at hbefore
    omega
  · -- A user who has just signed up has no ratings.
    have hnone : w.store.rate.whereEqualTo Rate.user p = [] := by
      refine List.eq_nil_iff_forall_not_mem.mpr fun d hd => ?_
      obtain ⟨hstored, rfl⟩ := (w.store.rate.mem_whereEqualTo _ _ d).mp hd
      have hknown := hregistered.rates d hstored
      simp [IsUser, hnew] at hknown
    rw [hnone, hzero]
    simp [Oun.mean]

/-! ## Steps in which a write takes effect -/

/-- A landed write that is not about a provider's rating leaves him as he was. -/
private theorem mean_of_lands {w : World} {a : Action} (h : Enabled w a)
    (hmeans : RatesAreMeans w) {c : Call} (hlands : lands w a = some c) {p : Uid}
    (hother : c.rates p = false) {user : User} (huser : (perform w a).store.users p = some user)
    (hpending : (perform w a).pending (Call.rates p) = 0) :
    user.rate = .value (mean ((perform w a).store.rate.whereEqualTo Rate.user p)) := by
  have hbefore := pending_perform h (Call.rates p)
  rw [hpending, hlands] at hbefore
  have hzero : w.pending (Call.rates p) = 0 := by
    simp [hother] at hbefore
    omega
  obtain ⟨hstore, -⟩ := perform_of_lands h hlands
  rw [hstore] at huser ⊢
  cases hwrite : c.write with
  | addRate r =>
      have hne : r.user ≠ p := by simpa [Call.rates, hwrite] using hother
      simp only [hwrite, Write.apply, Collection.whereEqualTo_add, hne, ite_false,
        List.append_nil] at huser ⊢
      exact hmeans.mean p user huser hzero
  | updateRate q v =>
      have hne : p ≠ q := by simpa [Call.rates, hwrite, eq_comm] using hother
      simp only [hwrite, Write.apply, hne, ite_false] at huser ⊢
      exact hmeans.mean p user huser hzero
  | _ =>
      simp only [hwrite, Write.apply] at huser ⊢
      exact hmeans.mean p user huser hzero

/-- The last write of a rating handler sets the rate of its provider to what the captured
ratings average to. -/
private theorem updateRate_agrees_iff {w : World} (hw : Reachable app w)
    (hmeans : RatesAreMeans w) {k : ℕ} {uid : Uid} {snapshot : Option (List (Doc Rate))}
    {provider : Uid} {rating : Stars}
    (hget : w.processes[k]? = some ⟨uid, .writing (.rating snapshot provider rating)
      [⟨.updateRate provider (newRate snapshot rating), false, none⟩]⟩)
    (h : Enabled w (.write k)) :
    (w.pending (Call.rates provider) = 1 → capturedMean snapshot rating =
      mean (w.store.rate.whereEqualTo Rate.user provider)) ↔
    ∀ user, (perform w (.write k)).store.users provider = some user →
      (perform w (.write k)).pending (Call.rates provider) = 0 →
      user.rate = .value
        (mean ((perform w (.write k)).store.rate.whereEqualTo Rate.user provider)) := by
  have hlands : lands w (.write k) = some
      ⟨.updateRate provider (newRate snapshot rating), false, none⟩ := by
    simp [lands, hget, Handler.calls]
  have hpending := pending_perform h (Call.rates provider)
  have hissues : issues w (.write k) = [] := rfl
  rw [hlands, hissues] at hpending
  simp only [Option.toList_some, List.countP_singleton, Call.rates, decide_true, ite_true,
    List.countP_nil, Nat.add_zero] at hpending
  -- A captured empty list would already be a division by zero on its way.
  have hcaptured : snapshot ≠ some [] := by
    rintro rfl
    have hpos : 0 < w.issued Call.undefined :=
      issued_pos.mpr (.inr ⟨_, List.mem_of_getElem? hget, _, List.mem_cons_self, rfl⟩)
    exact absurd hmeans.defined (Nat.pos_iff_ne_zero.mp hpos)
  obtain ⟨old, hold⟩ : ∃ user, w.store.users provider = some user :=
    Option.isSome_iff_exists.mp ((registered hw).processes _ (List.mem_of_getElem? hget) _
      List.mem_cons_self)
  rw [(perform_of_lands h hlands).1]
  simp only [Write.apply, ite_true, hold, Option.map_some, Option.some.injEq, forall_eq',
    newRate_eq hcaptured, Double.value.injEq]
  refine imp_congr_left ?_
  omega

private theorem ratesAreMeans_of_lands {w : World} (hw : Reachable app w) {a : Action}
    (h : Enabled w a) (hmeans : RatesAreMeans w) {c : Call} (hlands : lands w a = some c) :
    RatesAlike w a ↔ RatesAreMeans (perform w a) := by
  obtain ⟨k, uid, job, calls, rfl, hget⟩ := lands_inversion hlands
  have hdefined : (perform w (.write k)).issued Call.undefined = 0 := by
    rw [issued_perform h, hmeans.defined]
    rfl
  have hiff : RatesAreMeans (perform w (.write k)) ↔ ∀ p user,
      (perform w (.write k)).store.users p = some user →
      (perform w (.write k)).pending (Call.rates p) = 0 →
      user.rate = .value (mean ((perform w (.write k)).store.rate.whereEqualTo Rate.user p)) :=
    ⟨RatesAreMeans.mean, fun hmean => ⟨hdefined, hmean⟩⟩
  have hother : ∀ p, c.rates p = false → ∀ user,
      (perform w (.write k)).store.users p = some user →
      (perform w (.write k)).pending (Call.rates p) = 0 →
      user.rate = .value (mean ((perform w (.write k)).store.rate.whereEqualTo Rate.user p)) :=
    fun p hp user huser hpending => mean_of_lands h hmeans hlands hp huser hpending
  have horder := ratesInOrder hw _ (List.mem_of_getElem? hget)
  rw [hiff]
  cases job with
  | rating snapshot provider rating =>
      obtain ⟨furniture, hsuffix⟩ := horder
      simp only [rate, List.suffix_cons_iff, List.cons.injEq, List.suffix_nil, reduceCtorEq,
        or_false] at hsuffix
      rcases hsuffix with ⟨rfl, rfl⟩ | ⟨rfl, rfl⟩
      · -- The rating is added; the update of the user is still on its way.
        refine iff_of_true (by simp [RatesAlike, hget, Handler.Agrees]) fun p => ?_
        by_cases hp : provider = p
        · intro user _ hzero
          have hpending := pending_perform h (Call.rates p)
          have htwo : 2 ≤ w.pending (Call.rates p) :=
            le_trans (by simp [Handler.calls, Call.rates, hp])
              (Pool.le_total (fun q : Process => q.handler.calls.countP (Call.rates p))
                (List.mem_of_getElem? hget))
          have hissues : issues w (.write k) = [] := rfl
          rw [hzero, hlands, hissues] at hpending
          simp only [Call.rates, hp, Option.toList_some, List.countP_cons, List.countP_nil,
            decide_true, ite_true] at hpending
          omega
        · exact hother p (by simp [Call.rates, hp])
      · have hagrees : RatesAlike w (.write k) ↔ (w.pending (Call.rates provider) = 1 →
            capturedMean snapshot rating =
              mean (w.store.rate.whereEqualTo Rate.user provider)) := by
          simp [RatesAlike, hget, Handler.Agrees]
        rw [hagrees, updateRate_agrees_iff hw hmeans hget h]
        refine ⟨fun hprovider p => ?_, fun hall => hall provider⟩
        by_cases hp : provider = p
        · exact hp ▸ hprovider
        · exact hother p (by simp [Call.rates, hp])
  | _ =>
      exact iff_of_true (by simp [RatesAlike, hget, Handler.Agrees])
        fun p => hother p (horder c List.mem_cons_self p)

theorem ratesAreMeans_step {w : World} (hw : Reachable app w) {a : Action} (h : Enabled w a)
    (hmeans : RatesAreMeans w) : RatesAlike w a ↔ RatesAreMeans (perform w a) := by
  cases hlands : lands w a with
  | none =>
      rw [ratesAlike_iff_of_not_lands h hlands,
        means_iff_of_not_lands h (registered hw) hmeans hlands]
  | some c => exact ratesAreMeans_of_lands hw h hmeans hlands

/-- All along a run the rates of the users are the means of their ratings, exactly when no
confirmed rating has captured an empty list and the last write of ratings of a provider
always comes from a handler whose captured ratings average to the stored ones. -/
theorem rates_are_means {trace : List (World × Action)} {w : World}
    (run : Run app World.init trace w) :
    (∀ u ∈ visited trace w, RatesAreMeans u) ↔ Meets RatesAlike trace :=
  run.forall_visited_iff ⟨[], .nil⟩
    ⟨rfl, fun p user huser => absurd huser (by simp [World.init, Store.empty])⟩
    fun _ _ hu hmeans ha => ratesAreMeans_step hu ha hmeans

namespace Scenario

def five : Stars := ⟨5, by decide⟩

/-- The owner sees the accepted offer and the empty rating bar. -/
def ratable : List Action :=
  oneAccept ++ [.isAccepted 2 [added 0, added 1, notif 2 3 .rejected, notif 3 2 .accepted],
    .israted 2 []]

/-- The owner rates before the ratings of the provider have arrived. -/
def ratedWithoutData : List Action :=
  ratable ++ [.pressRate 2 five, .process 4 (.rate 2 five), .write 4, .write 4]

/-- The owner rates after the empty list of ratings has arrived. -/
def ratedFirst : List Action :=
  ratable ++ [.rateEvent 2 [], .pressRate 2 five, .process 4 (.rate 2 five), .write 4, .write 4]

end Scenario

/-- The first rating, given before any data has arrived, is the mean. -/
theorem rates_are_means_ratedWithoutData :
    Meets RatesAlike (app.steps app.init Scenario.ratedWithoutData) ∧
      ∀ u ∈ visited (app.steps app.init Scenario.ratedWithoutData)
        (app.final app.init Scenario.ratedWithoutData), RatesAreMeans u :=
  ⟨by decide +kernel,
    (rates_are_means (app.run_steps _ Scenario.ratedWithoutData (by decide +kernel))).mpr
      (by decide +kernel)⟩

/-- The first rating, given when the empty list has arrived, makes the rate undefined. -/
theorem rate_undefined_reachable : ¬ ∀ w, Reachable app w → RatesAreMeans w := by
  intro h
  have hdefined := (h _ ⟨_, app.run_steps _ Scenario.ratedFirst (by decide +kernel)⟩).defined
  exact absurd hdefined (by decide +kernel)

end Oun
