import Oun.Verification.Rating.Mean

/-! # What the rates of users can be

The handler writes the average of the ratings it had received when the bar was drawn. Even
when these are up to date and no other rating of the user is on its way, the one being given
is not among them: the rate lags one rating behind. -/

namespace Oun

open Firestore Regex Transition

def Call.updates (p : Uid) (c : Call) : Bool :=
  match c.write with
  | .updateRate q _ => decide (q = p)
  | _ => false

def Call.addsRateOf (p : Uid) (c : Call) : Bool :=
  match c.write with
  | .addRate r => decide (r.user = p)
  | _ => false

theorem Call.updates_iff {p : Uid} {c : Call} :
    c.updates p = true ↔ ∃ rate, c.write = .updateRate p rate := by
  unfold Call.updates
  cases c.write <;> simp

theorem Call.addsRateOf_iff {p : Uid} {c : Call} :
    c.addsRateOf p = true ↔ ∃ r, c.write = .addRate r ∧ r.user = p := by
  unfold Call.addsRateOf
  cases c.write <;> simp

/-! ## The range of rates -/

/-- An average of stars, or the result of a division by zero. -/
def Double.IsRating : Double → Prop
  | .value q => 1 ≤ q ∧ q ≤ 5
  | .infinity => False
  | .nan => True

theorem length_le_allRates (documents : List (Doc Rate)) :
    (documents.length : ℚ) ≤ allRates documents ∧
      allRates documents ≤ 5 * documents.length := by
  rw [allRates_eq_sum]
  induction documents with
  | nil => simp
  | cons d documents ih =>
      have hlow : (1 : ℚ) ≤ d.data.rate.val := by exact_mod_cast d.data.rate.property.1
      have hhigh : (d.data.rate.val : ℚ) ≤ 5 := by exact_mod_cast d.data.rate.property.2
      simp only [List.map_cons, List.sum_cons, List.length_cons, Nat.cast_add, Nat.cast_one]
      constructor <;> linarith [ih.1, ih.2]

theorem newRate_isRating (snapshot : Option (List (Doc Rate))) (rating : Stars) :
    (newRate snapshot rating).IsRating := by
  cases snapshot with
  | none =>
      exact ⟨by exact_mod_cast rating.property.1, by exact_mod_cast rating.property.2⟩
  | some documents =>
      cases hdocuments : documents with
      | nil => trivial
      | cons d rest =>
          rw [← hdocuments]
          have hlength : documents.length ≠ 0 := by simp [hdocuments]
          have hpos : (0 : ℚ) < documents.length := by exact_mod_cast Nat.pos_of_ne_zero hlength
          obtain ⟨hlow, hhigh⟩ := length_le_allRates documents
          simp only [newRate, Double.div, hlength, ite_false, Double.IsRating]
          rw [le_div_iff₀ hpos, div_le_iff₀ hpos]
          exact ⟨by linarith, hhigh⟩

/-- All rates on their way are ratings. -/
theorem pending_isRating {w : World} (hw : Reachable app w) {p : Process} (hp : p ∈ w.processes)
    {c : Call} (hc : c ∈ p.handler.calls) {q : Uid} {rate : Double}
    (hwrite : c.write = .updateRate q rate) : rate.IsRating := by
  have horder := ratesInOrder hw p hp
  obtain ⟨uid, handler⟩ := p
  cases handler with
  | writing job calls =>
      cases job with
      | rating snapshot provider rating =>
          obtain ⟨furniture, hsuffix⟩ := horder
          have hmem := hsuffix.mem hc
          simp only [Oun.rate, List.mem_cons, List.not_mem_nil, or_false] at hmem
          rcases hmem with rfl | rfl
          · simp at hwrite
          · obtain ⟨-, rfl⟩ := Write.updateRate.inj hwrite
            exact newRate_isRating snapshot rating
      | _ =>
          have hnone := horder c hc q
          simp [Call.rates, hwrite] at hnone
  | _ => simp [Handler.calls] at hc

/-- The rate of a user fits what has been written of it. -/
def RateFits (w : World) (p : Uid) : Prop :=
  match w.store.users p with
  | some user => if w.logged (Call.updates p) = 0 then user.rate = .value 0 else user.rate.IsRating
  | none => w.logged (Call.updates p) = 0

private theorem rateFits_of_not_lands {w : World} {a : Action} (h : Enabled w a)
    (hlands : lands w a = none) {p : Uid} (hfits : RateFits w p) : RateFits (perform w a) p := by
  have hlogged : (perform w a).logged (Call.updates p) = w.logged (Call.updates p) := by
    simp [logged_perform h, hlands]
  unfold RateFits at hfits ⊢
  rw [hlogged]
  cases huser : (perform w a).store.users p with
  | some user =>
      rcases users_of_not_lands h hlands huser with hold | ⟨hnew, hzero⟩
      · simpa only [hold] using hfits
      · simp only [hnew] at hfits
        simpa only [hfits, ite_true] using hzero
  | none =>
      cases hold : w.store.users p with
      | none => simpa only [hold] using hfits
      | some user =>
          have hkept := users_isSome_perform h (Option.isSome_iff_exists.mpr ⟨user, hold⟩)
          simp [huser] at hkept

private theorem rateFits_of_lands {w : World} (hw : Reachable app w) {a : Action} (h : Enabled w a)
    {c : Call} (hc : c ∈ lands w a) {p : Uid} (hfits : RateFits w p) :
    RateFits (perform w a) p := by
  obtain ⟨k, uid, job, calls, rfl, hget⟩ := lands_inversion hc
  have hmem := List.mem_of_getElem? hget
  have hlogged := logged_perform h (Call.updates p)
  rw [Option.mem_def.mp hc, Option.toList_some, List.countP_singleton] at hlogged
  unfold RateFits at hfits ⊢
  rw [hlogged, (perform_of_lands h hc).1]
  by_cases hupdates : c.updates p = true
  · obtain ⟨rate, hwrite⟩ := Call.updates_iff.mp hupdates
    have hregistered := (registered hw).processes _ hmem c List.mem_cons_self
    simp only [Call.Registered, hwrite] at hregistered
    obtain ⟨user, huser⟩ := Option.isSome_iff_exists.mp hregistered
    have hrating := pending_isRating hw hmem List.mem_cons_self hwrite
    simpa [hwrite, Write.apply, huser, hupdates] using hrating
  · have hsame : (c.write.apply w.store).users p = w.store.users p := by
      cases hwrite : c.write with
      | updateRate q rate =>
          have hne : p ≠ q := by
            rintro rfl
            exact hupdates (Call.updates_iff.mpr ⟨rate, hwrite⟩)
          exact if_neg hne
      | _ => rfl
    rw [hsame, if_neg hupdates, Nat.add_zero]
    exact hfits

theorem rateFits {w : World} (hw : Reachable app w) (p : Uid) : RateFits w p := by
  refine hw.invariant (I := fun w => RateFits w p) rfl fun u a hreach hu ha => ?_
  cases hlands : lands u a with
  | none => exact rateFits_of_not_lands ha hlands hu
  | some c => exact rateFits_of_lands hreach ha hlands hu

theorem rate_zero_or_isRating {w : World} (hw : Reachable app w) {p : Uid} {user : User}
    (huser : w.store.users p = some user) : user.rate = .value 0 ∨ user.rate.IsRating := by
  have hfits := rateFits hw p
  simp only [RateFits, huser] at hfits
  split at hfits
  · exact .inl hfits
  · exact .inr hfits

/-- In every reachable state a user has the rate 0 until a rating of him lands, and from then on
a rate from 1 to 5, or one that is not a number. -/
theorem rate_range {w : World} (hw : Reachable app w) {p : Uid} {user : User}
    (huser : w.store.users p = some user) :
    (w.logged (Call.updates p) = 0 → user.rate = .value 0) ∧
      (0 < w.logged (Call.updates p) → user.rate.IsRating) := by
  have hfits := rateFits hw p
  simp only [RateFits, huser] at hfits
  constructor
  · intro hzero
    simpa only [hzero, ite_true] using hfits
  · intro hpos
    simpa only [Nat.pos_iff_ne_zero.mp hpos, ite_false] using hfits

/-! ## Ratings given one after the other -/

/-- The average as the rating handler takes it. -/
def average (documents : List (Doc Rate)) : Double :=
  .div (allRates documents) documents.length

/-- The average without the last rating; 0 before the first. -/
def lagged (documents : List (Doc Rate)) : Double :=
  if documents = [] then .value 0 else average documents.dropLast

theorem average_perm {documents documents' : List (Doc Rate)} (h : documents.Perm documents') :
    average documents = average documents' := by
  rw [average, average, allRates_eq_sum, allRates_eq_sum, h.length_eq, (h.map _).sum_eq]

/-- Rate is pressed with all stored ratings of the user received and none on its way. -/
def Handler.RatesFresh (w : World) : Handler → Input → Prop
  | .ratingDialog _ _ snapshot, .rate provider _ => w.pending (Call.updates provider) = 0 ∧
      ∃ documents ∈ snapshot, documents.Perm (w.store.rate.whereEqualTo Rate.user provider)
  | _, _ => True

def RatesFresh (w : World) : Action → Prop
  | .process k input => ∀ p ∈ w.processes[k]?, p.handler.RatesFresh w input
  | _ => True

instance (w : World) (handler : Handler) (input : Input) :
    Decidable (handler.RatesFresh w input) := by
  apply Handler.casesOn (motive := fun h => Decidable (h.RatesFresh w input)) handler <;> intros <;>
    apply Input.casesOn (motive := fun i => Decidable (Handler.RatesFresh w _ i)) input <;>
    intros <;> unfold Handler.RatesFresh <;> infer_instance

instance (w : World) (a : Action) : Decidable (RatesFresh w a) := by
  apply Action.casesOn (motive := fun a => Decidable (RatesFresh w a)) a <;> intros <;>
    unfold RatesFresh <;> infer_instance

/-- A user of whom no rating is on its way has the lagged average. What is to be written was
computed before the rating given with it is stored, and lags behind after. -/
structure Lagging (w : World) (p : Uid) : Prop where
  single : w.pending (Call.updates p) ≤ 1
  calls : ∀ q ∈ w.processes, ∀ c ∈ q.handler.calls, ∀ rate, c.write = .updateRate p rate →
    (0 < w.pending (Call.addsRateOf p) → rate = average (w.store.rate.whereEqualTo Rate.user p)) ∧
      (w.pending (Call.addsRateOf p) = 0 → w.store.rate.whereEqualTo Rate.user p ≠ [] ∧
        rate = average (w.store.rate.whereEqualTo Rate.user p).dropLast)
  rate : ∀ user, w.store.users p = some user → w.pending (Call.updates p) = 0 →
    user.rate = lagged (w.store.rate.whereEqualTo Rate.user p)

/-- Every rating on its way has an update on its way behind it. -/
theorem adds_le_updates {w : World} (hw : Reachable app w) (p : Uid) :
    w.pending (Call.addsRateOf p) ≤ w.pending (Call.updates p) := by
  refine Pool.total_mono fun q hq => ?_
  have horder := ratesInOrder hw q hq
  obtain ⟨uid, handler⟩ := q
  cases handler with
  | writing job calls =>
      cases job with
      | rating snapshot provider rating =>
          obtain ⟨furniture, hsuffix⟩ := horder
          simp only [Oun.rate, List.suffix_cons_iff, List.suffix_nil] at hsuffix
          by_cases hp : provider = p <;> rcases hsuffix with rfl | rfl | rfl <;>
            simp [Handler.calls, Call.addsRateOf, Call.updates, hp]
      | _ =>
          refine le_of_eq_of_le (List.countP_eq_zero.mpr fun c hc hadds => ?_) (Nat.zero_le _)
          obtain ⟨r, hwrite, rfl⟩ := Call.addsRateOf_iff.mp hadds
          simpa [Call.rates, hwrite] using horder c hc r.user
  | _ => simp [Handler.calls]

/-- What is on its way after a step was on its way before or is issued in it. -/
theorem onWay_perform {w : World} {a : Action} (h : Enabled w a) {q : Process}
    (hq : q ∈ (perform w a).processes) {c : Call} (hc : c ∈ q.handler.calls) :
    (∃ p ∈ w.processes, c ∈ p.handler.calls) ∨ c ∈ issues w a := by
  have hpending := pending_perform h fun x => decide (x = c)
  have hafter : 0 < (perform w a).pending fun x => decide (x = c) :=
    pending_pos.mpr ⟨q, hq, c, hc, by simp⟩
  have hbefore : 0 < w.pending (fun x => decide (x = c)) ∨
      0 < (issues w a).countP fun x => decide (x = c) := by
    omega
  refine hbefore.imp (fun hpos => ?_) fun hpos => ?_
  · obtain ⟨p, hp, x, hx, heq⟩ := pending_pos.mp hpos
    exact ⟨p, hp, of_decide_eq_true heq ▸ hx⟩
  · obtain ⟨x, hx, heq⟩ := List.countP_pos_iff.mp hpos
    exact of_decide_eq_true heq ▸ hx

theorem Call.rates_iff {p : Uid} {c : Call} :
    c.rates p = true ↔ c.updates p = true ∨ c.addsRateOf p = true := by
  unfold Call.rates Call.updates Call.addsRateOf
  cases c.write <;> simp

/-- Ratings of a user are issued by Rate only. -/
theorem issues_rates {w : World} {a : Action} (h : Enabled w a) {p : Uid}
    (hrates : ∃ c ∈ issues w a, c.rates p = true) :
    ∃ k uid session furniture snapshot rating, a = .process k (.rate p rating) ∧
      w.processes[k]? = some ⟨uid, .ratingDialog session furniture snapshot⟩ ∧
      issues w a = rate furniture snapshot p rating := by
  obtain ⟨c, hc, hrates⟩ := hrates
  have hissues := issues_inversion h
  generalize issues w a = calls at hissues hc ⊢
  cases hissues with
  | nothing => simp at hc
  | newTask => simp [List.mem_singleton.mp hc, Call.rates] at hrates
  | @process k uid handler input hget henabled =>
      have hmoves := moves uid henabled
      generalize handler.next uid input = next at hmoves
      generalize handler.issued uid input = issued at hmoves hc ⊢
      cases hmoves with
      | accept taskId item documents => simp [accept_rates hc p] at hrates
      | rate session furniture snapshot provider rating =>
          simp only [rate, List.mem_cons, List.not_mem_nil, or_false] at hc
          obtain rfl : provider = p := by
            rcases hc with rfl | rfl <;> simpa [Call.rates] using hrates
          exact ⟨k, uid, session, furniture, snapshot, rating, rfl, hget, rfl⟩
      | offer | reject =>
          simp only [addOffer, reject, List.mem_cons, List.not_mem_nil, or_false] at hc
          rcases hc with rfl | rfl <;> simp [Call.rates] at hrates
      | report => simp [List.mem_singleton.mp hc, Call.rates] at hrates
      | _ => simp at hc

/-! ## One step -/

/-- The ratings and the rate of a user after a step in which no rating of him is stored or
updated. -/
private theorem user_of_silent {w : World} (hw : Reachable app w) {a : Action} (h : Enabled w a)
    {p : Uid} (hlands : ∀ c ∈ lands w a, c.rates p = false) :
    (perform w a).store.rate.whereEqualTo Rate.user p = w.store.rate.whereEqualTo Rate.user p ∧
      ∀ user, (perform w a).store.users p = some user → w.store.users p = some user ∨
        user.rate = lagged (w.store.rate.whereEqualTo Rate.user p) := by
  cases hc : lands w a with
  | none =>
      rw [(perform_of_not_lands h hc).1.rate]
      refine ⟨rfl, fun user huser => (users_of_not_lands h hc huser).imp_right ?_⟩
      rintro ⟨hnew, hzero⟩
      -- A user who has just signed up has no ratings.
      have hnone : w.store.rate.whereEqualTo Rate.user p = [] := by
        refine List.eq_nil_iff_forall_not_mem.mpr fun d hd => ?_
        obtain ⟨hstored, rfl⟩ := (w.store.rate.mem_whereEqualTo _ _ d).mp hd
        have hknown := (registered hw).rates d hstored
        simp [IsUser, hnew] at hknown
      rw [hnone, hzero]
      rfl
  | some c =>
      have hother := hlands c hc
      rw [(perform_of_lands h hc).1]
      cases hwrite : c.write with
      | addRate r =>
          have hne : r.user ≠ p := by simpa [Call.rates, hwrite] using hother
          refine ⟨?_, fun user huser => .inl huser⟩
          simp [Write.apply, Collection.whereEqualTo_add, hne]
      | updateRate q rate =>
          have hne : p ≠ q := by simpa [Call.rates, hwrite, eq_comm] using hother
          exact ⟨rfl, fun user huser => .inl ((if_neg hne).symm.trans huser)⟩
      | _ => exact ⟨rfl, fun user huser => .inl huser⟩

private theorem lagging_of_silent {w : World} (hw : Reachable app w) {a : Action}
    (h : Enabled w a) {p : Uid} (hlag : Lagging w p)
    (hissues : ∀ c ∈ issues w a, c.rates p = false)
    (hlands : ∀ c ∈ lands w a, c.rates p = false) : Lagging (perform w a) p := by
  have hpending : ∀ q : Call → Bool, (∀ c, q c = true → c.rates p = true) →
      (perform w a).pending q = w.pending q := by
    intro q hq
    have hstep := pending_perform h q
    rw [List.countP_eq_zero.mpr fun c hc hqc => Bool.false_ne_true
        ((hlands c (Option.mem_toList.mp hc)).symm.trans (hq c hqc)),
      List.countP_eq_zero.mpr fun c hc hqc => Bool.false_ne_true
        ((hissues c hc).symm.trans (hq c hqc))] at hstep
    exact hstep
  have hupdates := hpending _ fun c hc => Call.rates_iff.mpr (.inl hc)
  have hadds := hpending _ fun c hc => Call.rates_iff.mpr (.inr hc)
  obtain ⟨hwhere, husers⟩ := user_of_silent hw h hlands
  refine ⟨hupdates ▸ hlag.single, fun q hq c hc rate hwrite => ?_, fun user huser hzero => ?_⟩
  · rw [hwhere, hadds]
    rcases onWay_perform h hq hc with ⟨q', hq', hc'⟩ | hc'
    · exact hlag.calls q' hq' c hc' rate hwrite
    · have hfalse := hissues c hc'
      simp [Call.rates, hwrite] at hfalse
  · rw [hwhere]
    rcases husers user huser with hold | hlagged
    · exact hlag.rate user hold (hupdates ▸ hzero)
    · exact hlagged

private theorem lagging_of_rate {w : World} (hw : Reachable app w) {a : Action}
    (h : Enabled w a) {p : Uid} (hfresh : RatesFresh w a)
    (hrates : ∃ c ∈ issues w a, c.rates p = true) : Lagging (perform w a) p := by
  obtain ⟨k, uid, session, furniture, snapshot, rating, rfl, hget, hissues⟩ := issues_rates h hrates
  obtain ⟨hzero, documents, rfl, hdocuments⟩ := hfresh _ hget
  have hadds := adds_le_updates hw p
  rw [hzero, Nat.le_zero] at hadds
  have hlands : lands w (.process k (.rate p rating)) = none := rfl
  have hupdates' : (perform w (.process k (.rate p rating))).pending (Call.updates p) = 1 := by
    have hstep := pending_perform h (Call.updates p)
    rw [hlands, hissues, hzero] at hstep
    simpa [rate, Call.updates] using hstep
  have hadds' : (perform w (.process k (.rate p rating))).pending (Call.addsRateOf p) = 1 := by
    have hstep := pending_perform h (Call.addsRateOf p)
    rw [hlands, hissues, hadds] at hstep
    simpa [rate, Call.addsRateOf] using hstep
  refine ⟨hupdates'.le, fun q hq c hc r hwrite => ⟨fun _ => ?_, fun hnone => ?_⟩,
    fun user _ hnone => ?_⟩
  · rw [(perform_of_not_lands h hlands).1.rate, ← average_perm hdocuments]
    have hupdates : c.updates p = true := Call.updates_iff.mpr ⟨r, hwrite⟩
    rcases onWay_perform h hq hc with ⟨q', hq', hc'⟩ | hc'
    · have hpos : 0 < w.pending (Call.updates p) := pending_pos.mpr ⟨q', hq', c, hc', hupdates⟩
      omega
    · simp only [hissues, rate, List.mem_cons, List.not_mem_nil, or_false] at hc'
      rcases hc' with rfl | rfl
      · simp at hwrite
      · exact (Write.updateRate.inj hwrite).2.symm
  · omega
  · omega

private theorem pending_of_lands {w : World} {a : Action} (h : Enabled w a) {c : Call}
    (hc : c ∈ lands w a) (q : Call → Bool) :
    (perform w a).pending q + (if q c = true then 1 else 0) = w.pending q := by
  have hstep := pending_perform h q
  rwa [Option.mem_def.mp hc, issues_of_lands hc, Option.toList_some, List.countP_singleton] at hstep

private theorem onWay_of_lands {w : World} {a : Action} (h : Enabled w a) {c : Call}
    (hc : c ∈ lands w a) {q : Process} (hq : q ∈ (perform w a).processes) {x : Call}
    (hx : x ∈ q.handler.calls) : ∃ p ∈ w.processes, x ∈ p.handler.calls := by
  refine (onWay_perform h hq hx).resolve_right ?_
  simp [issues_of_lands hc]

private theorem lagging_of_addRate {w : World} (hw : Reachable app w) {a : Action}
    (h : Enabled w a) {p : Uid} (hlag : Lagging w p) {c : Call} (hc : c ∈ lands w a) {r : Rate}
    (hwrite : c.write = .addRate r) (hr : r.user = p) : Lagging (perform w a) p := by
  have hcu : c.updates p = false := by simp [Call.updates, hwrite]
  have hca : c.addsRateOf p = true := by simp [Call.addsRateOf, hwrite, hr]
  have hupdates := pending_of_lands h hc (Call.updates p)
  have hadds := pending_of_lands h hc (Call.addsRateOf p)
  rw [hcu] at hupdates
  rw [hca] at hadds
  simp only [Bool.false_eq_true, ite_false, ite_true] at hupdates hadds
  have hle := adds_le_updates hw p
  have hsingle := hlag.single
  have hwhere : (perform w a).store.rate.whereEqualTo Rate.user p =
      w.store.rate.whereEqualTo Rate.user p ++ [⟨w.store.rate.next, r⟩] := by
    rw [(perform_of_lands h hc).1, hwrite]
    simp [Write.apply, Collection.whereEqualTo_add, hr]
  refine ⟨by omega, fun q hq x hx rate hrate => ⟨fun _ => by omega, fun _ => ?_⟩,
    fun user _ hzero => by omega⟩
  obtain ⟨q', hq', hx'⟩ := onWay_of_lands h hc hq hx
  rw [hwhere, List.dropLast_concat]
  exact ⟨by simp, (hlag.calls q' hq' x hx' rate hrate).1 (by omega)⟩

private theorem lagging_of_updateRate {w : World} {a : Action} (h : Enabled w a)
    (hreach : Reachable app (perform w a)) {p : Uid} (hlag : Lagging w p)
    {c : Call} (hc : c ∈ lands w a) {rate : Double} (hwrite : c.write = .updateRate p rate) :
    Lagging (perform w a) p := by
  obtain ⟨k, uid, job, calls, rfl, hget⟩ := lands_inversion hc
  have hmem := List.mem_of_getElem? hget
  have hcu : c.updates p = true := by simp [Call.updates, hwrite]
  have hca : c.addsRateOf p = false := by simp [Call.addsRateOf, hwrite]
  have hupdates := pending_of_lands h hc (Call.updates p)
  have hadds := pending_of_lands h hc (Call.addsRateOf p)
  rw [hcu] at hupdates
  rw [hca] at hadds
  simp only [Bool.false_eq_true, ite_false, ite_true] at hupdates hadds
  have hle := adds_le_updates hreach p
  have hsingle := hlag.single
  -- No rating of the user is left that is not stored.
  obtain ⟨hne, hrate⟩ := (hlag.calls _ hmem c List.mem_cons_self rate hwrite).2 (by omega)
  refine ⟨by omega, fun q hq x hx r hx' => ?_, fun user huser _ => ?_⟩
  · have hpos : 0 < (perform w (.write k)).pending (Call.updates p) :=
      pending_pos.mpr ⟨q, hq, x, hx, Call.updates_iff.mpr ⟨r, hx'⟩⟩
    omega
  · rw [(perform_of_lands h hc).1, hwrite] at huser ⊢
    simp only [Write.apply, ite_true, Option.map_eq_some_iff] at huser ⊢
    obtain ⟨old, -, rfl⟩ := huser
    simp only [lagged, hne, ite_false]
    exact hrate

theorem lagging_step {w : World} (hw : Reachable app w) {a : Action} (h : Enabled w a)
    (hfresh : RatesFresh w a) {p : Uid} (hlag : Lagging w p) : Lagging (perform w a) p := by
  by_cases hissues : ∃ c ∈ issues w a, c.rates p = true
  · exact lagging_of_rate hw h hfresh hissues
  by_cases hlands : ∃ c ∈ lands w a, c.rates p = true
  · obtain ⟨c, hc, hrates⟩ := hlands
    rcases Call.rates_iff.mp hrates with hupdates | hadds
    · obtain ⟨rate, hwrite⟩ := Call.updates_iff.mp hupdates
      exact lagging_of_updateRate h ((Run.single h).reachable hw) hlag hc hwrite
    · obtain ⟨r, hwrite, hr⟩ := Call.addsRateOf_iff.mp hadds
      exact lagging_of_addRate hw h hlag hc hwrite hr
  · exact lagging_of_silent hw h hlag (by simpa using hissues) (by simpa using hlands)

/-- In a run in which every rating is given with all earlier ones of the user received and none
on its way, a user of whom no rating is on its way has the average of all his ratings but the
last; the first one leaves a rate that is not a number. -/
theorem rates_lag {trace : List (World × Action)} {w : World} (run : Run app World.init trace w)
    (hC : Meets RatesFresh trace) {p : Uid} {user : User} (huser : w.store.users p = some user)
    (hnone : w.pending (Call.updates p) = 0) :
    user.rate = lagged (w.store.rate.whereEqualTo Rate.user p) := by
  have hlag : Lagging w p := by
    refine run.invariant_init (I := fun w => Lagging w p) hC ?_ fun u a hu hlag ha hfresh =>
      lagging_step hu ha hfresh hlag
    refine ⟨Nat.zero_le _, fun q hq => ?_, fun user huser => ?_⟩
    · simp [app, World.init] at hq
    · simp [app, World.init, Store.empty] at huser
  exact hlag.rate user huser hnone

namespace Scenario

def three : Stars := ⟨3, by decide⟩

/-- Both phones of the owner show the bar, and the second one rates when it has received the
rating of the first. -/
def ratedUpToDate : List Action :=
  ratable ++ visit 1 3 [added 0, added 1, notif 2 3 .rejected, notif 3 2 .accepted] ++
    [.israted 3 [], .rateEvent 2 [], .pressRate 2 five, .process 4 (.rate 2 five), .write 4,
      .write 4, .rateEvent 3 [⟨0, ⟨five, 0, 2⟩⟩], .pressRate 3 three, .process 5 (.rate 2 three),
      .write 5, .write 5]

end Scenario

/-- After a five and a three the rate is five. -/
theorem rates_lag_ratedUpToDate : ∃ user,
    (app.final app.init Scenario.ratedUpToDate).store.users 2 = some user ∧
      user.rate = lagged
        ((app.final app.init Scenario.ratedUpToDate).store.rate.whereEqualTo Rate.user 2) ∧
      lagged ((app.final app.init Scenario.ratedUpToDate).store.rate.whereEqualTo Rate.user 2) =
        .value 5 := by
  obtain ⟨user, huser⟩ : ∃ user,
      (app.final app.init Scenario.ratedUpToDate).store.users 2 = some user :=
    Option.isSome_iff_exists.mp (by decide +kernel)
  have run := app.run_steps app.init Scenario.ratedUpToDate (by decide +kernel)
  have hfresh : Meets RatesFresh (app.steps app.init Scenario.ratedUpToDate) := by decide +kernel
  have hnone : (app.final app.init Scenario.ratedUpToDate).pending (Call.updates 2) = 0 := by
    decide +kernel
  exact ⟨user, huser, rates_lag run hfresh huser hnone, by decide +kernel⟩

/-- A first rating, given when the empty list of ratings has arrived, leaves a rate that is not a
number. -/
theorem rate_range_ratedFirst : ∃ user,
    (app.final app.init Scenario.ratedFirst).store.users 2 = some user ∧ user.rate.IsRating := by
  obtain ⟨user, huser⟩ : ∃ user,
      (app.final app.init Scenario.ratedFirst).store.users 2 = some user :=
    Option.isSome_iff_exists.mp (by decide +kernel)
  exact ⟨user, huser, (rate_range ⟨_, app.run_steps _ Scenario.ratedFirst (by decide +kernel)⟩
    huser).2 (by decide +kernel)⟩

end Oun
