import Oun.Verification.Offers.Verdicts
import Oun.Verification.Sessions.Screens
import Oun.Verification.Winner.Agreement

/-! # What an acceptance leaves behind

When the Accept handlers of a task have finished, the accepted offer is the only one left,
unless an offer was written late, the accepted one was deleted, or the library variable
`provider` was overwritten for another task. -/

namespace Oun

open Firestore Regex Transition

/-- An Accept handler on the task between its read and its last write. -/
def Handler.accepting (t : DocId) : Handler → Bool
  | .acceptGet taskId _ => decide (taskId = t)
  | .writing (.accept taskId _) calls => decide (taskId = t) && !calls.isEmpty
  | _ => false

def AcceptRunning (w : World) (t : DocId) : Prop :=
  ∃ p ∈ w.processes, p.handler.accepting t = true

instance (w : World) (t : DocId) : Decidable (AcceptRunning w t) := by
  unfold AcceptRunning; infer_instance

/-- The offers on the task are one offer, which was accepted and was made by the user, and
every open screen of the task that shows the acceptance fetches its price. -/
def Outcome (w : World) (t : DocId) (p : Uid) : Prop :=
  ∃ d, w.store.offers.whereEqualTo Offer.task t = [d] ∧ d.data.provider = p ∧
    (∃ e ∈ w.log, e.call.tells .accepted d = true) ∧ d.data.price ≠ noData ∧
    ∀ screen ∈ w.screens, screen.isOpen = true → screen.accepted = some true →
      screen.furniture.id = t → ∀ documents,
        documents.Perm (w.store.offers.whereEqualTo Offer.task t) →
          fetchPrice documents (w.sessions screen.session).provider = d.data.price

/-! ## Conditions on single steps -/

/-- No offer is written for a task whose acceptance is stored or on its way. -/
def OffersUnsettled (w : World) (a : Action) : Prop :=
  ∀ c ∈ lands w a, ∀ o ∈ c.write.offer?, ¬ Settled w o.task

/-- No live offer is deleted that an Accept handler has chosen. -/
def SparesChosen (w : World) (a : Action) : Prop :=
  ∀ c ∈ lands w a, ∀ id ∈ c.write.deleteOffer?, ∀ d ∈ w.store.offers.docs,
    d.id = id → ¬ Chosen w d

/-- No `isAccepted()` of one task changes `provider` under an open screen of the session
that shows the acceptance of another. -/
def KeepsProvider (w : World) : Action → Prop
  | .isAccepted i documents => ∀ screen ∈ w.screens[i]?, ∀ other ∈ w.screens,
      other.isOpen = true → other.accepted = some true → other.session = screen.session →
      other.furniture.id ≠ screen.furniture.id →
        (isAccepted documents (w.sessions screen.session).provider).2 =
          (w.sessions screen.session).provider
  | _ => True

instance (w : World) (a : Action) : Decidable (KeepsProvider w a) := by
  apply Action.casesOn (motive := fun a => Decidable (KeepsProvider w a)) a <;> intros <;>
    unfold KeepsProvider <;> infer_instance

def Undisturbed (w : World) (a : Action) : Prop :=
  OffersUnsettled w a ∧ SparesChosen w a ∧ KeepsProvider w a

instance (w : World) (a : Action) : Decidable (Undisturbed w a) := by
  unfold Undisturbed OffersUnsettled SparesChosen; infer_instance

/-! ## The chosen offer outlasts the others -/

/-- An Accept handler on the task has a delete of the offer on its way. -/
def Doomed (w : World) (t id : DocId) : Prop :=
  ∃ uid item calls, ⟨uid, .writing (.accept t item) calls⟩ ∈ w.processes ∧
    ∃ c ∈ calls, c.write = .deleteOffer id

/-- The offer is live, and all others on its task are doomed. -/
def Outlasts (w : World) (d : Doc Offer) : Prop :=
  d ∈ w.store.offers.docs ∧ ∀ x ∈ w.store.offers.docs, x.data.task = d.data.task → x ≠ d →
    Doomed w d.data.task x.id

theorem settled_of_chosen {w : World} (hw : Reachable app w) {d : Doc Offer} (h : Chosen w d) :
    Settled w d.data.task := by
  have htells : ∀ c : Call, c.tells .accepted d = true →
      c.onNotif (acceptedOn d.data.task) = true := by
    intro c hc
    simp only [Call.tells, Bool.and_eq_true, Call.onNotif_iff, notified] at hc
    obtain ⟨-, n, hwrite, hn⟩ := hc
    exact Call.onNotif_iff.mpr ⟨n, hwrite, by simp_all [acceptedOn]⟩
  rw [settled_iff hw, issued_pos]
  rcases issued_pos.mp h with ⟨e, he, hc⟩ | ⟨p, hp, c, hmem, hc⟩
  · exact .inl ⟨e, he, htells _ hc⟩
  · exact .inr ⟨p, hp, c, hmem, htells _ hc⟩

private theorem doomed_perform {w : World} {a : Action} (h : Enabled w a) {t id : DocId}
    (hdoomed : Doomed w t id) (hlands : ∀ c ∈ lands w a, c.write ≠ .deleteOffer id) :
    Doomed (perform w a) t id := by
  obtain ⟨uid, item, calls, hp, c, hc, hwrite⟩ := hdoomed
  rcases calls_persist h hp hc with hland | ⟨calls', hp', hc'⟩
  · exact absurd hwrite (hlands c hland)
  · exact ⟨uid, item, calls', hp', c, hc', hwrite⟩

/-- The handler that chooses an offer dooms all others that are live on the task. -/
private theorem outlasts_of_chooses {w : World} (hw : Reachable app w) {a : Action}
    (h : Enabled w a) {d : Doc Offer} (hd : NoOther w.log d)
    (hchooses : 0 < (issues w a).countP (Call.tells .accepted d)) : Outlasts (perform w a) d := by
  have hlive := mem_offers_of_chooses hw h hd hchooses
  obtain ⟨k, uid, item, documents, rfl, hget, hitem, hdocuments, -⟩ :=
    chooses_inversion h hchooses
  refine ⟨(mem_offers_perform h d).mpr (.inl ⟨hlive, by simp [lands]⟩), fun x hx htask hne => ?_⟩
  have hx : x ∈ w.store.offers.docs := by simpa [lands] using (mem_offers_perform h x).mp hx
  have hread : x ∈ documents :=
    hdocuments.mem_iff.mpr ((w.store.offers.mem_whereEqualTo _ _ x).mpr ⟨hx, htask⟩)
  have hother : x.id ≠ item.offerId := fun hid => hne (hd.eq hw hx (hid.trans hitem))
  refine ⟨uid, item, accept d.data.task item documents, ?_, _,
    mem_accept.mpr ⟨x, hread, .inl ⟨hother, .inl rfl⟩⟩, rfl⟩
  simp only [perform, World.process, hget]
  exact Pool.mem_set_self _ hget

private theorem outlasts_step {w : World} (hw : Reachable app w) {a : Action} (h : Enabled w a)
    (hsettled : OffersUnsettled w a) (hspares : SparesChosen w a) {d : Doc Offer}
    (hchosen : Chosen w d) (houtlasts : Outlasts w d) : Outlasts (perform w a) d := by
  obtain ⟨hlive, hothers⟩ := houtlasts
  constructor
  · refine (mem_offers_perform h d).mpr (.inl ⟨hlive, fun c hc hwrite => ?_⟩)
    exact hspares c hc d.id (by simp [hwrite, Write.deleteOffer?]) d hlive rfl hchosen
  · intro x hx htask hne
    rcases (mem_offers_perform h x).mp hx with ⟨hx, hlands⟩ | ⟨c, hc, hwrite, -⟩
    · exact doomed_perform h (hothers x hx htask hne) hlands
    · have hlate := hsettled c hc x.data (by simp [hwrite, Write.offer?])
      exact absurd (settled_of_chosen hw hchosen) (htask ▸ hlate)

theorem outlasts_of_chosen {trace : List (World × Action)} {w : World}
    (run : Run app World.init trace w) (hC : Meets Undisturbed trace) {d : Doc Offer}
    (hsub : Submitted w.log d.id d.data) (hchosen : Chosen w d) : Outlasts w d := by
  refine run.invariant_init (I := fun w => NoOther w.log d → Chosen w d → Outlasts w d) hC ?_ ?_
    (hsub.noOther ⟨trace, run⟩) hchosen
  · intro _ h
    simp [Chosen, World.issued, World.logged, World.pending, app, World.init] at h
  · rintro u a hreach hu ha ⟨hsettled, hspares, -⟩ hd hchosen
    have hd' : NoOther u.log d := hd.before (extends_perform ha)
    rcases (chosen_perform ha d).mp hchosen with hbefore | hchooses
    · exact outlasts_step hreach ha hsettled hspares hbefore (hu hd' hbefore)
    · exact outlasts_of_chooses hreach ha hd' hchooses

/-! ## The provider whose price is fetched -/

/-- Open screens that show an acceptance find an accepted provider of their task in the
library variable. -/
def ProvidersFit (w : World) : Prop :=
  ∀ screen ∈ w.screens, screen.isOpen = true → screen.accepted = some true →
    ∃ d ∈ w.store.notifs.docs, d.data.task = screen.furniture.id ∧ d.data.status = .accepted ∧
      (w.sessions screen.session).provider = some d.data.user

private theorem providersFit_step {w : World} {a : Action} (h : Enabled w a)
    (hkeeps : KeepsProvider w a) (hfit : ProvidersFit w) : ProvidersFit (perform w a) := by
  have hnotifs : ∀ d ∈ w.store.notifs.docs, d ∈ (perform w a).store.notifs.docs := fun d hd =>
    notifs_grow.mem_perform h hd
  have heffect := screenEffect h
  generalize perform w a = w' at heffect hnotifs
  cases heffect with
  | keep hprovider hscreens =>
      intro screen' hmem hopen haccepted
      obtain ⟨screen, hmem, hopen, haccepted, hsession, hfurniture⟩ :=
        hscreens screen' hmem hopen haccepted
      obtain ⟨d, hd, htask, hstatus, hset⟩ := hfit screen hmem hopen haccepted
      refine ⟨d, hnotifs d hd, hfurniture ▸ htask, hstatus, ?_⟩
      rw [hprovider, ← hsession]
      exact hset
  | @completes i documents screen hget hdocuments =>
      have hanswer := isAccepted_stored hdocuments (w.sessions screen.session).provider
      intro screen' hmem hopen haccepted
      simp only [World.acceptedCompletes, World.updateScreen, World.updateSession] at hmem ⊢
      rcases List.mem_or_eq_of_mem_set hmem with hmem | rfl
      · obtain ⟨d, hd, htask, hstatus, hset⟩ := hfit screen' hmem hopen haccepted
        by_cases hsession : screen'.session = screen.session
        · simp only [hsession, ite_true]
          rw [hsession] at hset
          by_cases hid : screen'.furniture.id = screen.furniture.id
          · rcases hanswer with ⟨-, hsame⟩ | ⟨d', -, hd', htask', hstatus', hset'⟩
            · exact ⟨d, hd, htask, hstatus, hsame.trans hset⟩
            · exact ⟨d', hd', htask'.trans hid.symm, hstatus', hset'⟩
          · have hsame := hkeeps screen hget screen' hmem hopen haccepted hsession hid
            exact ⟨d, hd, htask, hstatus, hsame.trans hset⟩
        · simp only [hsession, ite_false]
          exact ⟨d, hd, htask, hstatus, hset⟩
      · -- The screen itself shows an acceptance only if its query has found one.
        simp only [show screen.isOpen = true from hopen, ite_true, Option.some.injEq] at haccepted
        simp only [ite_true]
        rcases hanswer with ⟨hnone, -⟩ | ⟨d', -, hd', htask', hstatus', hset'⟩
        · have hzero : documents.countP (fun d => decide (d.data.status = .accepted)) = 0 :=
            List.countP_eq_zero.mpr (by simpa using hnone)
          rw [isAccepted_fst, hzero] at haccepted
          exact absurd haccepted (by decide)
        · exact ⟨d', hd', htask', hstatus', hset'⟩

/-! ## The outcome -/

/-- Behind every stored acceptance stands an offer of the user on the task. -/
theorem exists_chosen {w : World} (hw : Reachable app w) {n : Doc Notif}
    (hn : n ∈ w.store.notifs.docs) (hstatus : n.data.status = .accepted) :
    ∃ d : Doc Offer, Submitted w.log d.id d.data ∧ d.data.task = n.data.task ∧
      d.data.provider = n.data.user ∧ ∃ e ∈ w.log, e.call.tells .accepted d = true := by
  obtain ⟨e, he, hwrite, -⟩ := (provenance hw).notifs n hn
  obtain ⟨-, id, o, habout, hsub, hon, hby⟩ :=
    (provenance hw).verdict_call he hwrite (by simp [hstatus])
  refine ⟨⟨id, o⟩, hsub, hon, hby, e, he, ?_⟩
  simp only [Call.tells, Bool.and_eq_true, Call.onNotif_iff, habout, decide_true, true_and]
  exact ⟨n.data, hwrite, by simp [notified, hon, hby, hstatus]⟩

private theorem price_ne_noData {w : World} (hw : Reachable app w) {id : DocId} {o : Offer}
    (hsub : Submitted w.log id o) : o.price ≠ noData := by
  obtain ⟨e, he, hwrite, -⟩ := hsub
  have hproper := (provenance hw).log e he
  simp only [Call.Proper, hwrite] at hproper
  obtain ⟨-, -, -, hprice⟩ := hproper
  rintro heq
  rw [heq] at hprice
  exact absurd hprice (by decide)

/-- In every state of an undisturbed run, a task with an acceptance and no running Accept
handler has one offer left, the accepted one, and its screens fetch the accepted price. -/
theorem accepted_outcome {trace : List (World × Action)} {w : World}
    (run : Run app World.init trace w) (hC : Meets Undisturbed trace) {n : Doc Notif}
    (hn : n ∈ w.store.notifs.docs) (hstatus : n.data.status = .accepted)
    (hidle : ¬ AcceptRunning w n.data.task) : Outcome w n.data.task n.data.user := by
  have hw : Reachable app w := ⟨trace, run⟩
  -- The only offer left is the one behind any acceptance of the task.
  have honly : ∀ m ∈ w.store.notifs.docs, m.data.status = .accepted →
      m.data.task = n.data.task → ∃ d, w.store.offers.whereEqualTo Offer.task n.data.task = [d] ∧
        d.data.provider = m.data.user ∧ Submitted w.log d.id d.data ∧
        ∃ e ∈ w.log, e.call.tells .accepted d = true := by
    intro m hm hmstatus hmtask
    obtain ⟨d, hsub, htask, hby, htells⟩ := exists_chosen hw hm hmstatus
    obtain ⟨e, he, hc⟩ := htells
    have hchosen : Chosen w d := issued_pos.mpr (.inl ⟨e, he, hc⟩)
    obtain ⟨hlive, hothers⟩ := outlasts_of_chosen run hC hsub hchosen
    refine ⟨d, ?_, hby, hsub, e, he, hc⟩
    refine List.perm_singleton.mp ((List.perm_ext_iff_of_nodup
      (w.store.offers.nodup_whereEqualTo _ _) (List.nodup_singleton d)).mpr fun x => ?_)
    rw [Collection.mem_whereEqualTo, List.mem_singleton, ← hmtask, ← htask]
    constructor
    · rintro ⟨hx, hon⟩
      by_contra hne
      obtain ⟨uid, item, calls, hp, c, hmem, -⟩ := hothers x hx hon hne
      refine hidle ⟨_, hp, ?_⟩
      have hcalls : calls ≠ [] := List.ne_nil_of_mem hmem
      simp [Handler.accepting, htask, hmtask, hcalls]
    · rintro rfl
      exact ⟨hlive, rfl⟩
  obtain ⟨d, hleft, hby, hsub, htells⟩ := honly n hn hstatus rfl
  refine ⟨d, hleft, hby, htells, price_ne_noData hw hsub, ?_⟩
  intro screen hmem hopen haccepted hid documents hdocuments
  have hfit := run.invariant (I := ProvidersFit) hC (by simp [ProvidersFit, World.init])
    fun u a hu ha hCa => providersFit_step ha hCa.2.2 hu
  obtain ⟨m, hm, hmtask, hmstatus, hset⟩ := hfit screen hmem hopen haccepted
  obtain ⟨d', hleft', hby', -⟩ := honly m hm hmstatus (hmtask.trans hid)
  obtain rfl : d = d' := List.singleton_inj.mp (hleft.symm.trans hleft')
  rw [hleft] at hdocuments
  rw [List.perm_singleton.mp hdocuments, hset, fetchPrice, hby', if_pos rfl]

namespace Scenario

/-- The owner accepts and sees the details of the accepted offer. -/
def acceptedSeen : List Action :=
  oneAccept ++ [.isAccepted 2 [added 0, added 1, notif 2 3 .rejected, notif 3 2 .accepted]]

/-- A provider who opened the task before the acceptance offers after it. -/
def lateOffer : List Action :=
  posted ++ visit 2 0 [] ++ visit 3 1 [] ++ submit 0 1 [] sixty ++ [.write 1, .write 1] ++
    visit 0 2 [added 0] ++ [.offersEvent 2 [offer 0 2 sixty]] ++
    confirmAccept 2 2 (offer 0 2 sixty) ++
    [.process 2 (.offers [offer 0 2 sixty]), .write 2] ++
    submit 1 3 [offer 0 2 sixty] seventy ++ [.write 3, .write 3]

end Scenario

/-- After one acceptance the owner's screen fetches the price of the accepted offer. -/
theorem accepted_outcome_acceptedSeen :
    Outcome (app.final app.init Scenario.acceptedSeen) 0 2 :=
  accepted_outcome (n := Scenario.notif 3 2 .accepted)
    (app.run_steps _ Scenario.acceptedSeen (by decide +kernel)) (by decide +kernel)
    (by decide +kernel) rfl (by decide +kernel)

/-- An offer can be written after the acceptance and stays. -/
theorem accepted_outcome_fails_reachable :
    ¬ ∀ w, Reachable app w → ∀ n ∈ w.store.notifs.docs, n.data.status = .accepted →
      ¬ AcceptRunning w n.data.task → Outcome w n.data.task n.data.user := by
  intro h
  obtain ⟨d, hleft, -⟩ := h _ ⟨_, app.run_steps _ Scenario.lateOffer (by decide +kernel)⟩
    (Scenario.notif 1 2 .accepted) (by decide +kernel) rfl (by decide +kernel)
  have htwo : ((app.final app.init Scenario.lateOffer).store.offers.whereEqualTo
      Offer.task 0).length = 2 := by
    decide +kernel
  have hone := congrArg List.length hleft
  exact absurd (htwo.symm.trans hone) (by simp)

end Oun
