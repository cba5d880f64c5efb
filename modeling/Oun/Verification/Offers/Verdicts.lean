import Oun.Verification.Offers.Ledger

/-! # Verdicts on offers

What the Accept and Reject handlers issue about one offer. -/

namespace Oun

open Firestore Regex Transition

/-- An Accept handler has chosen the offer: its acceptance is stored or on its way. -/
def Chosen (w : World) (d : Doc Offer) : Prop :=
  0 < w.issued (Call.tells .accepted d)

instance (w : World) (d : Doc Offer) : Decidable (Chosen w d) := by
  unfold Chosen; infer_instance

/-! ## A delete and a rejection -/

private theorem countP_accept_pair {taskId : DocId} {item : Item} {documents : List (Doc Offer)}
    {d : Doc Offer} (h : ∀ x ∈ documents, x.data.task = taskId ∧ (x.id = d.id → x = d)) :
    (accept taskId item documents).countP (Call.deletes d.id) =
      (accept taskId item documents).countP (Call.tells .rejected d) := by
  induction documents with
  | nil => rfl
  | cons x documents ih =>
      rw [accept_cons, List.countP_append, List.countP_append,
        ih fun y hy => h y (List.mem_cons_of_mem _ hy)]
      obtain ⟨htask, hsame⟩ := h x List.mem_cons_self
      by_cases hchosen : x.id = item.offerId
      · simp [accept, hchosen, Call.deletes, Call.tells, Call.onNotif, notified]
      · by_cases hid : x.id = d.id
        · obtain rfl := hsame hid
          simp [accept, hchosen, Call.deletes, Call.tells, Call.onNotif, notified, htask]
        · simp [accept, hchosen, Call.deletes, Call.tells, Call.onNotif, notified, hid]

/-- A handler issues as many deletes of an offer as rejections to its provider. -/
theorem countP_issued_pair {w : World} (hw : Reachable app w) {uid : Uid} {handler : Handler}
    {input : Input} (hproper : handler.Proper w uid) (h : handler.Enabled w.store input)
    {d : Doc Offer} (hd : NoOther w.log d) :
    (handler.issued uid input).countP (Call.deletes d.id) =
      (handler.issued uid input).countP (Call.tells .rejected d) := by
  have hmoves := moves uid h
  generalize handler.next uid input = next at hmoves
  generalize handler.issued uid input = issued at hmoves
  cases hmoves with
  | accept taskId item documents hdocuments =>
      refine countP_accept_pair fun x hx => ?_
      obtain ⟨hlive, htask⟩ := (w.store.offers.mem_whereEqualTo _ _ x).mp
        (hdocuments.mem_iff.mp hx)
      exact ⟨htask, hd.eq hw hlive⟩
  | reject taskId item =>
      obtain ⟨o, hsub, rfl, hitem⟩ := hproper.2
      by_cases hid : item.offerId = d.id
      · obtain rfl := hd o (hid ▸ hsub)
        have hprov : item.prov = d.data.provider := by rw [hitem]; rfl
        simp [reject, Call.deletes, Call.tells, Call.onNotif, notified, hid, hprov]
      · simp [reject, Call.deletes, Call.tells, Call.onNotif, notified, hid]
  | _ => simp [addOffer, report, rate, Call.deletes, Call.tells, Call.onNotif, notified]

theorem countP_issues_pair {w : World} (hw : Reachable app w) {a : Action} (h : Enabled w a)
    {d : Doc Offer} (hd : NoOther w.log d) :
    (issues w a).countP (Call.deletes d.id) =
      (issues w a).countP (Call.tells .rejected d) := by
  have hissues := issues_inversion h
  generalize issues w a = calls at hissues
  cases hissues with
  | nothing => rfl
  | newTask => simp [sendNewTask, Call.deletes, Call.tells, Call.onNotif]
  | process input hget henabled =>
      exact countP_issued_pair hw
        ((provenance hw).processes _ (List.mem_of_getElem? hget)) henabled hd

/-- Deletes of an offer and rejections to its provider are issued in equal numbers. -/
theorem issued_deletes_eq_tells {w : World} (hw : Reachable app w) {d : Doc Offer}
    (hsub : Submitted w.log d.id d.data) :
    w.issued (Call.deletes d.id) = w.issued (Call.tells .rejected d) := by
  refine hw.invariant (I := fun w => NoOther w.log d →
    w.issued (Call.deletes d.id) = w.issued (Call.tells .rejected d)) ?_ ?_ (hsub.noOther hw)
  · intro _
    simp [World.issued, World.logged, World.pending, app, World.init]
  · intro u a hreach hu ha hd
    have hd' : NoOther u.log d := hd.before (extends_perform ha)
    show (perform u a).issued _ = (perform u a).issued _
    rw [issued_perform ha, issued_perform ha, hu hd', countP_issues_pair hreach ha hd']

/-! ## Choices -/

theorem chosen_perform {w : World} {a : Action} (h : Enabled w a) (d : Doc Offer) :
    Chosen (perform w a) d ↔ Chosen w d ∨ 0 < (issues w a).countP (Call.tells .accepted d) := by
  rw [Chosen, issued_perform h, Nat.add_pos_iff_pos_or_pos]
  rfl

/-- A choice is made by an Accept handler that has read the live offers on the task, the
chosen one among them. -/
theorem chooses_inversion {w : World} {a : Action} (h : Enabled w a) {d : Doc Offer}
    (hchooses : 0 < (issues w a).countP (Call.tells .accepted d)) :
    ∃ k uid item documents, a = .process k (.offers documents) ∧
      w.processes[k]? = some ⟨uid, .acceptGet d.data.task item⟩ ∧ item.offerId = d.id ∧
      documents.Perm (w.store.offers.whereEqualTo Offer.task d.data.task) ∧
      ∃ x ∈ documents, x.id = d.id := by
  obtain ⟨c, hc, htells⟩ := List.countP_pos_iff.mp hchooses
  simp only [Call.tells, Bool.and_eq_true, decide_eq_true_eq, Call.onNotif_iff, notified] at htells
  obtain ⟨habout, n, hwrite, ⟨htask, -⟩, hstatus⟩ := htells
  have hissues := issues_inversion h
  generalize issues w a = calls at hissues hc
  cases hissues with
  | nothing => simp at hc
  | newTask => simp [List.mem_singleton.mp hc] at hwrite
  | @process k uid handler input hget henabled =>
      have hmoves := moves uid henabled
      generalize handler.next uid input = next at hmoves
      generalize handler.issued uid input = issued at hmoves hc
      cases hmoves with
      | accept taskId item documents hdocuments =>
          obtain ⟨x, hx, ⟨-, rfl | rfl⟩ | ⟨hid, rfl⟩⟩ := mem_accept.mp hc
          · simp at hwrite
          · simp [← Write.addNotif.inj hwrite] at hstatus
          · obtain rfl : taskId = d.data.task := by rw [← htask, ← Write.addNotif.inj hwrite]
            have hitem : item.offerId = d.id := Option.some.inj habout
            exact ⟨k, uid, item, documents, rfl, hget, hitem, hdocuments, x, hx,
              hid.trans hitem⟩
      | offer | reject | rate =>
          simp only [addOffer, reject, rate, List.mem_cons, List.not_mem_nil, or_false] at hc
          rcases hc with rfl | rfl
          · simp at hwrite
          · first | simp [← Write.addNotif.inj hwrite] at hstatus | simp at hwrite
      | report => simp [List.mem_singleton.mp hc] at hwrite
      | _ => simp at hc

/-- An offer is live when an Accept handler chooses it. -/
theorem mem_offers_of_chooses {w : World} (hw : Reachable app w) {a : Action} (h : Enabled w a)
    {d : Doc Offer} (hd : NoOther w.log d)
    (hchooses : 0 < (issues w a).countP (Call.tells .accepted d)) : d ∈ w.store.offers.docs := by
  obtain ⟨-, -, -, documents, -, -, -, hdocuments, x, hx, hid⟩ := chooses_inversion h hchooses
  have hlive := ((w.store.offers.mem_whereEqualTo _ _ x).mp (hdocuments.mem_iff.mp hx)).1
  exact hd.eq hw hlive hid ▸ hlive

end Oun
