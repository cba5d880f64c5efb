import Oun.Verification.Market.Moves

/-! # The app is a market

As long as every handler still finds what its screen has asked before, the interleaved
handlers of all sessions play the market: an Accept handler awards its task and refuses all
other bids in the step in which it reads the offers, however late its writes land. -/

namespace Oun

open Firestore Market Regex Transition

abbrev TaskDeed := Deed DocId Uid Text Stars

noncomputable abbrev taskMarket := market DocId Uid Text Stars

/-! ## The deeds of the steps -/

def Write.deed (s : Store) : Write → Option TaskDeed
  | .addTask task => some (.post s.tasks.next task.author)
  | .addOffer o => some (.on o.task (.bid o.provider o.price))
  | _ => none

def Handler.deed (uid : Uid) : Handler → Input → Option TaskDeed
  | .acceptGet taskId item, .offers documents =>
      if documents = [] then none else some (.on taskId (.award item.prov))
  | .rejectDialog taskId item, .ok => some (.on taskId (.refuse item.prov))
  | .reportDialog furniture, .submit _ => some (.on furniture.id (.report uid))
  | .ratingDialog _ furniture _, .rate provider rating =>
      some (.on furniture.id (.rate provider rating))
  | _, _ => none

def deed (w : World) : Action → Option TaskDeed
  | .write k => (lands w (.write k)).bind fun c => c.write.deed w.store
  | .process k input => w.processes[k]?.bind fun p => p.handler.deed p.uid input
  | _ => none

/-- An offer lands on an unsettled task on which its provider has none. -/
def Write.Permitted (w : World) : Write → Prop
  | .addOffer o => ¬ Settled w o.task ∧ ∀ d ∈ w.store.offers.docs, Standing w d →
      d.data.task = o.task → d.data.provider ≠ o.provider
  | _ => True

/-- Verdicts are given on unsettled tasks and about standing offers, and reports and ratings
are the first. -/
def Handler.Permitted (w : World) (uid : Uid) : Handler → Input → Prop
  | .acceptGet taskId item, .offers documents => documents = [] ∨ ¬ Settled w taskId ∧
      item.offerId ∈ documents.map Doc.id ∧ ∀ d ∈ documents, Standing w d
  | .rejectDialog taskId item, .ok =>
      ¬ Settled w taskId ∧ ∃ d ∈ w.store.offers.docs, d.id = item.offerId ∧ Standing w d
  | .reportDialog furniture, .submit _ => ¬ Reported w furniture.id uid
  | .ratingDialog _ furniture _, .rate provider _ =>
      ¬ Rated w furniture.id ∧ 0 < w.issued (Call.awards furniture.id provider)
  | _, _ => True

def Permitted (w : World) : Action → Prop
  | .write k => ∀ c ∈ lands w (.write k), c.write.Permitted w
  | .process k input => ∀ p ∈ w.processes[k]?, p.handler.Permitted w p.uid input
  | _ => True

instance (w : World) (write : Write) : Decidable (write.Permitted w) := by
  apply Write.casesOn (motive := fun x => Decidable (x.Permitted w)) write <;> intros <;>
    unfold Write.Permitted <;> infer_instance

instance (w : World) (uid : Uid) (handler : Handler) (input : Input) :
    Decidable (handler.Permitted w uid input) := by
  apply Handler.casesOn (motive := fun h => Decidable (h.Permitted w uid input)) handler <;>
    intros <;> apply Input.casesOn (motive := fun i => Decidable (Handler.Permitted w uid _ i))
      input <;> intros <;> unfold Handler.Permitted <;> infer_instance

instance (w : World) (a : Action) : Decidable (Permitted w a) := by
  apply Action.casesOn (motive := fun a => Decidable (Permitted w a)) a <;> intros <;>
    unfold Permitted <;> infer_instance

/-! ## Tasks and lots -/

theorem hasTask_perform {w : World} {a : Action} (h : Enabled w a) (t : DocId) (author : Uid) :
    HasTask (perform w a).store t author ↔ HasTask w.store t author ∨
      ∃ c ∈ lands w a, ∃ task, c.write = .addTask task ∧ t = w.store.tasks.next ∧
        task.author = author := by
  cases hlands : lands w a with
  | none => simp [HasTask, (perform_of_not_lands h hlands).1.tasks]
  | some c =>
      rw [(perform_of_lands h hlands).1]
      cases hwrite : c.write with
      | addTask task =>
          simp [HasTask, hwrite, Write.apply, or_and_right, exists_or, eq_comm]
      | _ => simp [HasTask, hwrite, Write.apply]

variable {w : World} {m : DocId → Option (TaskLot)}

/-- The task of a deed has a lot. -/
theorem Represents.lot (hrep : Represents w m) {t : DocId} {author : Uid}
    (htask : HasTask w.store t author) :
    ∃ lot, m t = some lot ∧ Shown w t lot ∧ lot.author = author := by
  cases hlot : m t with
  | none => exact absurd htask (hrep.unposted t hlot author)
  | some lot =>
      have hshown := hrep.posted t lot hlot
      exact ⟨lot, rfl, hshown, hshown.author.unique htask⟩

/-- A step that plays no deed keeps the representation. -/
theorem Represents.keep (hw : Reachable app w) {a : Action} (h : Enabled w a)
    (hrep : Represents w m) (hissues : ∀ c ∈ issues w a, ∀ t, ¬ c.Concerns w t)
    (hlands : ∀ c ∈ lands w a, (∀ o, c.write ≠ .addOffer o) ∧ ∀ task, c.write ≠ .addTask task) :
    Represents (perform w a) m where
  unposted t ht author htask := by
    rcases (hasTask_perform h t author).mp htask with htask | ⟨c, hc, task, hwrite, -⟩
    · exact hrep.unposted t ht author htask
    · exact (hlands c hc).2 task hwrite
  posted t lot hlot := (hrep.posted t lot hlot).keep hw h (fun c hc => hissues c hc t)
    fun c hc o hwrite => absurd hwrite ((hlands c hc).1 o)
  single := singleBids_perform hw h hrep.single fun c hc o hwrite =>
    absurd hwrite ((hlands c hc).1 o)

/-- A step that plays on one task keeps what is said of the others. -/
theorem Represents.on (hw : Reachable app w) {a : Action} (h : Enabled w a)
    (hrep : Represents w m) {t : DocId} {lot : TaskLot} {move : Market.Move Uid Text Stars}
    (hlot : m t = some lot) (hissues : ∀ c ∈ issues w a, ∀ s, c.Concerns w s → s = t)
    (hlands : ∀ c ∈ lands w a, ∀ task, c.write ≠ .addTask task)
    (hbids : ∀ c ∈ lands w a, ∀ o, c.write = .addOffer o → o.task = t ∧
      ∀ d, Standing w d → d.data.task = o.task → d.data.provider ≠ o.provider)
    (hshown : Shown (perform w a) t (lot.play move)) :
    Represents (perform w a) (taskMarket.perform m (.on t move)) where
  unposted s hs author htask := by
    rcases (hasTask_perform h s author).mp htask with htask | ⟨c, hc, task, hwrite, -⟩
    · by_cases hst : s = t
      · subst hst
        exact absurd ((market_on_self hlot move).symm.trans hs) (by simp)
      · exact hrep.unposted s ((market_on_of_ne move hst).symm.trans hs) author htask
    · exact hlands c hc task hwrite
  posted s played hs := by
    by_cases hst : s = t
    · subst hst
      obtain rfl := Option.some.inj ((market_on_self hlot move).symm.trans hs)
      exact hshown
    · have hold := (market_on_of_ne move hst).symm.trans hs
      exact (hrep.posted s played hold).keep hw h (fun c hc hs => hst (hissues c hc s hs))
        fun c hc o hwrite hos => hst (hos.symm.trans (hbids c hc o hwrite).1)
  single := singleBids_perform hw h hrep.single fun c hc o hwrite => (hbids c hc o hwrite).2

/-! ## One step -/

/-- The step plays its deed, or none. -/
def Matched (w : World) (m : DocId → Option TaskLot) (a : Action) : Option TaskDeed → Prop
  | none => Represents (perform w a) m
  | some d => taskMarket.Enabled m d ∧ Represents (perform w a) (taskMarket.perform m d)

theorem Shown.not_settled_bid (hw : Reachable app w) {t : DocId} {lot : TaskLot}
    (hs : Shown w t lot) (hopen : ¬ Settled w t) {d : Doc Offer} (hd : Standing w d)
    (ht : d.data.task = t) : lot.winner = none ∧ (lot.bids d.data.provider).isSome = true :=
  ⟨hs.winner_none hw hopen, (hs.isSome_iff _).mpr ⟨d, hd, ht, rfl⟩⟩

theorem Shown.mem_reporters (hw : Reachable app w) {t : DocId} {lot : TaskLot}
    (hs : Shown w t lot) (uid : Uid) : uid ∈ lot.reporters ↔ Reported w t uid := by
  rw [hs.reporters, reported_iff_taken w (t, uid), violations_grow.taken_iff hw]
  rfl

theorem Shown.rating_none (hw : Reachable app w) {t : DocId} {lot : TaskLot}
    (hs : Shown w t lot) (hunrated : ¬ Rated w t) : lot.rating = none := by
  refine Option.eq_none_iff_forall_ne_some.mpr fun r hr => hunrated ?_
  have hadds : ∀ c : Call, c.grades t r.1 r.2 = true →
      c.adds Write.rate? (hasKey Rate.task t) = true := by
    intro c hc
    obtain ⟨x, hx, hkey⟩ := Call.adds_iff.mp hc
    obtain rfl : x = ⟨r.2, t, r.1⟩ := of_decide_eq_true hkey
    exact Call.adds_iff.mpr ⟨_, hx, by simp [hasKey]⟩
  rw [rated_iff_taken, rate_grows.taken_iff hw, issued_pos]
  rcases issued_pos.mp ((hs.rating r.1 r.2).mp hr) with ⟨e, he, hc⟩ | ⟨q, hq, c, hmem, hc⟩
  · exact .inl ⟨e, he, hadds _ hc⟩
  · exact .inr ⟨q, hq, c, hmem, hadds _ hc⟩

theorem write_matched (hw : Reachable app w) (hrep : Represents w m) {k : ℕ}
    (h : Enabled w (.write k)) {c : Call} (hc : c ∈ lands w (.write k))
    (hpermitted : c.write.Permitted w) : Matched w m (.write k) (c.write.deed w.store) := by
  have hissues : issues w (.write k) = [] := rfl
  have hlands : ∀ x, x ∈ lands w (.write k) → x = c := fun x hx => Option.mem_unique hx hc
  cases hwrite : c.write with
  | addTask task =>
      have hnone := not_hasTask_next w
      have hnew : m w.store.tasks.next = none := by
        cases hm : m w.store.tasks.next with
        | none => rfl
        | some lot => exact absurd (hrep.posted _ lot hm).author (hnone _)
      have hother : ∀ x ∈ lands w (.write k), ∀ o, x.write ≠ .addOffer o := by
        intro x hx o
        simp [hlands x hx, hwrite]
      refine ⟨hnew, fun t ht author htask => ?_, fun t lot hlot => ?_, ?_⟩
      · have hne : t ≠ w.store.tasks.next := by
          rintro rfl
          exact absurd ((market_post_self task.author).symm.trans ht) (by simp)
        rcases (hasTask_perform h t author).mp htask with htask | ⟨-, -, -, -, heq, -⟩
        · exact hrep.unposted t ((market_post_of_ne task.author hne).symm.trans ht) author htask
        · exact hne heq
      · by_cases ht : t = w.store.tasks.next
        · subst ht
          obtain rfl := Option.some.inj ((market_post_self task.author).symm.trans hlot)
          exact Shown.posted hw h hc hwrite
        · exact (hrep.posted t lot ((market_post_of_ne task.author ht).symm.trans hlot)).keep hw h
            (by simp [hissues]) fun x hx o ho => absurd ho (hother x hx o)
      · exact singleBids_perform hw h hrep.single fun x hx o ho => absurd ho (hother x hx o)
  | addOffer o =>
      rw [hwrite] at hpermitted
      obtain ⟨hopen, hfree⟩ := hpermitted
      obtain ⟨uid, hproper⟩ := lands_proper hw hc
      simp only [Call.Proper, hwrite] at hproper
      obtain ⟨htask, rfl, hne, -⟩ := hproper
      obtain ⟨lot, hlot, hs, hauthor⟩ := hrep.lot htask
      have hnone : lot.bids o.provider = none := by
        refine Option.not_isSome_iff_eq_none.mp fun hsome => ?_
        obtain ⟨d, hd, hon, hby⟩ := (hs.isSome_iff _).mp hsome
        exact hfree d hd.1 hd hon hby
      refine ⟨⟨lot, hlot, hs.winner_none hw hopen, hnone, hauthor ▸ hne⟩, ?_⟩
      refine hrep.on hw h hlot (by simp [hissues]) (fun x hx task => ?_) (fun x hx o' ho' => ?_)
        (hs.bid hw h hc hwrite rfl hnone)
      · simp [hlands x hx, hwrite]
      · rw [hlands x hx, hwrite] at ho'
        obtain rfl := Write.addOffer.inj ho'
        exact ⟨rfl, fun d hd => hfree d hd.1 hd⟩
  | _ =>
      refine hrep.keep hw h (by simp [hissues]) fun x hx => ?_
      simp [hlands x hx, hwrite]

theorem process_matched (hw : Reachable app w) (hrep : Represents w m) {k : ℕ} {uid : Uid}
    {handler : Handler} {input : Input} (h : Enabled w (.process k input))
    (hget : w.processes[k]? = some ⟨uid, handler⟩) (henabled : handler.Enabled w.store input)
    (hpermitted : handler.Permitted w uid input) :
    Matched w m (.process k input) (handler.deed uid input) := by
  have hproper := (provenance hw).processes _ (List.mem_of_getElem? hget)
  have hlands : lands w (.process k input) = none := rfl
  have hissues : issues w (.process k input) = handler.issued uid input := by simp [issues, hget]
  have hmoves := moves uid henabled
  generalize handler.next uid input = next at hmoves
  generalize handler.issued uid input = issued at hmoves hissues
  have hsilent : issued = [] → Represents (perform w (.process k input)) m := fun hnil =>
    hrep.keep hw h (by simp [hissues, hnil]) (by simp [hlands])
  have hon : ∀ {t lot move}, m t = some lot → lot.Allows move →
      (∀ c ∈ issued, ∀ s, c.Concerns w s → s = t) →
      Shown (perform w (.process k input)) t (lot.play move) →
      Matched w m (.process k input) (some (.on t move)) :=
    fun hlot hallows hconcerns hshown => ⟨⟨_, hlot, hallows⟩, hrep.on hw h hlot
      (hissues ▸ hconcerns) (by simp [hlands]) (by simp [hlands]) hshown⟩
  cases hmoves with
  | offer furniture price =>
      refine hrep.keep hw h (fun c hc t => ?_) (by simp [hlands])
      simp only [hissues, addOffer, List.mem_cons, List.not_mem_nil, or_false] at hc
      rcases hc with rfl | rfl <;> simp [Call.Concerns]
  | accept taskId item documents hdocuments =>
      obtain ⟨htask, o, hsub, hot, hitem⟩ := hproper
      rcases hpermitted with rfl | ⟨hopen, hmem, hstanding⟩
      · exact hsilent rfl
      obtain ⟨⟨id, data⟩, hd, rfl⟩ := List.mem_map.mp hmem
      obtain rfl : data = o := ((hstanding _ hd).submitted hw).unique hw hsub
      obtain ⟨lot, hlot, hs, -⟩ := hrep.lot htask
      have hallows := hs.not_settled_bid hw hopen (hstanding _ hd) hot
      have hne : documents ≠ [] := List.ne_nil_of_mem hd
      simp only [Handler.deed, hne, ite_false]
      refine hon hlot ⟨hallows.1, by rw [hitem]; exact hallows.2⟩
        (fun c hc s => accept_concerns hw hdocuments hc) ?_
      exact hs.award hw h hlands hrep.single hallows.1 hdocuments hstanding hd hitem hissues
  | reject taskId item =>
      obtain ⟨htask, o, hsub, hot, hitem⟩ := hproper
      obtain ⟨hopen, ⟨id, data⟩, -, rfl, hd⟩ := hpermitted
      obtain rfl : data = o := (hd.submitted hw).unique hw hsub
      obtain ⟨lot, hlot, hs, -⟩ := hrep.lot htask
      have hallows := hs.not_settled_bid hw hopen hd hot
      refine hon hlot ⟨hallows.1, by rw [hitem]; exact hallows.2⟩ (fun c hc s hcs => ?_)
        (hs.refuse hw h hlands hrep.single hd hot hitem hissues)
      simp only [reject, List.mem_cons, List.not_mem_nil, or_false] at hc
      rcases hc with rfl | rfl
      · obtain ⟨o, hsub', rfl⟩ := hcs
        rw [← hot, hsub'.unique hw hsub]
      · exact hcs.1.symm
  | report furniture reason =>
      obtain ⟨lot, hlot, hs, hauthor⟩ := hrep.lot hproper.1
      refine hon hlot ⟨fun hmem => hpermitted ((hs.mem_reporters hw uid).mp hmem), ?_⟩
        (fun c hc s hcs => ?_) (hs.report hw h hlands rfl hissues)
      · rw [hauthor]
        exact hproper.2
      · rw [List.mem_singleton.mp hc] at hcs
        exact hcs.symm
  | rate session furniture snapshot provider rating =>
      have htask := ((rightful hw).processes _ (List.mem_of_getElem? hget)).1
      obtain ⟨lot, hlot, hs, -⟩ := hrep.lot htask
      have hunrated := hs.rating_none hw hpermitted.1
      refine hon hlot ⟨(hs.winner provider).mpr hpermitted.2, hunrated⟩ (fun c hc s hcs => ?_)
        (hs.rate hw h hlands hunrated rfl hissues)
      simp only [rate, List.mem_cons, List.not_mem_nil, or_false] at hc
      rcases hc with rfl | rfl
      · exact hcs.symm
      · exact hcs.elim
  | dismiss => cases handler <;> exact hsilent rfl
  | _ => exact hsilent rfl

theorem matched (hw : Reachable app w) (hrep : Represents w m) {a : Action} (h : Enabled w a)
    (hpermitted : Permitted w a) : Matched w m a (deed w a) := by
  cases a with
  | write k =>
      obtain ⟨⟨uid, handler⟩, hget, hcalls⟩ := (w.onProcess_iff k _).mp h
      obtain ⟨c, calls, heq⟩ := List.exists_cons_of_ne_nil hcalls
      have hc : lands w (.write k) = some c := by simp [lands, hget, heq]
      have hdeed : deed w (.write k) = c.write.deed w.store := by simp [deed, hc]
      rw [hdeed]
      exact write_matched hw hrep h hc (hpermitted c hc)
  | process k input =>
      obtain ⟨⟨uid, handler⟩, hget, henabled, -⟩ := (w.onProcess_iff k _).mp h
      have hdeed : deed w (.process k input) = handler.deed uid input := by simp [deed, hget]
      rw [hdeed]
      exact process_matched hw hrep h hget henabled (hpermitted _ hget)
  | _ =>
      refine hrep.keep hw h (fun c hc t hcs => ?_) (by simp [lands])
      have hissues := issues_inversion h
      generalize issues w _ = calls at hissues hc
      cases hissues with
      | nothing => simp at hc
      | newTask =>
          rw [List.mem_singleton.mp hc] at hcs
          exact hcs

/-! ## Whole runs -/

theorem app_simulates : Simulates app taskMarket Permitted deed Represents where
  init := by
    refine ⟨fun t _ author htask => ?_, fun t lot hlot => ?_, fun d d' hd => ?_⟩
    · simp [app, World.init, Store.empty, HasTask] at htask
    · simp [market] at hlot
    · simp [app, World.init, Store.empty, Standing] at hd
  stutter {s a m} hs hrep h hpermitted hdeed := by
    have hmatched := matched hs hrep h hpermitted
    rwa [hdeed] at hmatched
  step {s a m b} hs hrep h hpermitted hdeed := by
    have hmatched := matched hs hrep h hpermitted
    rwa [hdeed] at hmatched

namespace Scenario

/-- A provider reports the task while the writes of the Accept handler are on their way. -/
def reportedMeanwhile : List Action :=
  offered ++ owner 0 2 ++ confirmAccept 2 3 (offer 0 2 sixty) ++
    [.process 3 (.offers [offer 1 3 seventy, offer 0 2 sixty]), .write 3, .pressReport 1,
      .process 4 (.violations []), .write 3, .process 4 (.submit .spam), .write 4, .write 3]

end Scenario

end Oun
