import Mathlib.Tactic.TFAE
import Oun.Verification.Market.Visits

/-! # The app plays the whole market

What the market allows, the app can do: from rest, every deed is the one deed of a permitted
run that comes to rest again. -/

namespace Oun

open Firestore Market Regex Transition

/-- The market of the tasks in the order of their posts, at the prices that the dialog takes. -/
noncomputable abbrev numberedMarket :=
  numbered Uid Stars fun price : Text => priceValidator price = none

/-! ## Numbers and prices -/

/-- The ids of the tasks are the numbers below the next one. -/
theorem hasTask_iff {w : World} (hw : Reachable app w) (t : DocId) :
    (∃ author, HasTask w.store t author) ↔ t < w.store.tasks.next := by
  constructor
  · rintro ⟨author, d, hd, rfl, -⟩
    exact w.store.tasks.fresh d hd
  · refine hw.invariant (I := fun w => t < w.store.tasks.next → ∃ author, HasTask w.store t author)
      (fun h => absurd h (Nat.not_lt_zero t)) fun u a _ hu ha hlt => ?_
    have ha : Enabled u a := ha
    have hlt : t < (perform u a).store.tasks.next := hlt
    have hkeep : t < u.store.tasks.next → ∃ author, HasTask (perform u a).store t author :=
      fun h => (hu h).imp fun author htask => htask.mono (extends_perform ha)
    cases hlands : lands u a with
    | none => exact hkeep ((perform_of_not_lands ha hlands).1.tasks ▸ hlt)
    | some c =>
        rw [(perform_of_lands ha hlands).1] at hlt
        cases hwrite : c.write with
        | addTask task =>
            rw [hwrite] at hlt
            rcases Nat.lt_succ_iff_lt_or_eq.mp hlt with hlt | rfl
            · exact hkeep hlt
            · exact ⟨task.author, (hasTask_perform ha _ _).mpr
                (.inr ⟨c, hlands, task, hwrite, rfl, rfl⟩)⟩
        | _ =>
            rw [hwrite] at hlt
            exact hkeep hlt

variable {w w' : World} {m : DocId → Option TaskLot}

theorem Represents.isSome_iff (hw : Reachable app w) (hrep : Represents w m) (t : DocId) :
    (m t).isSome = true ↔ t < w.store.tasks.next := by
  rw [← hasTask_iff hw]
  cases hlot : m t with
  | none => simp [hrep.unposted t hlot]
  | some lot => exact ⟨fun _ => ⟨_, (hrep.posted t lot hlot).author⟩, fun _ => rfl⟩

theorem app_numbered : Simulates app numberedMarket Permitted deed Represents where
  init := app_simulates.init
  stutter := app_simulates.stutter
  step {w a m b} hw hrep h hC hlabel := by
    obtain ⟨henabled, hnext⟩ := app_simulates.step hw hrep h hC hlabel
    refine ⟨⟨henabled, ?_⟩, hnext⟩
    cases a with
    | write k =>
        obtain ⟨c, hc, hdeed⟩ := Option.bind_eq_some_iff.mp hlabel
        cases hwrite : c.write with
        | addTask task =>
            rw [hwrite] at hdeed
            obtain rfl := Option.some.inj hdeed
            exact fun s hs => (hrep.isSome_iff hw s).mpr hs
        | addOffer o =>
            obtain ⟨uid, hproper⟩ := lands_proper hw hc
            simp only [Call.Proper, hwrite] at hproper
            rw [hwrite] at hdeed
            obtain rfl := Option.some.inj hdeed
            exact hproper.2.2.2
        | _ => simp [hwrite, Write.deed] at hdeed
    | process k input =>
        obtain ⟨⟨uid, handler⟩, -, hdeed⟩ := Option.bind_eq_some_iff.mp hlabel
        cases handler <;> cases input <;> simp only [Handler.deed, reduceCtorEq] at hdeed
        case acceptGet.offers =>
          split at hdeed
          · cases hdeed
          · obtain rfl := Option.some.inj hdeed
            trivial
        all_goals
          obtain rfl := Option.some.inj hdeed
          trivial
    | _ => simp [deed] at hlabel

/-! ## One deed -/

variable {a : Action} {k : ℕ} {uid : Uid} {handler : Handler} {b : TaskDeed}

theorem Undone.plays (henabled : Enabled w a) (hpermitted : Permitted w a)
    (hregisters : Registers w a) (hdeed : deed w a = some b) (h : Undone (perform w a)) :
    Plays w b := by
  obtain ⟨w', hleads, hquiet⟩ := h.leads
  have hplayed := (Leads.step henabled hpermitted hregisters).trans hleads
  rw [hdeed] at hplayed
  exact ⟨w', hplayed, hquiet⟩

/-- A verdict, a report or a rating is played when it is issued. -/
theorem Rest.issue (h : Rest w m) (hget : w.processes[k]? = some ⟨uid, handler⟩) (input : Input)
    (henabled : handler.Enabled w.store input) (hreads : w.Reads handler input)
    (hpermitted : handler.Permitted w uid input) (hdeed : handler.deed uid input = some b)
    (hissued : ∀ c ∈ handler.issued uid input, ∀ s, c.write.deed s = none) : Plays w b := by
  have hprocess := enabled_process hget henabled hreads
  refine Undone.plays hprocess (permitted_process hget hpermitted) trivial
    (by simp [deed, hget, hdeed]) fun x hx s => ?_
  rw [outstanding_of_not_lands hprocess rfl, h.quiet.outstanding, Multiset.zero_add] at hx
  simp only [issues, hget, Option.map_some, Option.getD_some, Multiset.mem_coe,
    List.mem_map] at hx
  obtain ⟨c, hc, rfl⟩ := hx
  exact hissued c hc s

/-- A post or a bid is played when it lands. -/
theorem Rest.land (h : Rest w m) (henabled : Enabled w a) (hpermitted : Permitted w a)
    (hregisters : Registers w a) (hdeed : deed w a = none) (hlands : lands w a = none) {job : Job}
    {c : Call} {calls : List Call}
    (hget : (perform w a).processes[k]? = some ⟨uid, .writing job (c :: calls)⟩)
    (hissues : issues w a = c :: calls) (hpermitted' : c.write.Permitted (perform w a))
    (hdeed' : c.write.deed (perform w a).store = some b)
    (hcalls : ∀ x ∈ calls, ∀ s, x.write.deed s = none) : Plays w b := by
  have hleads := Leads.step henabled hpermitted hregisters
  rw [hdeed] at hleads
  refine hleads.plays ?_
  have hwrite : Enabled (perform w a) (.write k) :=
    ((perform w a).onProcess_iff k _).mpr ⟨_, hget, by simp [Handler.calls]⟩
  obtain ⟨c', hc', heq⟩ := outstanding_perform hwrite
  have hc : lands (perform w a) (.write k) = some c := by simp [lands, hget, Handler.calls]
  obtain rfl := Option.some.inj (hc.symm.trans hc')
  rw [outstanding_of_not_lands henabled hlands, h.quiet.outstanding, Multiset.zero_add, hissues,
    List.map_cons, ← Multiset.cons_coe, Multiset.cons_inj_right] at heq
  refine Undone.plays hwrite (fun x hx => ?_) trivial (by simp [deed, hc, hdeed']) fun x hx s => ?_
  · obtain rfl := Option.some.inj (hc.symm.trans hx)
    exact hpermitted'
  · rw [← heq, Multiset.mem_coe, List.mem_map] at hx
    obtain ⟨x, hx, rfl⟩ := hx
    exact hcalls x hx s

/-! ## Posts and bids -/

/-- Ten spaces are title and description enough. -/
def blank : Text := List.replicate 10 32

theorem Rest.post (h : Rest w m) (author : Uid) :
    Plays w (.post w.store.tasks.next author) := by
  obtain ⟨w₁, session, hvisit, huser⟩ := h.signIn author
  have hperform : perform w₁ (.sendNewTask session blank blank .riyadh .food) =
      w₁.spawn author (.writing .newTask (sendNewTask author blank blank .riyadh .food)) := by
    simp only [perform, huser]
  have henabled : Enabled w₁ (.sendNewTask session blank blank .riyadh .food) :=
    ⟨by simp [huser], by decide, by decide⟩
  have hissues : issues w₁ (.sendNewTask session blank blank .riyadh .food) =
      sendNewTask author blank blank .riyadh .food := by
    simp [issues, spawned, huser, Handler.calls]
  have hget : (perform w₁ (.sendNewTask session blank blank .riyadh .food)).processes[
      w₁.processes.length]? =
        some ⟨author, .writing .newTask (sendNewTask author blank blank .riyadh .food)⟩ := by
    simp [hperform, World.spawn]
  refine hvisit.plays
    (hvisit.rest.land henabled trivial trivial rfl rfl hget hissues trivial ?_ (by simp))
  rw [hperform, ← hvisit.store]
  rfl

theorem Rest.author (h : Rest w m) {d : Doc Task} (hd : d ∈ w.store.tasks.docs) {lot : TaskLot}
    (hlot : m d.id = some lot) : d.data.author = lot.author :=
  HasTask.unique ⟨d, hd, rfl, rfl⟩ (h.represents.posted d.id lot hlot).author

theorem Shown.not_settled (hw : Reachable app w) {t : DocId} {lot : TaskLot} (hs : Shown w t lot)
    (hopen : lot.winner = none) : ¬ Settled w t := by
  have hawards : ∀ c : Call, c.onNotif (acceptedOn t) = true → ∃ p, c.awards t p = true := by
    intro c hc
    obtain ⟨n, hwrite, hn⟩ := Call.onNotif_iff.mp hc
    exact ⟨n.user, Call.onNotif_iff.mpr ⟨n, hwrite, by simp_all [acceptedOn, notified]⟩⟩
  rw [settled_iff hw]
  intro hpos
  obtain ⟨p, hp⟩ := exists_issued_pos hawards hpos
  simp [(hs.winner p).mpr hp] at hopen

variable {d : Doc Task} {lot : TaskLot}

/-- Who may bid gets to the offer dialog. -/
theorem Rest.offerDialog (h : Rest w m) (hd : d ∈ w.store.tasks.docs) (hlot : m d.id = some lot)
    {p : Uid} (hopen : lot.winner = none) (hnone : lot.bids p = none) (hne : p ≠ lot.author) :
    ∃ (w' : World) (k : ℕ),
      Visits w w' m ∧ w'.processes[k]? = some ⟨p, .offerDialog (.ofDoc d)⟩ := by
  have hauthor := h.author hd hlot
  obtain ⟨w₁, i, screen, hvisit, hscreen⟩ := h.visiting hd hlot p
  have hperform : perform w₁ (.pressOffer i) = w₁.spawn p (.hasOffered (.ofDoc d)) := by
    simp only [perform, World.withScreen_of_get _ hscreen.get, hscreen.uid, hscreen.furniture]
  have henabled : Enabled w₁ (.pressOffer i) := by
    refine (w₁.onScreen_iff i _).mpr ⟨screen, hscreen.get, hscreen.isOpen, ?_, ?_⟩
    · rw [hscreen.uid, hscreen.furniture]
      exact fun heq => hne (heq.trans hauthor)
    · rw [hscreen.accepted, hopen]
      rfl
  obtain ⟨w₂, k, hpressed, -, hget⟩ := hvisit.rest.press henabled trivial trivial rfl rfl
    (by rw [hperform]; rfl) (by rw [hperform]; rfl)
  obtain ⟨w₃, hasked, hget⟩ := hpressed.rest.input hget
    (.offers (w₂.store.offers.whereEqualTo Offer.task d.id)) (.refl _) trivial trivial rfl rfl
  have hfree := (hpressed.rest.answers hlot).offered _ p (.refl _)
  rw [hnone] at hfree
  refine ⟨w₃, k, (hvisit.trans hpressed).trans hasked, hget.trans ?_⟩
  simp [Handler.next, hfree]

theorem Rest.bid (h : Rest w m) (hd : d ∈ w.store.tasks.docs) (hlot : m d.id = some lot) {p : Uid}
    {price : Text} (hallows : lot.Allows (.bid p price)) (hprice : priceValidator price = none) :
    Plays w (.on d.id (.bid p price)) := by
  obtain ⟨hopen, hnone, hne⟩ := hallows
  obtain ⟨w₁, k, hvisit, hget⟩ := h.offerDialog hd hlot hopen hnone hne
  refine hvisit.plays ?_
  have hadd : Enabled w₁ (.process k (.add price)) := enabled_process hget hprice trivial
  have hpermitted : Permitted w₁ (.process k (.add price)) := permitted_process hget trivial
  have hdeed : deed w₁ (.process k (.add price)) = none := by simp [deed, hget, Handler.deed]
  have hissues : issues w₁ (.process k (.add price)) = addOffer (.ofDoc d) p price := by
    simp [issues, hget, Handler.issued]
  obtain ⟨hw, hrep⟩ := hvisit.rest.next hadd hpermitted hdeed
  have hs := hrep.posted d.id lot hlot
  refine hvisit.rest.land hadd hpermitted trivial hdeed rfl
    (processes_process hget (.add price)) hissues
    ⟨hs.not_settled hw hopen, fun x hx hstanding htask hby => ?_⟩ rfl (by simp [Write.deed])
  have hsome := (hs.isSome_iff p).mpr ⟨x, hstanding, htask, hby⟩
  simp [hnone] at hsome

/-! ## Verdicts -/

/-- The author has the offer on the screen of the task. -/
structure Showing (w : World) (i : ℕ) (d : Doc Task) (o : Doc Offer) (screen : Screen) : Prop where
  get : w.screens[i]? = some screen
  furniture : screen.furniture = .ofDoc d
  shows : screen.showsOffer w.store.users o
  live : o ∈ w.store.offers.docs
  task : o.data.task = d.id

theorem Rest.showing (h : Rest w m) (hd : d ∈ w.store.tasks.docs) (hlot : m d.id = some lot)
    (hopen : lot.winner = none) {p : Uid} (hbid : (lot.bids p).isSome = true) :
    ∃ w' i screen o, Leads w [] w' ∧ Rest w' m ∧ Showing w' i d o screen ∧ o.data.provider = p := by
  have hacts : w.Acts p := by
    obtain ⟨o, ho, -, rfl⟩ := ((h.represents.posted d.id lot hlot).isSome_iff p).mp hbid
    exact acts_of_submitted h.reachable (ho.submitted h.reachable)
  obtain ⟨w₁, hleads, hrest, htasks, hp⟩ := h.signUp hacts
  obtain ⟨w₂, i, screen, hvisit, hscreen⟩ := hrest.visiting (htasks ▸ hd) hlot d.data.author
  set documents := w₂.store.offers.whereEqualTo Offer.task d.id with hdocuments
  have hshows : screen.showsOffers := by
    refine ⟨hscreen.isOpen, ?_, ?_⟩
    · rw [hscreen.uid, hscreen.furniture]
      rfl
    · rw [hscreen.accepted, hopen]
      rfl
  have henabled : Enabled w₂ (.offersEvent i documents) := by
    refine (w₂.onScreen_iff i _).mpr ⟨screen, hscreen.get, hshows, ?_⟩
    rw [hscreen.furniture]
    exact .refl _
  have hperform : perform w₂ (.offersEvent i documents) =
      w₂.updateScreen i { screen with offers := documents } := by
    simp only [perform, World.withScreen_of_get _ hscreen.get]
  have hevent := hvisit.rest.visit henabled trivial trivial rfl (by rw [hperform]; rfl)
    (by rw [hperform]; rfl)
  have hs := hvisit.rest.represents.posted d.id lot hlot
  obtain ⟨o, ho, htask, rfl⟩ := (hs.isSome_iff p).mp hbid
  refine ⟨_, i, { screen with offers := documents }, o,
    (hleads.trans hvisit.leads).trans hevent.leads, hevent.rest, ?_, rfl⟩
  obtain ⟨hlt, -⟩ := List.getElem?_eq_some_iff.mp hscreen.get
  refine ⟨?_, hscreen.furniture, ⟨hshows, ?_, ?_⟩, ?_, htask⟩
  · rw [hperform]
    exact List.getElem?_set_self hlt
  · exact (w₂.store.offers.mem_whereEqualTo _ _ o).mpr ⟨ho.1, htask⟩
  · rw [hevent.store, hvisit.store]
    exact hp
  · rw [hevent.store]
    exact ho.1

theorem Rest.refuse (h : Rest w m) (hd : d ∈ w.store.tasks.docs) (hlot : m d.id = some lot)
    {p : Uid} (hallows : lot.Allows (.refuse p)) : Plays w (.on d.id (.refuse p)) := by
  obtain ⟨hopen, hbid⟩ := hallows
  obtain ⟨w₁, i, screen, o, hleads, hrest, hscreen, rfl⟩ := h.showing hd hlot hopen hbid
  have henabled : Enabled w₁ (.pressReject i o) :=
    (w₁.onScreen_iff i _).mpr ⟨screen, hscreen.get, hscreen.shows⟩
  have hperform : perform w₁ (.pressReject i o) =
      w₁.spawn screen.uid (.rejectDialog d.id (.ofDoc o)) := by
    simp only [perform, World.withScreen_of_get _ hscreen.get, hscreen.furniture]
    rfl
  obtain ⟨w₂, k, hpressed, -, hget⟩ := hrest.press henabled trivial trivial rfl rfl
    (by rw [hperform]; rfl) (by rw [hperform]; rfl)
  have hw := hpressed.rest.reachable
  have hs := hpressed.rest.represents.posted d.id lot hlot
  have hlive : o ∈ w₂.store.offers.docs := hpressed.store ▸ hscreen.live
  refine hleads.plays (hpressed.plays ?_)
  refine hpressed.rest.issue hget .ok trivial trivial ⟨hs.not_settled hw hopen, o, hlive, rfl, ?_⟩
    rfl (by simp [Handler.issued, reject, Write.deed])
  exact (hpressed.rest.quiet.standing_iff hw o).mpr hlive

theorem Rest.award (h : Rest w m) (hd : d ∈ w.store.tasks.docs) (hlot : m d.id = some lot)
    {p : Uid} (hallows : lot.Allows (.award p)) : Plays w (.on d.id (.award p)) := by
  obtain ⟨hopen, hbid⟩ := hallows
  obtain ⟨w₁, i, screen, o, hleads, hrest, hscreen, rfl⟩ := h.showing hd hlot hopen hbid
  have henabled : Enabled w₁ (.pressAccept i o) :=
    (w₁.onScreen_iff i _).mpr ⟨screen, hscreen.get, hscreen.shows⟩
  have hperform : perform w₁ (.pressAccept i o) =
      w₁.spawn screen.uid (.acceptDialog d.id (.ofDoc o)) := by
    simp only [perform, World.withScreen_of_get _ hscreen.get, hscreen.furniture]
    rfl
  obtain ⟨w₂, k, hpressed, -, hget⟩ := hrest.press henabled trivial trivial rfl rfl
    (by rw [hperform]; rfl) (by rw [hperform]; rfl)
  obtain ⟨w₃, hconfirmed, hget⟩ := hpressed.rest.input hget .ok trivial trivial trivial rfl rfl
  have hw := hconfirmed.rest.reachable
  have hs := hconfirmed.rest.represents.posted d.id lot hlot
  have hlive : o ∈ w₃.store.offers.docs := by
    rw [hconfirmed.store, hpressed.store]
    exact hscreen.live
  set documents := w₃.store.offers.whereEqualTo Offer.task d.id
  have hmem : o ∈ documents := (w₃.store.offers.mem_whereEqualTo _ _ o).mpr ⟨hlive, hscreen.task⟩
  refine hleads.plays (hpressed.plays (hconfirmed.plays ?_))
  refine hconfirmed.rest.issue hget (.offers documents) (.refl _) trivial (.inr
    ⟨hs.not_settled hw hopen, List.mem_map_of_mem hmem, fun x hx => ?_⟩) ?_ fun c hc s => ?_
  · refine (hconfirmed.rest.quiet.standing_iff hw x).mpr ?_
    exact ((w₃.store.offers.mem_whereEqualTo _ _ x).mp hx).1
  · exact if_neg (List.ne_nil_of_mem hmem)
  · obtain ⟨x, -, ⟨-, rfl | rfl⟩ | ⟨-, rfl⟩⟩ := mem_accept.mp hc <;> rfl

/-! ## Reports and ratings -/

theorem Rest.report (h : Rest w m) (hd : d ∈ w.store.tasks.docs) (hlot : m d.id = some lot)
    {u : Uid} (hallows : lot.Allows (.report u)) : Plays w (.on d.id (.report u)) := by
  obtain ⟨hnew, hne⟩ := hallows
  have hauthor := h.author hd hlot
  obtain ⟨w₁, i, screen, hvisit, hscreen⟩ := h.visiting hd hlot u
  have hperform : perform w₁ (.pressReport i) = w₁.spawn u (.noReported (.ofDoc d)) := by
    simp only [perform, World.withScreen_of_get _ hscreen.get, hscreen.uid, hscreen.furniture]
  have henabled : Enabled w₁ (.pressReport i) := by
    refine (w₁.onScreen_iff i _).mpr ⟨screen, hscreen.get, hscreen.isOpen, ?_⟩
    rw [hscreen.uid, hscreen.furniture]
    exact fun heq => hne (heq.symm.trans hauthor)
  obtain ⟨w₂, k, hpressed, -, hget⟩ := hvisit.rest.press henabled trivial trivial rfl rfl
    (by rw [hperform]; rfl) (by rw [hperform]; rfl)
  obtain ⟨w₃, hasked, hget⟩ := hpressed.rest.input hget
    (.violations (w₂.store.violations.whereEqualTo Violation.taskId d.id)) (.refl _) trivial
    trivial rfl rfl
  have hfree : noReported _ u = true :=
    ((hpressed.rest.answers hlot).reported _ u (.refl _)).mpr hnew
  have hdialog : w₃.processes[k]? = some ⟨u, .reportDialog (.ofDoc d)⟩ :=
    hget.trans (by simp only [Handler.next, hfree, ite_true])
  have hs := hasked.rest.represents.posted d.id lot hlot
  refine ((hvisit.trans hpressed).trans hasked).plays ?_
  refine hasked.rest.issue hdialog (.submit .spam) trivial trivial (fun hreported => ?_) rfl
    (by simp [Handler.issued, Oun.report, Write.deed])
  exact hnew ((hs.mem_reporters hasked.rest.reachable u).mpr hreported)

/-- The author of an awarded task without a rating gets to the rating bar. -/
theorem Rest.rateBar (h : Rest w m) (hd : d ∈ w.store.tasks.docs) (hlot : m d.id = some lot)
    {p : Uid} (hwon : lot.winner = some p) (hunrated : lot.rating = none) :
    ∃ (w' : World) (i : ℕ) (screen : Screen), Leads w [] w' ∧ Rest w' m ∧
      w'.screens[i]? = some screen ∧ screen.furniture = .ofDoc d ∧ screen.isOpen = true ∧
      (w'.sessions screen.session).provider = some p ∧ screen.rateBar.isSome = true := by
  have hacts : w.Acts p := by
    have hs := h.represents.posted d.id lot hlot
    obtain ⟨n, hn, -, rfl, -⟩ := (hs.winner_iff h.reachable h.quiet p).mp hwon
    exact acts_of_told h.reachable hn
  obtain ⟨w₁, hleads, hrest, htasks, hp⟩ := h.signUp hacts
  obtain ⟨w₂, i, screen, hvisit, hscreen⟩ := hrest.visiting (htasks ▸ hd) hlot d.data.author
  have hprovider := hscreen.provider p hwon
  set documents := w₂.store.rate.whereEqualTo Rate.task d.id
  have hnone : israted documents = false := by
    rw [(hvisit.rest.answers hlot).rated documents (.refl _), hunrated]
    rfl
  have henabled : Enabled w₂ (.israted i documents) := by
    refine (w₂.onScreen_iff i _).mpr ⟨screen, hscreen.get, ⟨hscreen.isOpen, ?_, ?_, ?_⟩, ?_⟩
    · rw [hscreen.uid, hscreen.furniture]
      rfl
    · rw [hscreen.accepted, hwon]
      rfl
    · rw [hprovider, hvisit.store]
      exact hp
    · rw [hscreen.furniture]
      exact .refl _
  have hperform : perform w₂ (.israted i documents) = w₂.ratedCompletes i screen documents := by
    simp only [perform, World.withScreen_of_get _ hscreen.get]
  have hasked := hvisit.rest.visit henabled trivial trivial rfl (by rw [hperform]; rfl)
    (by rw [hperform]; rfl)
  obtain ⟨hlt, -⟩ := List.getElem?_eq_some_iff.mp hscreen.get
  refine ⟨_, i, { screen with rateBar := some ⟨p, screen.rateBar.bind RateBar.snapshot⟩ },
    (hleads.trans hvisit.leads).trans hasked.leads, hasked.rest, ?_, hscreen.furniture,
    hscreen.isOpen, ?_, rfl⟩
  · simp [hperform, World.ratedCompletes, World.updateScreen, hnone, hprovider, hlt]
  · rw [hperform]
    exact hprovider

theorem Shown.not_rated (hw : Reachable app w) {t : DocId} (hs : Shown w t lot)
    (hunrated : lot.rating = none) : ¬ Rated w t := by
  have hgrades : ∀ c : Call, c.adds Write.rate? (hasKey Rate.task t) = true →
      ∃ r : Uid × Stars, c.grades t r.1 r.2 = true := by
    intro c hc
    obtain ⟨x, hx, hkey⟩ := Call.adds_iff.mp hc
    obtain rfl : x.task = t := of_decide_eq_true hkey
    exact ⟨(x.user, x.rate), Call.adds_iff.mpr ⟨x, hx, by simp [hasKey]⟩⟩
  rw [rated_iff_taken, rate_grows.taken_iff hw]
  intro hpos
  obtain ⟨r, hr⟩ := exists_issued_pos hgrades hpos
  simp [(hs.rating r.1 r.2).mpr hr] at hunrated

theorem Rest.rate (h : Rest w m) (hd : d ∈ w.store.tasks.docs) (hlot : m d.id = some lot)
    {p : Uid} {stars : Stars} (hallows : lot.Allows (.rate p stars)) :
    Plays w (.on d.id (.rate p stars)) := by
  obtain ⟨hwon, hunrated⟩ := hallows
  obtain ⟨w₁, i, screen, hleads, hrest, hscreen, hfurniture, hopen, hprovider, hbar⟩ :=
    h.rateBar hd hlot hwon hunrated
  have hperform : perform w₁ (.pressRate i stars) =
      (w₁.updateSession screen.session fun s => { s with rating := some stars }).spawn screen.uid
        (.ratingDialog screen.session (.ofDoc d) (screen.rateBar.bind RateBar.snapshot)) := by
    simp only [perform, World.withScreen_of_get _ hscreen, hfurniture]
  have henabled : Enabled w₁ (.pressRate i stars) :=
    (w₁.onScreen_iff i _).mpr ⟨screen, hscreen, hopen, hbar⟩
  obtain ⟨w₂, k, hpressed, hsessions, hget⟩ := hrest.press henabled trivial trivial rfl rfl
    (by rw [hperform]; rfl) (by rw [hperform]; rfl)
  have hw := hpressed.rest.reachable
  have hs := hpressed.rest.represents.posted d.id lot hlot
  have hreads : (w₂.sessions screen.session).provider = some p ∧
      (w₂.sessions screen.session).rating = some stars := by
    simp [hsessions, hperform, World.spawn, World.updateSession, hprovider]
  have hnone : ¬ Rated w₂ d.id := hs.not_rated hw hunrated
  refine hleads.plays (hpressed.plays ?_)
  exact hpressed.rest.issue hget (.rate p stars) trivial hreads
    ⟨hnone, (hs.winner p).mp hwon⟩ rfl (by simp [Handler.issued, Oun.rate, Write.deed])

/-! ## All deeds -/

theorem Rest.plays (h : Rest w m) (henabled : numberedMarket.Enabled m b) : Plays w b := by
  obtain ⟨hallowed, hnumbered⟩ := henabled
  cases b with
  | post t author =>
      have hnext : t = w.store.tasks.next := by
        have hle : ¬ t < w.store.tasks.next := by
          rw [← h.represents.isSome_iff h.reachable, show m t = none from hallowed]
          exact Bool.false_ne_true
        refine (Nat.not_lt.mp hle).antisymm' (Nat.not_lt.mp fun hlt => ?_)
        exact absurd ((h.represents.isSome_iff h.reachable _).mp (hnumbered _ hlt))
          (Nat.lt_irrefl _)
      exact hnext ▸ h.post author
  | on t move =>
      obtain ⟨lot, hlot, hallows⟩ := hallowed
      obtain ⟨d, hd, rfl, -⟩ := (h.represents.posted t lot hlot).author
      cases move with
      | bid p price => exact h.bid hd hlot hallows hnumbered
      | refuse p => exact h.refuse hd hlot hallows
      | award p => exact h.award hd hlot hallows
      | report u => exact h.report hd hlot hallows
      | rate p stars => exact h.rate hd hlot hallows

theorem app_realizes : Realizes app numberedMarket (fun w a => Permitted w a ∧ Registers w a) deed
    Represents World.Quiet where
  init := by simp [World.Quiet, app, World.init]
  play {trace w m b} run hC hquiet hrep henabled := by
    have h : Rest w m := ⟨⟨trace, run, fun step hstep => (hC step hstep).1⟩, hquiet, hrep⟩
    obtain ⟨w', ⟨next, hrun, hmeets, hdeeds⟩, hquiet'⟩ := h.plays henabled
    exact ⟨next, w', hrun, hmeets, hdeeds, hquiet'⟩

theorem exists_played {steps : List ((DocId → Option TaskLot) × TaskDeed)}
    {m : DocId → Option TaskLot} (run : Run numberedMarket numberedMarket.init steps m) :
    ∃ trace w, Run app app.init trace w ∧ Meets (fun v a => Permitted v a ∧ Registers v a) trace ∧
      labels deed trace = steps.map Prod.snd ∧ w.Quiet := by
  obtain ⟨trace, w, hrun, hmeets, hdeeds, hquiet, -⟩ :=
    app_realizes.run (app_numbered.mono fun _ _ => And.left) run
  exact ⟨trace, w, hrun, hmeets, hdeeds, hquiet⟩

end Oun
