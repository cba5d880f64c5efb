import Oun.Verification.Details.Provider
import Oun.Verification.Rating.Lag
import Oun.Verification.Roles.Authority

/-! # Who sees whose contact

`provider` may be that of another task when the details are fetched. Whatever the order of
events, names and phone numbers are only shown to authors of accepted tasks, and only those of
users of whom some offer has been accepted. -/

namespace Oun

open Firestore Regex Transition

/-- The offer was made on the task, by a user who has won. -/
structure OfferedOn (w : World) (t : DocId) (o : Offer) : Prop where
  submitted : ∃ id, Submitted w.log id o
  task : o.task = t
  won : HasWon w.store o.provider

/-- What the author of an accepted task may be shown of other users. -/
structure Disclosed (w : World) (viewer : Uid) (t : DocId) (details : Details) : Prop where
  author : HasTask w.store t viewer
  accepted : 0 < winners w.store t
  contact : ∃ q user, HasWon w.store q ∧ w.store.users q = some user ∧
    details.name = user.name ∧ details.phone = user.phone
  rate : details.rate = .value 0 ∨ details.rate.IsRating
  price : details.price = noData ∨ ∃ o, OfferedOn w t o ∧ o.provider ≠ viewer ∧
    priceValidator o.price = none ∧ details.price = o.price

/-! ## What the panels hold -/

/-- What has arrived in a panel on the task. -/
structure Panel.Lawful (w : World) (t : DocId) (panel : Panel) : Prop where
  prov : ∀ q ∈ panel.prov, HasWon w.store q
  name : ∀ name ∈ panel.name, ∃ user, panel.user w.store = some user ∧ name = user.name
  phone : ∀ phone ∈ panel.phone, ∃ user, panel.user w.store = some user ∧ phone = user.phone
  rate : ∀ rate ∈ panel.rate, rate = .value 0 ∨ rate.IsRating
  price : ∀ price ∈ panel.price, price = noData ∨ ∃ o, OfferedOn w t o ∧ price = o.price

/-- All panels belong to screens and are lawful on the tasks of these. -/
def PanelsLawful (d : Detailed) : Prop :=
  ∀ i panel, d.panels i = some panel → ∃ screen, d.world.screens[i]? = some screen ∧
    panel.Lawful d.world screen.furniture.id

theorem Panel.details_iff {panel : Panel} {details : Details} :
    panel.details = some details ↔ panel.name = some details.name ∧
      panel.rate = some details.rate ∧ panel.phone = some details.phone ∧
        panel.price = some details.price := by
  obtain ⟨prov, name, rate, phone, price⟩ := panel
  obtain ⟨name', rate', phone', price'⟩ := details
  unfold Panel.details
  split <;> simp_all

/-- A price that is found was offered by the provider. -/
theorem fetchPrice_cases (documents : List (Doc Offer)) (prov : Option Uid) :
    fetchPrice documents prov = noData ∨ ∃ d ∈ documents, some d.data.provider = prov ∧
      fetchPrice documents prov = d.data.price := by
  induction documents with
  | nil => exact .inl rfl
  | cons d documents ih =>
      by_cases hd : some d.data.provider = prov
      · exact .inr ⟨d, List.mem_cons_self, hd, if_pos hd⟩
      · rw [fetchPrice, if_neg hd]
        refine ih.imp_right ?_
        rintro ⟨x, hx, hfound⟩
        exact ⟨x, List.mem_cons_of_mem _ hx, hfound⟩

theorem OfferedOn.perform {w : World} {a : Action} (henabled : Enabled w a) {t : DocId} {o : Offer}
    (h : OfferedOn w t o) : OfferedOn (perform w a) t o := by
  obtain ⟨id, hsub⟩ := h.submitted
  exact ⟨⟨id, hsub.mono (extends_perform henabled)⟩, h.task, h.won.perform henabled⟩

/-- Only the rate of the user may change. -/
theorem Panel.user_perform {w : World} {a : Action} (henabled : Enabled w a) {panel : Panel}
    {user : User} (h : panel.user w.store = some user) :
    ∃ rate, panel.user (Oun.perform w a).store = some { user with rate } := by
  obtain ⟨q, hq, huser⟩ := Option.bind_eq_some_iff.mp h
  obtain ⟨rate, hnext⟩ := users_perform henabled huser
  exact ⟨rate, Option.bind_eq_some_iff.mpr ⟨q, hq, hnext⟩⟩

theorem Panel.Lawful.perform {w : World} {a : Action} (henabled : Enabled w a) {t : DocId}
    {panel : Panel} (h : panel.Lawful w t) : panel.Lawful (perform w a) t where
  prov q hq := (h.prov q hq).perform henabled
  name name hname := by
    obtain ⟨user, huser, rfl⟩ := h.name name hname
    obtain ⟨rate, hnext⟩ := Panel.user_perform henabled huser
    exact ⟨_, hnext, rfl⟩
  phone phone hphone := by
    obtain ⟨user, huser, rfl⟩ := h.phone phone hphone
    obtain ⟨rate, hnext⟩ := Panel.user_perform henabled huser
    exact ⟨_, hnext, rfl⟩
  rate := h.rate
  price price hprice := by
    refine (h.price price hprice).imp_right ?_
    rintro ⟨o, ho, rfl⟩
    exact ⟨o, ho.perform henabled, rfl⟩

theorem PanelsLawful.performApp {d : Detailed} {a : Action} (h : PanelsLawful d)
    (henabled : Enabled d.world a) : PanelsLawful (d.performApp a) := by
  intro i panel hpanel
  have hold : d.panels i = some panel := by
    unfold Detailed.performApp at hpanel
    split at hpanel
    · simp only [Detailed.setPanel] at hpanel
      split at hpanel
      · cases hpanel
      · exact hpanel
    · exact hpanel
  obtain ⟨screen, hget, hlawful⟩ := h i panel hold
  obtain ⟨screen', hget', hfurniture, -⟩ := kept_perform d.world a i screen hget
  rw [Detailed.performApp_world]
  exact ⟨screen', hget', hfurniture ▸ hlawful.perform henabled⟩

theorem PanelsLawful.setPanel {d : Detailed} {i : ℕ} {new : Panel} (h : PanelsLawful d)
    {screen : Screen} (hget : d.world.screens[i]? = some screen)
    (hnew : new.Lawful d.world screen.furniture.id) : PanelsLawful (d.setPanel i (some new)) := by
  intro j panel hpanel
  by_cases hj : j = i
  · subst hj
    obtain rfl : new = panel := Option.some.inj ((if_pos rfl).symm.trans hpanel)
    exact ⟨screen, hget, hnew⟩
  · exact h j panel ((if_neg hj).symm.trans hpanel)

/-- What arrives in a panel is lawful if it fits what has arrived before. -/
theorem PanelsLawful.withPanel {d : Detailed} {i : ℕ} {f : Panel → Panel} (h : PanelsLawful d)
    (hf : ∀ panel screen, d.world.screens[i]? = some screen →
      panel.Lawful d.world screen.furniture.id → (f panel).Lawful d.world screen.furniture.id) :
    PanelsLawful (d.withPanel i f) := by
  intro j panel hpanel
  by_cases hj : j = i
  · subst hj
    have hpanel : (d.panels j).map f = some panel := (if_pos rfl).symm.trans hpanel
    obtain ⟨old, hold, rfl⟩ := Option.map_eq_some_iff.mp hpanel
    obtain ⟨screen, hget, hlawful⟩ := h j old hold
    exact ⟨screen, hget, hf old screen hget hlawful⟩
  · exact h j panel ((if_neg hj).symm.trans hpanel)

/-- The price that is fetched is that of an offer on the task. -/
theorem panelsLawful_fetchPrice {d : Detailed} {i : ℕ} {documents : List (Doc Offer)}
    (hd : Reachable app d.world) (h : PanelsLawful d)
    (henabled : (Detailed.Action.fetchPrice i documents).Enabled d) :
    PanelsLawful (d.perform (.fetchPrice i documents)) := by
  refine h.withPanel fun panel screen hget hlawful => { hlawful with price := ?_ }
  rintro _ ⟨⟩
  refine (fetchPrice_cases documents (d.world.providerOn i)).imp_right ?_
  rintro ⟨x, hx, hprov, hprice⟩
  obtain ⟨screen', hget', hdocuments⟩ := (d.world.onScreen_iff _ _).mp henabled.2
  obtain rfl : screen' = screen := Option.some.inj (hget'.symm.trans hget)
  obtain ⟨hstored, htask⟩ := (d.world.store.offers.mem_whereEqualTo _ _ x).mp
    (hdocuments.mem_iff.mp hx)
  have hprovider : (d.world.sessions screen'.session).provider = some x.data.provider := by
    rw [hprov, World.providerOn, hget', Option.bind_some]
  exact ⟨x.data, ⟨⟨x.id, (provenance hd).offers x hstored⟩, htask,
    (rightful hd).providers _ _ hprovider⟩, hprice⟩

theorem panelsLawful_step {d : Detailed} {action : Detailed.Action} (hd : Reachable app d.world)
    (h : PanelsLawful d) (henabled : action.Enabled d) : PanelsLawful (d.perform action) := by
  cases action with
  | app a => exact h.performApp henabled
  | build i =>
      obtain ⟨screen, hget, -⟩ := (d.world.onScreen_iff _ _).mp henabled
      refine h.setPanel hget ⟨fun q hq => ?_, nofun, nofun, nofun, nofun⟩
      have hprovider : d.world.providerOn i = (d.world.sessions screen.session).provider := by
        rw [World.providerOn, hget, Option.bind_some]
      exact (rightful hd).providers _ _ (hprovider.symm.trans hq)
  | fetchUsername i =>
      refine h.withPanel fun panel screen _ hlawful => { hlawful with name := ?_ }
      intro name hname
      obtain ⟨user, huser, rfl⟩ := Option.map_eq_some_iff.mp hname
      exact ⟨user, huser, rfl⟩
  | fetchRate i =>
      refine h.withPanel fun panel screen _ hlawful => { hlawful with rate := ?_ }
      intro rate hrate
      obtain ⟨user, huser, rfl⟩ := Option.map_eq_some_iff.mp hrate
      obtain ⟨q, -, huser⟩ := Option.bind_eq_some_iff.mp huser
      exact rate_zero_or_isRating hd huser
  | fetchPhone i =>
      refine h.withPanel fun panel screen _ hlawful => { hlawful with phone := ?_ }
      intro phone hphone
      obtain ⟨user, huser, rfl⟩ := Option.map_eq_some_iff.mp hphone
      exact ⟨user, huser, rfl⟩
  | fetchPrice i documents => exact panelsLawful_fetchPrice hd h henabled

/-! ## Whole runs -/

theorem Detailed.reachable_app {d : Detailed} (hd : Reachable detailed d) :
    Reachable app d.world := by
  refine hd.invariant (I := fun d => Reachable app d.world) ⟨[], .nil⟩ fun u action _ hu ha => ?_
  cases action with
  | app a =>
      show Reachable app (u.performApp a).world
      rw [Detailed.performApp_world]
      exact (Run.single (S := app) ha).reachable hu
  | _ => exact hu

theorem panelsLawful {d : Detailed} (hd : Reachable detailed d) : PanelsLawful d :=
  hd.invariant (I := PanelsLawful) nofun fun _ _ hreach h ha =>
    panelsLawful_step (Detailed.reachable_app hreach) h ha

/-- The details that a screen shows are for the author of an accepted task: the contact of a user
who has won, if not with this task, and no price but one offered on the task by such a user. -/
theorem details_disclosed {d : Detailed} (hd : Reachable detailed d) {i : ℕ} {t : DocId}
    {details : Details} (h : d.Shows i t details) :
    ∃ screen, d.world.screens[i]? = some screen ∧ Disclosed d.world screen.uid t details := by
  have hw := Detailed.reachable_app hd
  obtain ⟨hscreen, hpanel⟩ := h
  obtain ⟨screen, hget, ⟨-, hauthor, haccepted⟩, rfl⟩ := (d.world.onScreen_iff i _).mp hscreen
  obtain ⟨panel, hpanel, hdetails⟩ := Option.bind_eq_some_iff.mp hpanel
  obtain ⟨screen', hget', hlawful⟩ := panelsLawful hd i panel hpanel
  obtain rfl : screen = screen' := Option.some.inj (hget.symm.trans hget')
  have hmem := List.mem_of_getElem? hget
  have htask := hauthor ▸ ((provenance hw).screens _ hmem).1
  obtain ⟨hname, hrate, hphone, hprice⟩ := Panel.details_iff.mp hdetails
  obtain ⟨user, huser, hname⟩ := hlawful.name _ hname
  obtain ⟨user', huser', hphone⟩ := hlawful.phone _ hphone
  obtain rfl : user = user' := Option.some.inj (huser.symm.trans huser')
  obtain ⟨q, hq, huser⟩ := Option.bind_eq_some_iff.mp huser
  refine ⟨screen, hget, htask, ((rightful hw).screens _ hmem).accepted haccepted,
    ⟨q, user, hlawful.prov q hq, huser, hname, hphone⟩, hlawful.rate _ hrate,
    (hlawful.price _ hprice).imp_right ?_⟩
  rintro ⟨o, ho, hprice⟩
  obtain ⟨id, hsub⟩ := ho.submitted
  obtain ⟨howner, hne⟩ := (provenance hw).submitted hsub
  have hviewer : o.taskOwner = screen.uid := (ho.task ▸ howner).unique htask
  obtain ⟨e, he, hwrite, -⟩ := hsub
  have hproper := (provenance hw).log e he
  simp only [Call.Proper, hwrite] at hproper
  exact ⟨o, ho, hviewer ▸ hne, hproper.2.2.2, hprice⟩

instance detailed.decidableEnabled (d : Detailed) (action : Detailed.Action) :
    Decidable (detailed.Enabled d action) :=
  inferInstanceAs (Decidable (action.Enabled d))

namespace Scenario

/-- The details of the second task are built when `isAccepted()` of the first has completed. -/
def overtaken : List Detailed.Action :=
  List.map .app (twoAccepted ++ [.openScreen 0 task, .closeScreen 4] ++ otherOpened 5 ++
    [.isAccepted 4 [added 0, notif 2 2 .accepted]]) ++ otherFetched 5

end Scenario

/-- The screen shows the contact of the provider of another task, who has won there. -/
theorem details_disclosed_overtaken :
    (detailed.final detailed.init Scenario.overtaken).Shows 5 1
        ⟨Scenario.profile.name, .value 0, Scenario.profile.phone, noData⟩ ∧
      ∃ screen, (detailed.final detailed.init Scenario.overtaken).world.screens[5]? = some screen ∧
        Disclosed (detailed.final detailed.init Scenario.overtaken).world screen.uid 1
          ⟨Scenario.profile.name, .value 0, Scenario.profile.phone, noData⟩ := by
  have hshows : (detailed.final detailed.init Scenario.overtaken).Shows 5 1
      ⟨Scenario.profile.name, .value 0, Scenario.profile.phone, noData⟩ := by
    decide +kernel
  have run := detailed.run_steps detailed.init Scenario.overtaken (by decide +kernel)
  exact ⟨hshows, details_disclosed ⟨_, run⟩ hshows⟩

end Oun
