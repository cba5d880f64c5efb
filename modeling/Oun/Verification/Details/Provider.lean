import Oun.Model.Details
import Oun.Verification.Winner.Outcome
import Oun.Verification.Rating.Mean

/-! # Whom ratings and details name

`isAccepted()` of any screen may set `provider`, also after the screen is closed. Ratings and
details are right as long as the variable was last set for the task that uses it. -/

namespace Oun

open Firestore Regex Transition

/-- The provider of the offer was told that it is accepted. -/
def Told (w : World) (d : Doc Offer) : Prop :=
  ∃ e ∈ w.log, e.call.tells .accepted d = true

instance (w : World) (d : Doc Offer) : Decidable (Told w d) := by
  unfold Told; infer_instance

/-- The user has made the offer on the task, and it was accepted. -/
structure AcceptedOffer (w : World) (t : DocId) (q : Uid) (d : Doc Offer) : Prop where
  submitted : Submitted w.log d.id d.data
  task : d.data.task = t
  provider : d.data.provider = q
  told : Told w d

/-- Whom a write of the rating handler names. -/
def Write.rated? : Write → Option Uid
  | .addRate r => some r.user
  | .updateRate uid _ => some uid
  | _ => none

/-- The session and the task of a rating dialog. -/
def Handler.rates? : Handler → Option (SessionId × Furniture)
  | .ratingDialog session furniture _ => some (session, furniture)
  | _ => none

/-- When Rate is pressed, all writes name a provider accepted on the rated task. -/
def RatesAccepted (u : Detailed) : Detailed.Action → Prop
  | .app (.process k input) => ∀ p ∈ u.world.processes[k]?, ∀ r ∈ p.handler.rates?,
      ∀ c ∈ p.handler.issued p.uid input, ∀ q ∈ c.write.rated?,
        ∃ d, AcceptedOffer u.world r.2.id q d
  | _ => True

/-- Shown name and phone number are those of a provider accepted on the task, and the price is
that of the accepted offer. -/
def ShowsAccepted (u : Detailed) : Prop :=
  ∀ i t details, u.Shows i t details → ∃ q user d, u.world.store.users q = some user ∧
    AcceptedOffer u.world t q d ∧ details.name = user.name ∧ details.phone = user.phone ∧
    details.price = d.data.price

/-! ## For which task the variable was set -/

/-- The task for which an `isAccepted()` has last set `provider` of each session. -/
def setters (tasks : SessionId → Option DocId) (u : Detailed) :
    Detailed.Action → SessionId → Option DocId
  | .app (.isAccepted i documents) => fun session =>
      match u.world.screens[i]? with
      | some screen =>
          if session = screen.session ∧ ∃ d ∈ documents, d.data.status = .accepted then
            some screen.furniture.id
          else tasks session
      | none => tasks session
  | _ => tasks

/-- The app with details, and with the setters of `provider` as history. -/
def traced : System (Detailed × (SessionId → Option DocId)) Detailed.Action :=
  detailed.recording (fun _ => none) setters

instance (u : Detailed × (SessionId → Option DocId)) (action : Detailed.Action) :
    Decidable (traced.Enabled u action) :=
  inferInstanceAs (Decidable (action.Enabled u.1))

/-- Rate is pressed, and a panel is built, when `provider` was last set for the same task; when
the price is fetched the variable is what it was, and the provider has an offer on the task and
none but the accepted one. -/
def UsesOwn (u : Detailed × (SessionId → Option DocId)) : Detailed.Action → Prop
  | .app (.process k (.rate _ _)) => ∀ p ∈ u.1.world.processes[k]?, ∀ r ∈ p.handler.rates?,
      u.2 r.1 = some r.2.id
  | .build i => u.1.world.OnScreen i fun screen =>
      u.2 screen.session = some screen.furniture.id
  | .fetchPrice i documents => ∀ panel ∈ u.1.panels i,
      u.1.world.providerOn i = panel.prov ∧ (∃ d ∈ documents, panel.prov = some d.data.provider) ∧
        ∀ d ∈ documents, panel.prov = some d.data.provider → Told u.1.world d
  | _ => True

instance (u : Detailed × (SessionId → Option DocId)) (action : Detailed.Action) :
    Decidable (UsesOwn u action) := by
  unfold UsesOwn
  split <;> infer_instance

/-! ## What the variable holds -/

/-- The store knows of an acceptance of the user on the task. -/
def AcceptedIn (s : Store) (t : DocId) (q : Uid) : Prop :=
  ∃ n ∈ s.notifs.docs, n.data.task = t ∧ n.data.user = q ∧ n.data.status = .accepted

theorem AcceptedIn.perform {w : World} {a : Oun.Action} (h : Enabled w a) {t : DocId} {q : Uid}
    (haccepted : AcceptedIn w.store t q) : AcceptedIn (perform w a).store t q := by
  obtain ⟨n, hn, hrest⟩ := haccepted
  exact ⟨n, notifs_grow.mem_perform h hn, hrest⟩

theorem AcceptedIn.offer {w : World} (hw : Reachable app w) {t : DocId} {q : Uid}
    (h : AcceptedIn w.store t q) : ∃ d, AcceptedOffer w t q d := by
  obtain ⟨n, hn, rfl, rfl, hstatus⟩ := h
  obtain ⟨d, hsub, htask, hprovider, htold⟩ := exists_chosen hw hn hstatus
  exact ⟨d, hsub, htask, hprovider, htold⟩

theorem AcceptedOffer.perform {w : World} {a : Oun.Action} (henabled : Enabled w a) {t : DocId}
    {q : Uid} {d : Doc Offer} (h : AcceptedOffer w t q d) : AcceptedOffer (perform w a) t q d := by
  have hext := extends_perform henabled
  obtain ⟨e, he, htells⟩ := h.told
  exact ⟨h.submitted.mono hext, h.task, h.provider, e, hext.log e he, htells⟩

/-- A session whose `provider` was last set for a task has a provider accepted on it there. -/
def SettersFit (u : Detailed × (SessionId → Option DocId)) : Prop :=
  ∀ session t, u.2 session = some t →
    ∃ q, (u.1.world.sessions session).provider = some q ∧ AcceptedIn u.1.world.store t q

@[simp] theorem Detailed.performApp_world (d : Detailed) (a : Oun.Action) :
    (d.performApp a).world = Oun.perform d.world a := by
  unfold performApp
  split <;> rfl

theorem setters_of_ne {tasks : SessionId → Option DocId} {d : Detailed} {a : Oun.Action}
    (hne : ∀ i documents, a ≠ .isAccepted i documents) : setters tasks d (.app a) = tasks := by
  cases a with
  | isAccepted i documents => exact absurd rfl (hne i documents)
  | _ => rfl

/-- `isAccepted()` sets the variable of its session for its own task, if it sets it. -/
theorem settersFit_isAccepted {d : Detailed} {tasks : SessionId → Option DocId} {i : ℕ}
    {documents : List (Doc Notif)} (h : SettersFit (d, tasks))
    (henabled : Enabled d.world (.isAccepted i documents)) :
    SettersFit (d.performApp (.isAccepted i documents),
      setters tasks d (.app (.isAccepted i documents))) := by
  obtain ⟨screen, hget, -, hdocuments⟩ := (d.world.onScreen_iff i _).mp henabled
  intro session t hset
  have hnext : (d.performApp (.isAccepted i documents)).world =
      d.world.acceptedCompletes i screen documents := by
    rw [Detailed.performApp_world]
    exact World.withScreen_of_get _ hget
  simp only [setters, hget] at hset
  simp only [hnext, World.acceptedCompletes, World.updateScreen, World.updateSession]
  by_cases hsession : session = screen.session
  · subst hsession
    simp only [true_and, ite_true] at hset ⊢
    rcases isAccepted_stored hdocuments (d.world.sessions screen.session).provider with
      ⟨hnone, hsame⟩ | ⟨n, hn, hstored, htask, hstatus, hfound⟩
    · rw [if_neg (by simpa using hnone)] at hset
      rw [hsame]
      exact h screen.session t hset
    · rw [if_pos ⟨n, hn, hstatus⟩] at hset
      exact ⟨n.data.user, hfound, n, hstored, htask.trans (Option.some.inj hset), rfl, hstatus⟩
  · simp only [hsession, false_and, ite_false] at hset ⊢
    exact h session t hset

theorem settersFit_step {u : Detailed × (SessionId → Option DocId)} {action : Detailed.Action}
    (h : SettersFit u) (henabled : traced.Enabled u action) :
    SettersFit (traced.perform u action) := by
  obtain ⟨d, tasks⟩ := u
  cases action with
  | app a =>
      by_cases hasks : ∃ i documents, a = .isAccepted i documents
      · obtain ⟨i, documents, rfl⟩ := hasks
        exact settersFit_isAccepted h henabled
      · have hne : ∀ i documents, a ≠ .isAccepted i documents := fun i documents heq =>
          hasks ⟨i, documents, heq⟩
        intro session t hset
        replace hset : setters tasks d (.app a) session = some t := hset
        rw [setters_of_ne hne] at hset
        obtain ⟨q, hq, haccepted⟩ := h session t hset
        have hworld : (traced.perform (d, tasks) (.app a)).1.world = perform d.world a :=
          d.performApp_world a
        rw [hworld, provider_perform henabled hne]
        exact ⟨q, hq, haccepted.perform henabled⟩
  | _ => exact h

theorem reachable_world {u : Detailed × (SessionId → Option DocId)} (hu : Reachable traced u) :
    Reachable app u.1.world := by
  refine hu.invariant (I := fun u => Reachable app u.1.world) ⟨[], .nil⟩ ?_
  rintro ⟨d, tasks⟩ action _ hd henabled
  cases action with
  | app a =>
      show Reachable app (d.performApp a).world
      rw [Detailed.performApp_world]
      exact (Run.single (S := app) henabled).reachable hd
  | _ => exact hd

/-! ## What the panels hold -/

/-- What has arrived in the panel is the data of a user accepted on the task. -/
structure Panel.For (panel : Panel) (w : World) (t : DocId) (q : Uid) : Prop where
  prov : panel.prov = some q
  accepted : AcceptedIn w.store t q
  name : ∀ name ∈ panel.name, ∃ user, w.store.users q = some user ∧ name = user.name
  phone : ∀ phone ∈ panel.phone, ∃ user, w.store.users q = some user ∧ phone = user.phone
  price : ∀ price ∈ panel.price, ∃ d, AcceptedOffer w t q d ∧ price = d.data.price

def PanelsFit (d : Detailed) : Prop :=
  ∀ i panel, d.panels i = some panel → ∃ screen q, d.world.screens[i]? = some screen ∧
    panel.For d.world screen.furniture.id q

/-- The price that is found is one that the provider offers, if there is one. -/
theorem fetchPrice_mem {documents : List (Doc Offer)} {q : Uid}
    (h : ∃ d ∈ documents, d.data.provider = q) :
    ∃ d ∈ documents, d.data.provider = q ∧ fetchPrice documents (some q) = d.data.price := by
  induction documents with
  | nil => simp at h
  | cons d documents ih =>
      by_cases hd : d.data.provider = q
      · exact ⟨d, List.mem_cons_self, hd, by rw [fetchPrice, if_pos (congrArg some hd)]⟩
      · obtain ⟨x, hx, hxq⟩ := h
        have htail : ∃ d ∈ documents, d.data.provider = q := by
          rcases List.mem_cons.mp hx with rfl | hx
          · exact absurd hxq hd
          · exact ⟨x, hx, hxq⟩
        obtain ⟨y, hy, hyq, hprice⟩ := ih htail
        refine ⟨y, List.mem_cons_of_mem _ hy, hyq, ?_⟩
        rw [fetchPrice, if_neg (by simpa using hd), hprice]

theorem Panel.For.perform {panel : Panel} {w : World} {a : Oun.Action} {t : DocId} {q : Uid}
    (henabled : Enabled w a) (h : panel.For w t q) : panel.For (perform w a) t q where
  prov := h.prov
  accepted := h.accepted.perform henabled
  name := by
    intro name hname
    obtain ⟨user, huser, rfl⟩ := h.name name hname
    obtain ⟨rate, hnext⟩ := users_perform henabled huser
    exact ⟨_, hnext, rfl⟩
  phone := by
    intro phone hphone
    obtain ⟨user, huser, rfl⟩ := h.phone phone hphone
    obtain ⟨rate, hnext⟩ := users_perform henabled huser
    exact ⟨_, hnext, rfl⟩
  price := by
    intro price hprice
    obtain ⟨d, hd, rfl⟩ := h.price price hprice
    exact ⟨d, hd.perform henabled, rfl⟩

theorem PanelsFit.withPanel {d : Detailed} {i : ℕ} {f : Panel → Panel} (h : PanelsFit d)
    (hf : ∀ panel screen q, d.panels i = some panel → d.world.screens[i]? = some screen →
      panel.For d.world screen.furniture.id q → (f panel).For d.world screen.furniture.id q) :
    PanelsFit (d.withPanel i f) := by
  intro j panel hpanel
  by_cases hj : j = i
  · subst hj
    replace hpanel : (d.panels j).map f = some panel := by
      simpa [Detailed.withPanel, Detailed.setPanel] using hpanel
    obtain ⟨old, hold, rfl⟩ := Option.map_eq_some_iff.mp hpanel
    obtain ⟨screen, q, hscreen, hfor⟩ := h j old hold
    exact ⟨screen, q, hscreen, hf old screen q hold hscreen hfor⟩
  · replace hpanel : d.panels j = some panel := by
      simpa [Detailed.withPanel, Detailed.setPanel, hj] using hpanel
    exact h j panel hpanel

theorem PanelsFit.performApp {d : Detailed} {a : Oun.Action} (h : PanelsFit d)
    (henabled : Enabled d.world a) : PanelsFit (d.performApp a) := by
  intro i panel hpanel
  have hold : d.panels i = some panel := by
    unfold Detailed.performApp at hpanel
    split at hpanel
    · simp only [Detailed.setPanel] at hpanel
      split at hpanel
      · simp at hpanel
      · exact hpanel
    · exact hpanel
  obtain ⟨screen, q, hscreen, hfor⟩ := h i panel hold
  obtain ⟨screen', hscreen', hfurniture, -⟩ := kept_perform d.world a i screen hscreen
  rw [Detailed.performApp_world]
  exact ⟨screen', q, hscreen', hfurniture ▸ hfor.perform henabled⟩

theorem Panel.For.user {panel : Panel} {w : World} {t : DocId} {q : Uid}
    (h : panel.For w t q) : panel.user w.store = w.store.users q := by
  simp [Panel.user, h.prov]

/-- A panel is built for a provider accepted on the task of its screen. -/
theorem panelsFit_build {d : Detailed} {tasks : SessionId → Option DocId} {i : ℕ}
    (h : PanelsFit d) (hsetters : SettersFit (d, tasks)) (huses : UsesOwn (d, tasks) (.build i)) :
    PanelsFit (d.setPanel i (some { prov := d.world.providerOn i })) := by
  intro j panel hpanel
  simp only [Detailed.setPanel] at hpanel
  split at hpanel
  · rename_i hj
    subst hj
    obtain rfl := Option.some.inj hpanel
    obtain ⟨screen, hscreen, hset⟩ := (d.world.onScreen_iff _ _).mp huses
    obtain ⟨q, hq, haccepted⟩ := hsetters screen.session _ hset
    refine ⟨screen, q, hscreen, ?_, haccepted, nofun, nofun, nofun⟩
    simp only [World.providerOn, hscreen, Option.bind_some]
    exact hq
  · exact h j panel hpanel

theorem panelsFit_fetchPrice {d : Detailed} {tasks : SessionId → Option DocId} {i : ℕ}
    {documents : List (Doc Offer)} (hd : Reachable app d.world) (h : PanelsFit d)
    (henabled : (Detailed.Action.fetchPrice i documents).Enabled d)
    (huses : UsesOwn (d, tasks) (.fetchPrice i documents)) :
    PanelsFit (d.perform (.fetchPrice i documents)) := by
  refine h.withPanel fun panel screen q hpanel hscreen hfor => ⟨hfor.prov, hfor.accepted,
    hfor.name, hfor.phone, ?_⟩
  rintro _ ⟨⟩
  obtain ⟨hsame, ⟨x, hx, hprov⟩, htold⟩ := huses panel hpanel
  obtain ⟨screen', hscreen', hdocuments⟩ := (d.world.onScreen_iff _ _).mp henabled.2
  obtain rfl : screen' = screen := Option.some.inj (hscreen'.symm.trans hscreen)
  rw [hfor.prov] at hprov
  obtain ⟨y, hy, hyq, hprice⟩ := fetchPrice_mem ⟨x, hx, (Option.some.inj hprov).symm⟩
  obtain ⟨hstored, htask⟩ := (d.world.store.offers.mem_whereEqualTo _ _ y).mp
    (hdocuments.mem_iff.mp hy)
  have hyprov : panel.prov = some y.data.provider := by rw [hfor.prov, hyq]
  refine ⟨y, ⟨(provenance hd).offers y hstored, htask, hyq, htold y hy hyprov⟩, ?_⟩
  rw [hsame, hfor.prov, hprice]

theorem panelsFit_step {u : Detailed × (SessionId → Option DocId)} {action : Detailed.Action}
    (hu : Reachable app u.1.world) (h : PanelsFit u.1) (hsetters : SettersFit u)
    (henabled : traced.Enabled u action) (huses : UsesOwn u action) :
    PanelsFit (traced.perform u action).1 := by
  obtain ⟨d, tasks⟩ := u
  cases action with
  | app a => exact h.performApp henabled
  | build i => exact panelsFit_build h hsetters huses
  | fetchUsername i =>
      refine h.withPanel fun panel screen q _ _ hfor => ⟨hfor.prov, hfor.accepted, ?_, hfor.phone,
        hfor.price⟩
      intro name hname
      obtain ⟨user, huser, rfl⟩ := Option.map_eq_some_iff.mp hname
      exact ⟨user, hfor.user ▸ huser, rfl⟩
  | fetchRate i =>
      exact h.withPanel fun panel screen q _ _ hfor => ⟨hfor.prov, hfor.accepted, hfor.name,
        hfor.phone, hfor.price⟩
  | fetchPhone i =>
      refine h.withPanel fun panel screen q _ _ hfor => ⟨hfor.prov, hfor.accepted, hfor.name, ?_,
        hfor.price⟩
      intro phone hphone
      obtain ⟨user, huser, rfl⟩ := Option.map_eq_some_iff.mp hphone
      exact ⟨user, hfor.user ▸ huser, rfl⟩
  | fetchPrice i documents => exact panelsFit_fetchPrice hu h henabled huses

/-! ## Whom a run names -/

theorem fits {trace : List ((Detailed × (SessionId → Option DocId)) × Detailed.Action)}
    {u : Detailed × (SessionId → Option DocId)} (run : Run traced traced.init trace u)
    (huses : Meets UsesOwn trace) : SettersFit u ∧ PanelsFit u.1 := by
  refine run.invariant_init (I := fun u => SettersFit u ∧ PanelsFit u.1) huses ⟨nofun, nofun⟩ ?_
  intro v action hv h henabled hstep
  exact ⟨settersFit_step h.1 henabled,
    panelsFit_step (reachable_world hv) h.2 h.1 henabled hstep⟩

theorem mem_rate_rated {furniture : Furniture} {snapshot : Option (List (Doc Rate))}
    {provider : Uid} {rating : Stars} {c : Call} (hc : c ∈ rate furniture snapshot provider rating)
    {q : Uid} (hq : q ∈ c.write.rated?) : q = provider := by
  simp only [rate, List.mem_cons, List.not_mem_nil, or_false] at hc
  rcases hc with rfl | rfl <;> exact (Option.some.inj hq).symm

/-- Rate writes the variable, which was set for the rated task. -/
theorem ratesAccepted_step {u : Detailed × (SessionId → Option DocId)} {action : Detailed.Action}
    (hu : Reachable app u.1.world) (hsetters : SettersFit u) (henabled : traced.Enabled u action)
    (huses : UsesOwn u action) : RatesAccepted u.1 action := by
  cases action with
  | app a =>
      cases a with
      | process k input =>
          intro p hp r hr c hc q hq
          obtain ⟨p', hp', hinput, hreads⟩ := (u.1.world.onProcess_iff k _).mp henabled
          obtain rfl : p' = p := Option.some.inj (hp'.symm.trans hp)
          obtain ⟨uid, handler⟩ := p'
          cases handler with
          | ratingDialog session furniture snapshot =>
              obtain rfl : (session, furniture) = r := Option.some.inj hr
              cases input with
              | rate provider rating =>
                  obtain ⟨q', hq', haccepted⟩ := hsetters session _ (huses _ hp _ hr)
                  obtain rfl : q' = provider := Option.some.inj (hq'.symm.trans hreads.1)
                  obtain rfl : q = q' := mem_rate_rated hc hq
                  exact haccepted.offer hu
              | _ => exact absurd hc List.not_mem_nil
          | _ => exact absurd hr nofun
      | _ => trivial
  | _ => trivial

theorem Panel.details_eq_some {panel : Panel} {details : Details}
    (h : panel.details = some details) :
    panel.name = some details.name ∧ panel.phone = some details.phone ∧
      panel.price = some details.price := by
  unfold Panel.details at h
  split at h
  · rename_i hname hrate hphone hprice
    obtain rfl := Option.some.inj h
    exact ⟨hname, hphone, hprice⟩
  · simp at h

theorem PanelsFit.showsAccepted {d : Detailed} (h : PanelsFit d) : ShowsAccepted d := by
  intro i t details hshows
  obtain ⟨hscreen, hpanel⟩ := hshows
  obtain ⟨screen, hget, -, rfl⟩ := (d.world.onScreen_iff i _).mp hscreen
  obtain ⟨panel, hpanel, hdetails⟩ := Option.bind_eq_some_iff.mp hpanel
  obtain ⟨hname, hphone, hprice⟩ := Panel.details_eq_some hdetails
  obtain ⟨screen', q, hget', hfor⟩ := h i panel hpanel
  obtain rfl : screen' = screen := Option.some.inj (hget'.symm.trans hget)
  obtain ⟨user, huser, hname⟩ := hfor.name _ hname
  obtain ⟨user', huser', hphone⟩ := hfor.phone _ hphone
  obtain rfl : user = user' := Option.some.inj (huser.symm.trans huser')
  obtain ⟨x, hx, hprice⟩ := hfor.price _ hprice
  exact ⟨q, user, x, huser, hx, hname, hphone, hprice⟩

/-- Ratings go to a provider accepted on the rated task, and a screen shows the data of a
provider accepted on its task with the accepted price, in every run in which `provider` is used
only for the task for which it was last set. -/
theorem details_own {trace : List ((Detailed × (SessionId → Option DocId)) × Detailed.Action)}
    {u : Detailed × (SessionId → Option DocId)} (run : Run traced traced.init trace u)
    (huses : Meets UsesOwn trace) :
    Meets (fun v => RatesAccepted v.1) trace ∧ ShowsAccepted u.1 := by
  constructor
  · rintro ⟨v, action⟩ hmem
    obtain ⟨front, back, rfl, hfront, henabled, -⟩ := run.split hmem
    obtain ⟨hmeets, hrest⟩ := (meets_append _ _ _).mp huses
    exact ratesAccepted_step (reachable_world ⟨front, hfront⟩) (fits hfront hmeets).1 henabled
      (hrest _ List.mem_cons_self)
  · exact (fits run huses).2.showsAccepted

namespace Scenario

def otherTask : Doc Task := { task with id := 1 }

def otherOffer : Doc Offer := ⟨1, ⟨1, 3, 1, seventy⟩⟩

/-- The notifications of the other task, as far as they are stored. -/
def otherNotifs : List (Doc Notif) :=
  [⟨1, ⟨1, 1, .added, true⟩⟩, ⟨3, ⟨3, 1, .accepted, true⟩⟩]

def bothPosted : List Oun.Action :=
  posted ++ [.sendNewTask 0 title title .riyadh .maintenance, .write 1]

/-- The first offer on the task. -/
def offersFirst (session screen process : ℕ) (t : Doc Task) (price : Text) : List Oun.Action :=
  [.openScreen session t, .isAccepted screen [], .pressOffer screen,
    .process process (.offers []), .process process (.add price), .write process, .write process]

/-- The owner accepts the only offer on the task. -/
def acceptsOnly (screen process : ℕ) (t : Doc Task) (d : Doc Offer) (notifs : List (Doc Notif)) :
    List Oun.Action :=
  [.openScreen 0 t, .isAccepted screen notifs, .offersEvent screen [d], .pressAccept screen d,
    .process process .ok, .process process (.offers [d]), .write process]

/-- The owner has accepted one provider on each of two tasks. -/
def twoAccepted : List Oun.Action :=
  bothPosted ++ offersFirst 2 0 2 task sixty ++ offersFirst 3 1 3 otherTask seventy ++
    acceptsOnly 2 4 task (offer 0 2 sixty) [added 0] ++
    acceptsOnly 3 5 otherTask otherOffer (otherNotifs.take 1)

def otherOpened (screen : ℕ) : List Oun.Action :=
  [.openScreen 0 otherTask, .isAccepted screen otherNotifs]

def otherFetched (screen : ℕ) : List Detailed.Action :=
  [.build screen, .fetchUsername screen, .fetchRate screen, .fetchPhone screen,
    .fetchPrice screen [otherOffer]]

def starsChosen (screen : ℕ) : List Oun.Action :=
  [.israted screen [], .rateEvent screen [], .pressRate screen five]

/-- The owner opens the other task and rates its provider. -/
def rightRating : List Detailed.Action :=
  List.map .app (twoAccepted ++ otherOpened 4) ++ otherFetched 4 ++
    List.map .app (starsChosen 4 ++ [.process 6 (.rate 3 five)])

/-- The owner opens the first task before, and closes it at once. -/
def wrongRating : List Detailed.Action :=
  List.map .app (twoAccepted ++ [.openScreen 0 task, .closeScreen 4] ++ otherOpened 5 ++
    starsChosen 5 ++ [.isAccepted 4 [added 0, notif 2 2 .accepted]])

end Scenario

/-- Without another screen in between, the screen shows the details of the accepted provider,
who then gets the rating. -/
theorem details_own_rightRating :
    (traced.final traced.init Scenario.rightRating).1.Shows 4 1
        ⟨Scenario.profile.name, .value 0, Scenario.profile.phone, Scenario.seventy⟩ ∧
      Meets (fun v => RatesAccepted v.1) (traced.steps traced.init Scenario.rightRating) ∧
        ShowsAccepted (traced.final traced.init Scenario.rightRating).1 :=
  ⟨by decide +kernel,
    details_own (traced.run_steps _ Scenario.rightRating (by decide +kernel)) (by decide +kernel)⟩

/-- A closed screen's `isAccepted()` completes while the rating dialog of another task is open:
the rating goes to a user who has made no offer on the task. -/
theorem wrong_rating_reachable : ¬ ∀ u action, Reachable traced u → traced.Enabled u action →
    RatesAccepted u.1 action := by
  intro h
  have hrated := h (traced.final traced.init Scenario.wrongRating)
    (.app (.process 6 (.rate 2 Scenario.five)))
    ⟨_, traced.run_steps _ Scenario.wrongRating (by decide +kernel)⟩ (by decide +kernel)
    ⟨1, .ratingDialog 0 (.ofDoc Scenario.otherTask) (some [])⟩ (by decide +kernel) _ rfl
    ⟨.addRate ⟨Scenario.five, 1, 2⟩, false, none⟩ (by decide +kernel) 2 rfl
  obtain ⟨d, ⟨e, he, hwrite, -⟩, htask, hprovider, -⟩ := hrated
  have hnone : ∀ e ∈ (traced.final traced.init Scenario.wrongRating).1.world.log,
      ∀ o ∈ e.call.write.offer?, ¬ (o.task = 1 ∧ o.provider = 2) := by
    decide +kernel
  exact hnone e he d.data (by simp [hwrite, Write.offer?]) ⟨htask, hprovider⟩

end Oun
