import Oun.Model.Lists
import Oun.Verification.Roles.References

/-! # Every entry of every list is built

The entries read documents that their own documents name. Tasks are never removed, so that an
entry finds its task whenever its snapshot arrives. -/

namespace Oun

open Firestore Regex Numeral Transition

/-! ## Tasks and tiles -/

theorem taskDoc_of_mem {s : Store} {t : Doc Task} (ht : t ∈ s.tasks.docs) :
    taskDoc s t.id = some t := by
  cases hfind : taskDoc s t.id with
  | none => simpa using List.find?_eq_none.mp hfind t ht
  | some d =>
      have hid : d.id = t.id := by simpa using List.find?_some hfind
      rw [s.tasks.eq_of_id_eq (List.mem_of_find?_eq_some hfind) ht hid]

theorem Tile.ofSnapshot_taskDoc {s : Store} {t : Doc Task} (ht : t ∈ s.tasks.docs)
    (price : Text) : Tile.ofSnapshot price (taskDoc s t.id) = .ok (.ofDoc price t) := by
  rw [taskDoc_of_mem ht]
  rfl

theorem notice_taskDoc {s : Store} {t : Doc Task} (ht : t ∈ s.tasks.docs) (n : Notif)
    (hn : n.task = t.id) :
    notice n (taskDoc s n.task) = .ok (.ofDoc (text ['3', '3']) t, n.status.type) := by
  rw [hn, notice, Tile.ofSnapshot_taskDoc ht]
  rfl

theorem Tile.id_eq {price price' : Text} {t t' : Doc Task}
    (h : Tile.ofDoc price t = Tile.ofDoc price' t') : t.id = t'.id :=
  congrArg (fun tile => tile.furniture.id) h

/-- The pictures of the categories. -/
def pictures : List Text :=
  [text ['C', 'o', 'n', 's', 't', 'r', 'u', 'c', 't', 'i', 'o', 'n'],
    text ['E', 'r', 'r', 'a', 'n', 'd', 's'], text ['F', 'o', 'o', 'd'], text ['I', 'T'],
    text ['O', 't', 'h', 'e', 'r'], text ['T', 'r', 'a', 'n', 's', 'p', 'o', 'r', 't'],
    text ['m', 'a', 'i', 'n', 't', 'e', 'n', 'a', 'n', 'c', 'e']].map picture

theorem Tile.image_mem (price : Text) (t : Doc Task) : (Tile.ofDoc price t).image ∈ pictures := by
  have h : ∀ c : Category, imgToJpg c.name ∈ pictures := by
    intro c
    cases c <;> decide
  exact h t.data.category

/-! ## Tabs -/

theorem Category.name_injective : Function.Injective Category.name := by
  intro c c' h
  cases c <;> cases c' <;> first | rfl | exact absurd h (by decide)

theorem Category.trim_name (c : Category) : trim c.name = c.name := by
  cases c <;> decide

def Category.order : List Category :=
  [.errands, .computersAndIT, .construction, .maintenance, .food, .transport, .otherTasks]

theorem tabs_eq : tabs = getAll :: Category.order.map fun c => getByCategory c.name := rfl

/-- The text for an empty list is never built, since an empty list has no entries. -/
theorem itemBuilder_tasks {v : FurnitureListView} (hoffer : v.offer = none)
    (docs : List (Doc Task)) :
    (docs.map Document.task).map (v.itemBuilder (docs.map Document.task).length) =
      docs.map fun t => .ok (.task (.ofDoc [] t)) := by
  rw [List.map_map, List.length_map]
  refine List.map_congr_left fun t ht => ?_
  have hlength : docs.length > 0 := List.length_pos_of_mem ht
  simp only [Function.comp_apply, FurnitureListView.itemBuilder, hlength, hoffer, and_self,
    ite_true]

theorem build_getAll (s : Store) :
    getAll.build s = s.tasks.docs.map fun t => .ok (.task (.ofDoc [] t)) :=
  itemBuilder_tasks rfl _

theorem build_getByCategory (c : Category) (s : Store) :
    (getByCategory c.name).build s =
      (s.tasks.whereEqualTo Task.category c).map fun t => .ok (.task (.ofDoc [] t)) := by
  have hquery : (getByCategory c.name).mainstream s =
      (s.tasks.whereEqualTo Task.category c).map .task := by
    simp [FurnitureListView.mainstream, getByCategory, c.trim_name, Collection.whereEqualTo,
      Category.name_injective.eq_iff]
  rw [FurnitureListView.build, hquery]
  exact itemBuilder_tasks rfl _

theorem build_getOffers (furniture : Furniture) (s : Store) :
    (getOffers furniture).build s =
      (s.offers.whereEqualTo Offer.task furniture.id).map fun d => .ok (.offer (.ofDoc d)) := by
  simp only [FurnitureListView.build, FurnitureListView.mainstream, getOffers, ite_true,
    List.map_map, List.length_map]
  refine List.map_congr_left fun d hd => ?_
  have hlength : (s.offers.whereEqualTo Offer.task furniture.id).length > 0 :=
    List.length_pos_of_mem hd
  simp [FurnitureListView.itemBuilder, hlength]

theorem count_tiles {docs : List (Doc Task)} (hnodup : docs.Nodup) {t : Doc Task}
    (hunique : ∀ d ∈ docs, d.id = t.id → d = t) :
    (docs.map fun d => (.ok (.task (.ofDoc [] d)) : Except StateError Entry)).count
      (.ok (.task (.ofDoc [] t))) = if t ∈ docs then 1 else 0 := by
  have hentry : ∀ d ∈ docs, ((.ok (.task (.ofDoc [] d)) : Except StateError Entry) ==
      .ok (.task (.ofDoc [] t))) = (d == t) := by
    intro d hd
    rw [beq_eq_beq]
    constructor
    · intro h
      exact hunique d hd (Tile.id_eq (Entry.task.inj (Except.ok.inj h)))
    · exact fun h => h ▸ rfl
  rw [List.count, List.countP_map, ← hnodup.count]
  exact List.countP_congr fun d hd => by rw [Function.comp_apply, hentry d hd]

/-- A task has one entry under All and one under its own category. -/
theorem count_tabs {s : Store} {t : Doc Task} (ht : t ∈ s.tasks.docs) :
    tabs.map (fun tab => (tab.build s).count (.ok (.task (.ofDoc [] t)))) =
      1 :: Category.order.map fun c => if t.data.category = c then 1 else 0 := by
  have hunique : ∀ d ∈ s.tasks.docs, d.id = t.id → d = t := fun d hd => s.tasks.eq_of_id_eq hd ht
  rw [tabs_eq, List.map_cons, build_getAll, count_tiles s.tasks.nodup_docs hunique, if_pos ht,
    List.map_map]
  congr 1
  refine List.map_congr_left fun c _ => ?_
  have hsub : ∀ d ∈ s.tasks.whereEqualTo Task.category c, d.id = t.id → d = t := fun d hd =>
    hunique d ((s.tasks.mem_whereEqualTo Task.category c d).mp hd).1
  rw [Function.comp_apply, build_getByCategory, count_tiles (s.tasks.nodup_whereEqualTo _ _) hsub]
  simp [ht]

/-! ## All lists -/

/-- The lists of a user in `w`, when the snapshots of single tasks are those of `w'`: no entry
throws, and every entry shows a task of the kind that its list promises. -/
structure ListsBuilt (w w' : World) (uid : Uid) : Prop where
  tabs : ∀ tab ∈ tabs, ∀ entry ∈ tab.build w.store,
    ∃ t ∈ w.store.tasks.docs, entry = .ok (.task (.ofDoc [] t))
  tabbed : ∀ t ∈ w.store.tasks.docs,
    Oun.tabs.map (fun tab => (tab.build w.store).count (.ok (.task (.ofDoc [] t)))) =
      1 :: Category.order.map fun c => if t.data.category = c then 1 else 0
  getOffers : ∀ furniture, ∀ entry ∈ (getOffers furniture).build w.store,
    ∃ d ∈ w.store.offers.docs, entry = .ok (.offer (.ofDoc d)) ∧ d.data.task = furniture.id
  notifi : ∀ documents, documents.Perm (w.store.notifs.whereEqualTo Notif.user uid) →
    ∀ entry ∈ notifi documents w'.store, ∃ t ∈ w.store.tasks.docs, ∃ status,
      entry = .ok (.ofDoc (text ['3', '3']) t, Status.type status) ∧
        (status = .added ↔ t.data.author = uid) ∧
        (status ≠ .added → HasSubmitted w.log uid t.id)
  myTasks : ∀ documents, documents.Perm (w.store.tasks.whereEqualTo Task.author uid) →
    ∀ entry ∈ myTasks uid documents w'.store, ∃ t ∈ w.store.tasks.docs, ∃ shown,
      entry = (.ofDoc [] t, some shown) ∧ t.data.author = uid
  myOffers : ∀ documents, documents.Perm (w.store.offers.whereEqualTo Offer.provider uid) →
    ∀ entry ∈ myOffers documents w'.store, ∃ t ∈ w.store.tasks.docs,
      entry = .ok (.ofDoc [] t) ∧ t.data.author ≠ uid
  pictures : ∀ price t, (Tile.ofDoc price t).image ∈ pictures

theorem tasks_run {w w' : World} {trace : List (World × Action)} (run : Run app w trace w') :
    w.store.tasks.docs ⊆ w'.store.tasks.docs :=
  run.invariant (C := fun _ _ => True) (I := fun u => w.store.tasks.docs ⊆ u.store.tasks.docs)
    (fun _ _ => trivial) (List.Subset.refl _) fun _ _ hu ha _ _ hd =>
      (extends_perform ha).tasks _ (hu hd)

theorem Provenance.added {w : World} (hw : Provenance w) {d : Doc Notif}
    (hd : d ∈ w.store.notifs.docs) (hstatus : d.data.status = .added) :
    HasTask w.store d.data.task d.data.user := by
  obtain ⟨e, he, hwrite, -⟩ := hw.notifs d hd
  have hproper := hw.log e he
  simpa only [Call.Proper, hwrite, hstatus] using hproper

theorem mem_tabs_build {s : Store} {tab : FurnitureListView} (htab : tab ∈ tabs)
    {entry : Except StateError Entry} (h : entry ∈ tab.build s) :
    ∃ t ∈ s.tasks.docs, entry = .ok (.task (.ofDoc [] t)) := by
  rw [tabs_eq, List.mem_cons, List.mem_map] at htab
  rcases htab with rfl | ⟨c, -, rfl⟩
  · rw [build_getAll, List.mem_map] at h
    obtain ⟨t, ht, rfl⟩ := h
    exact ⟨t, ht, rfl⟩
  · rw [build_getByCategory, List.mem_map] at h
    obtain ⟨t, ht, rfl⟩ := h
    exact ⟨t, (Collection.mem_whereEqualTo _ _ _ _ |>.mp ht).1, rfl⟩

/-- In every reachable state all entries of all lists are built, however much later the
snapshots of single tasks arrive. -/
theorem lists_built {w w' : World} {trace : List (World × Action)} (hw : Reachable app w)
    (run : Run app w trace w') (uid : Uid) : ListsBuilt w w' uid where
  tabs tab htab entry h := mem_tabs_build htab h
  tabbed t ht := count_tabs ht
  getOffers furniture entry h := by
    rw [build_getOffers, List.mem_map] at h
    obtain ⟨d, hd, rfl⟩ := h
    obtain ⟨hd, htask⟩ := (Collection.mem_whereEqualTo _ _ _ _).mp hd
    exact ⟨d, hd, rfl, htask⟩
  notifi documents hdocuments entry h := by
    obtain ⟨d, hd, rfl⟩ := List.mem_map.mp h
    obtain ⟨hd, huser⟩ := (Collection.mem_whereEqualTo _ _ _ _).mp (hdocuments.mem_iff.mp hd)
    have hrow : ∀ t ∈ w.store.tasks.docs, t.id = d.data.task →
        notice d.data (taskDoc w'.store d.data.task) =
          .ok (.ofDoc (text ['3', '3']) t, d.data.status.type) := fun t ht hid =>
      notice_taskDoc (tasks_run run ht) d.data hid.symm
    by_cases hstatus : d.data.status = .added
    · obtain ⟨t, ht, hid, hauthor⟩ := (provenance hw).added hd hstatus
      exact ⟨t, ht, _, hrow t ht hid, iff_of_true hstatus (hauthor.trans huser), absurd hstatus⟩
    · obtain ⟨author, ⟨t, ht, hid, hauthor⟩, -, hne, hsubmitted⟩ :=
        (provenance hw).verdict hd hstatus
      refine ⟨t, ht, _, hrow t ht hid, iff_of_false hstatus ?_, fun _ => ?_⟩
      · rw [hauthor, ← huser]
        exact hne.symm
      · rwa [hid, ← huser]
  myTasks documents hdocuments entry h := by
    obtain ⟨t, ht, rfl⟩ := List.mem_map.mp h
    obtain ⟨ht, hauthor⟩ := (Collection.mem_whereEqualTo _ _ _ _).mp (hdocuments.mem_iff.mp ht)
    exact ⟨t, ht, _, by rw [chips, if_pos hauthor], hauthor⟩
  myOffers documents hdocuments entry h := by
    obtain ⟨d, hd, rfl⟩ := List.mem_map.mp h
    obtain ⟨hd, hprovider⟩ := (Collection.mem_whereEqualTo _ _ _ _).mp (hdocuments.mem_iff.mp hd)
    obtain ⟨⟨t, ht, hid, hauthor⟩, hne⟩ :=
      (provenance hw).submitted ((provenance hw).offers d hd)
    refine ⟨t, ht, ?_, ?_⟩
    · rw [← hid, Tile.ofSnapshot_taskDoc (tasks_run run ht)]
    · rw [hauthor, ← hprovider]
      exact hne.symm
  pictures := Tile.image_mem

namespace Scenario

/-- What the losing provider does after the acceptance. -/
def reporting : List Action :=
  [.pressReport 1, .process 4 (.violations []), .process 4 (.submit .spam), .write 4]

end Scenario

/-- All three kinds of notifications are listed after an acceptance. -/
theorem lists_built_reporting :
    (app.final app.init Scenario.oneAccept).store.notifs.docs.map
        (fun d => (d.data.user, d.data.status)) =
      [(1, .added), (1, .added), (3, .rejected), (2, .accepted)] ∧
      ∀ uid, ListsBuilt (app.final app.init Scenario.oneAccept)
        (app.final (app.final app.init Scenario.oneAccept) Scenario.reporting) uid := by
  have hfirst := app.run_steps app.init Scenario.oneAccept (by decide +kernel)
  have hsecond := app.run_steps (app.final app.init Scenario.oneAccept) Scenario.reporting
    (by decide +kernel)
  exact ⟨by decide +kernel, fun uid => lists_built ⟨_, hfirst⟩ hsecond uid⟩

end Oun
