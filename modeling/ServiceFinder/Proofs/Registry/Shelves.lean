/-
  ServiceFinder/Proofs/Registry/Shelves.lean
  ==========================================
  **A local registry serves what its log tells.**

  Whatever is done about a service, as a document defines it or at runtime, can be written down
  as a `Deed`.  From the deeds alone it can be told which version slots the service has
  (`labels`), which instance was posted to which of them and has not been withdrawn (`postings`),
  and hence what a lookup answers: slot after slot, and within a slot in the order of posting
  (`served`).  The registry with its nested groups follows the log of each service (`Follows`),
  and nothing that is done about one service is in the log of another.
-/
import ServiceFinder.Proofs.Registry.Local

namespace ServiceFinder

namespace LocalRegistry

/-! ### What is done to a registry -/

/-- A definition is read, or something is done at runtime. -/
inductive Event where
  | define (service : String) (d : ServiceDefinition)
  | mutate (m : Mutation)
deriving DecidableEq, Repr

/-- The application and the service that a mutation is about. -/
def Mutation.name : Mutation → String × String
  | register app service _ _ | unregister app service _ | remove app service => (app, service)

def Event.name : Event → String × String
  | define service d => (d.appName, service)
  | mutate m => m.name

def perform (r : LocalRegistry) : Event → LocalRegistry
  | .define service d => r.define service d
  | .mutate m => r.mutate m

def performAll (r : LocalRegistry) (es : List Event) : LocalRegistry := es.foldl perform r

/-- All definitions of a document, and then a run. -/
def history (ds : List (String × ServiceDefinition)) (ms : List Mutation) : List Event :=
  ds.map (fun d => .define d.1 d.2) ++ ms.map .mutate

theorem performAll_history (ids : Nat → String) (ds : List (String × ServiceDefinition))
    (ms : List Mutation) :
    performAll { ids } (history ds ms) = (ofDefinitions ids ds).mutateAll ms := by
  simp only [performAll, history, List.foldl_append, List.foldl_map]
  rfl

/-- The slot that a definition adds, with the ids that it gets. -/
def slotFor (r : LocalRegistry) (d : ServiceDefinition) : VersionSlot × LocalRegistry :=
  let (serviceId, r) := match d.id with
    | some id => (id, r)
    | none => r.newId
  let (instances, r) := r.newInstances serviceId d.instances
  ({ serviceId, version := d.version, instances }, r)

/-! ### Logs -/

/-- What was done about one service. -/
inductive Deed where
  /-- A definition added a slot. -/
  | defined (slot : VersionSlot)
  /-- An instance of a version was registered. -/
  | registered (version : String) (server : Instance)
  | unregistered (instanceId : String)
  | removed
deriving DecidableEq, Repr

namespace Deed

/-- After this the service is there. -/
def adds : Deed → Bool
  | defined _ | registered _ _ => true
  | unregistered _ | removed => false

/-- The instances that come with a deed. -/
def brings : Deed → List Instance
  | defined slot => slot.instances
  | registered _ server => [server]
  | unregistered _ | removed => []

end Deed

def deedOf (r : LocalRegistry) : Event → Deed
  | .define _ d => .defined (r.slotFor d).1
  | .mutate (.register app service version endpoints) =>
    .registered version (r.register app service version endpoints).1
  | .mutate (.unregister _ _ instanceId) => .unregistered instanceId
  | .mutate (.remove _ _) => .removed

/-- What is done about one service, latest first. -/
def logOf (name : String × String) (r : LocalRegistry) : List Event → List Deed
  | [] => []
  | e :: es => logOf name (r.perform e) es ++ if e.name = name then [r.deedOf e] else []

theorem logOf_concat (name : String × String) (r : LocalRegistry) (es : List Event) (e : Event) :
    logOf name r (es ++ [e]) =
      (if e.name = name then [(r.performAll es).deedOf e] else []) ++ logOf name r es := by
  induction es generalizing r with
  | nil => simp [logOf, performAll]
  | cons e' es ih =>
    rw [List.cons_append, logOf, ih, List.append_assoc]
    rfl

/-- A version slot as it was made. -/
structure Label where
  version : String
  serviceId : String
deriving DecidableEq, Repr

/-- The slots of a service since it was last removed: one for each definition, and one for each
    version that was registered when no slot had it. -/
def labels : List Deed → List Label
  | [] | .removed :: _ => []
  | .defined slot :: before => labels before ++ [⟨slot.version, slot.serviceId⟩]
  | .registered version server :: before =>
    if (labels before).any (·.version == version) then labels before
    else labels before ++ [⟨version, server.serviceId⟩]
  | .unregistered _ :: before => labels before

/-- An instance and the number of its slot. -/
structure Posting where
  slot : Nat
  server : Instance
deriving DecidableEq, Repr

/-- The instances that were posted since the service was last removed and not withdrawn, in the
    order of posting.  A registration goes to the first slot of its version. -/
def postings : List Deed → List Posting
  | [] | .removed :: _ => []
  | .defined slot :: before => postings before ++ slot.instances.map (⟨(labels before).length, ·⟩)
  | .registered version server :: before =>
    postings before ++ [⟨(labels before).findIdx (·.version == version), server⟩]
  | .unregistered instanceId :: before =>
    (postings before).filter (·.server.instanceId != instanceId)

/-- What was posted to one slot. -/
def posted (log : List Deed) (k : Nat) : List Instance :=
  ((postings log).filter (·.slot == k)).map (·.server)

/-- The slots with what was posted to them. -/
def shelves (log : List Deed) : List VersionSlot :=
  (labels log).mapIdx fun k label =>
    { serviceId := label.serviceId, version := label.version, instances := posted log k }

/-- What the log says that a lookup answers: slot after slot, in the order of posting. -/
def served (log : List Deed) : List Instance :=
  (List.range (labels log).length).flatMap (posted log)

/-- The instance came with a deed, and since then neither it nor the service was taken out. -/
def Standing (i : Instance) (log : List Deed) : Prop :=
  ∃ later deed earlier, log = later ++ deed :: earlier ∧ i ∈ deed.brings ∧
    ∀ x ∈ later, x ≠ .removed ∧ x ≠ .unregistered i.instanceId

section Logs

variable {slot : VersionSlot} {version instanceId : String} {server i : Instance} {deed : Deed}
  {log : List Deed} {k : Nat}

theorem slot_lt {p : Posting} (h : p ∈ postings log) : p.slot < (labels log).length := by
  induction log with
  | nil => cases h
  | cons deed before ih =>
    cases deed with
    | defined slot =>
      rw [labels, List.length_append, List.length_singleton]
      rcases List.mem_append.mp h with h | h
      · exact Nat.lt_succ_of_lt (ih h)
      · obtain ⟨server, -, rfl⟩ := List.mem_map.mp h
        exact Nat.lt_succ_self _
    | registered version server =>
      rw [labels]
      rcases List.mem_append.mp h with h | h
      · have hlt := ih h
        split
        · exact hlt
        · rw [List.length_append]
          exact Nat.lt_add_right _ hlt
      · cases List.mem_singleton.mp h
        split
        · rename_i hany
          exact List.findIdx_lt_length_of_exists (by simpa using hany)
        · rw [List.length_append, List.length_singleton]
          exact Nat.lt_succ_of_le List.findIdx_le_length
    | unregistered instanceId => exact ih (List.mem_filter.mp h).1
    | removed => cases h

theorem posted_eq_nil (h : (labels log).length ≤ k) : posted log k = [] := by
  rw [posted, List.filter_eq_nil_iff.mpr, List.map_nil]
  intro p hp hk
  exact absurd (beq_iff_eq.mp hk ▸ slot_lt hp) (Nat.not_lt.mpr h)

theorem posted_defined :
    posted (.defined slot :: log) k =
      posted log k ++ if k = (labels log).length then slot.instances else [] := by
  simp only [posted, postings, List.filter_append, List.map_append]
  congr 1
  split
  · rename_i hk
    rw [List.filter_eq_self.mpr (by simp [hk])]
    simp [Function.comp_def]
  · rename_i hk
    rw [List.filter_eq_nil_iff.mpr (by simpa using fun _ _ h => hk h.symm), List.map_nil]

theorem posted_registered :
    posted (.registered version server :: log) k =
      posted log k ++ if k = (labels log).findIdx (·.version == version) then [server] else [] := by
  simp only [posted, postings, List.filter_append, List.map_append]
  congr 1
  split
  · rename_i hk
    simp [hk]
  · rename_i hk
    simpa using fun h => hk h.symm

theorem posted_unregistered :
    posted (.unregistered instanceId :: log) k =
      (posted log k).filter (·.instanceId != instanceId) := by
  simp only [posted, postings, List.filter_map, List.filter_filter, Function.comp_def]
  congr 2
  funext p
  exact Bool.and_comm ..

theorem shelves_defined : shelves (.defined slot :: log) = shelves log ++ [slot] := by
  simp only [shelves, labels, List.mapIdx_concat]
  congr 1
  · rw [List.mapIdx_eq_mapIdx_iff]
    intro k hk
    rw [posted_defined, if_neg (Nat.ne_of_lt hk), List.append_nil]
  · rw [posted_defined, if_pos rfl, posted_eq_nil (Nat.le_refl _)]
    rfl

theorem findIdx_of_new (h : (labels log).any (·.version == version) = false) :
    (labels log).findIdx (·.version == version) = (labels log).length := by
  rw [List.findIdx_eq_length]
  simpa using h

/-- A registration of a new version adds a slot. -/
theorem shelves_registered_new (h : (labels log).any (·.version == version) = false) :
    shelves (.registered version server :: log) =
      shelves log ++ [{ serviceId := server.serviceId, version, instances := [server] }] := by
  simp only [shelves, labels, h, Bool.false_eq_true, if_false, List.mapIdx_concat]
  congr 1
  · rw [List.mapIdx_eq_mapIdx_iff]
    intro k hk
    rw [posted_registered, findIdx_of_new h, if_neg (Nat.ne_of_lt hk), List.append_nil]
  · rw [posted_registered, findIdx_of_new h, if_pos rfl, posted_eq_nil (Nat.le_refl _)]
    rfl

/-- Adding to the first slot of a version changes the slot of that number. -/
theorem addToFirst_eq_modify (version : String) (server : Instance) (slots : List VersionSlot) :
    ServiceGroup.addToFirst version server slots =
      slots.modify (slots.findIdx (·.version == version))
        fun s => { s with instances := s.instances ++ [server] } := by
  induction slots with
  | nil => rfl
  | cons s rest ih =>
    rw [ServiceGroup.addToFirst, List.findIdx_cons]
    by_cases h : s.version = version
    · simp [h]
    · rw [if_neg h, ih, beq_false_of_ne h, cond_false, List.modify_succ_cons]

theorem findIdx_shelves (version : String) (log : List Deed) :
    (shelves log).findIdx (·.version == version) = (labels log).findIdx (·.version == version) := by
  have hversions : (shelves log).map (·.version) = (labels log).map (·.version) := by
    refine List.ext_getElem? fun k => ?_
    simp only [shelves, List.getElem?_map, List.getElem?_mapIdx, Option.map_map]
    rfl
  have hfind := congrArg (List.findIdx (· == version)) hversions
  simpa [List.findIdx_map, Function.comp_def] using hfind

theorem serviceId_find?_shelves (version : String) (log : List Deed) :
    ((shelves log).find? (·.version == version)).map (·.serviceId) =
      ((labels log).find? (·.version == version)).map (·.serviceId) := by
  rw [List.find?_eq_getElem?_findIdx, List.find?_eq_getElem?_findIdx, findIdx_shelves, shelves,
    List.getElem?_mapIdx, Option.map_map]
  rfl

theorem any_of_find? {label : Label} (h : (labels log).find? (·.version == version) = some label) :
    (labels log).any (·.version == version) = true :=
  List.any_eq_true.mpr (List.find?_isSome.mp (by rw [h, Option.isSome_some]))

/-- Any other registration joins the first slot of its version. -/
theorem shelves_registered_old (h : (labels log).any (·.version == version) = true) :
    shelves (.registered version server :: log) =
      ServiceGroup.addToFirst version server (shelves log) := by
  rw [addToFirst_eq_modify, findIdx_shelves]
  refine List.ext_getElem? fun k => ?_
  simp only [shelves, labels, h, if_true, List.getElem?_modify, List.getElem?_mapIdx,
    posted_registered]
  cases (labels log)[k]? with
  | none => rfl
  | some label =>
    by_cases hk : k = (labels log).findIdx (·.version == version)
    · simp [hk]
    · simp [hk, Ne.symm hk]

theorem shelves_unregistered :
    shelves (.unregistered instanceId :: log) = (shelves log).map fun s =>
      { s with instances := s.instances.filter (·.instanceId != instanceId) } := by
  refine List.ext_getElem? fun k => ?_
  simp only [shelves, labels, posted_unregistered, List.getElem?_map, List.getElem?_mapIdx,
    Option.map_map]
  rfl

theorem flatMap_shelves (log : List Deed) : (shelves log).flatMap (·.instances) = served log := by
  have hrow (row : List Label) (f : Nat → List Instance) :
      (row.mapIdx fun k label =>
        VersionSlot.mk label.serviceId label.version (f k)).flatMap (·.instances) =
          (List.range row.length).flatMap f := by
    induction row generalizing f with
    | nil => rfl
    | cons label rest ih =>
      rw [List.mapIdx_cons, List.flatMap_cons, ih, List.length_cons, List.range_succ_eq_map,
        List.flatMap_cons, List.flatMap_map]
  exact hrow (labels log) (posted log)

theorem shelves_unregistered_of_not_mem (h : ∀ i ∈ served log, i.instanceId ≠ instanceId) :
    shelves (.unregistered instanceId :: log) = shelves log := by
  rw [← flatMap_shelves] at h
  rw [shelves_unregistered]
  refine (List.map_congr_left ?_).trans (List.map_id _)
  intro s hs
  have hkeep : s.instances.filter (·.instanceId != instanceId) = s.instances :=
    List.filter_eq_self.mpr fun i hi => bne_iff_ne.mpr (h i (List.mem_flatMap.mpr ⟨s, hs, hi⟩))
  rw [hkeep]
  rfl

/-- A service has a slot once something was added to it. -/
theorem labels_eq_nil_iff :
    labels log = [] ↔ ∀ deed ∈ log.takeWhile (· ≠ .removed), deed.adds = false := by
  induction log with
  | nil => simp [labels]
  | cons deed before ih =>
    cases deed with
    | defined slot => simp [labels, Deed.adds]
    | registered version server =>
      simp only [labels]
      constructor
      · intro h
        split at h
        · rename_i hany
          rw [h] at hany
          cases hany
        · simp at h
      · intro h
        have hadds := h (.registered version server) (by simp)
        cases hadds
    | unregistered instanceId => simp [labels, ih, Deed.adds]
    | removed => simp [labels]

theorem labels_ne_nil_of_adds (h : deed.adds = true) : labels (deed :: log) ≠ [] := by
  intro hnil
  have hkeep : deed ≠ .removed := by
    rintro rfl
    cases h
  rw [labels_eq_nil_iff, List.takeWhile_cons_of_pos (by simpa using hkeep)] at hnil
  exact absurd (hnil deed List.mem_cons_self) (by rw [h]; nofun)

theorem standing_cons : Standing i (deed :: log) ↔ i ∈ deed.brings ∨
    (deed ≠ .removed ∧ deed ≠ .unregistered i.instanceId) ∧ Standing i log := by
  constructor
  · rintro ⟨later, deed', earlier, heq, hi, hlater⟩
    cases later with
    | nil =>
      cases heq
      exact .inl hi
    | cons x later =>
      cases heq
      exact .inr ⟨hlater _ List.mem_cons_self, later, deed', earlier, rfl, hi,
        fun y hy => hlater y (List.mem_cons_of_mem _ hy)⟩
  · rintro (hi | ⟨hdeed, later, deed', earlier, rfl, hi, hlater⟩)
    · exact ⟨[], deed, log, rfl, hi, by simp⟩
    · refine ⟨deed :: later, deed', earlier, rfl, hi, ?_⟩
      intro x hx
      rcases List.mem_cons.mp hx with rfl | hx
      · exact hdeed
      · exact hlater x hx

theorem mem_postings_iff : (∃ p ∈ postings log, p.server = i) ↔ Standing i log := by
  induction log with
  | nil => simp [postings, Standing]
  | cons deed before ih =>
    rw [standing_cons, ← ih]
    cases deed with
    | defined slot =>
      simp [postings, Deed.brings, or_and_right, exists_or, or_comm]
    | registered version server =>
      simp [postings, Deed.brings, or_and_right, exists_or, or_comm, eq_comm]
    | unregistered instanceId =>
      simp only [postings, Deed.brings, List.mem_filter, bne_iff_ne, List.not_mem_nil, false_or]
      constructor
      · rintro ⟨p, ⟨hp, hid⟩, rfl⟩
        exact ⟨⟨nofun, fun h => hid (Deed.unregistered.inj h).symm⟩, p, hp, rfl⟩
      · rintro ⟨⟨-, hid⟩, p, hp, rfl⟩
        exact ⟨p, ⟨hp, fun h => hid (congrArg _ h.symm)⟩, rfl⟩
    | removed => simp [postings, Deed.brings]

/-- **What is served is what was added and not taken out.** -/
theorem mem_served_iff : i ∈ served log ↔ Standing i log := by
  rw [← mem_postings_iff]
  simp only [served, posted, List.mem_flatMap, List.mem_range, List.mem_map, List.mem_filter,
    beq_iff_eq]
  constructor
  · rintro ⟨k, -, p, ⟨hp, -⟩, hi⟩
    exact ⟨p, hp, hi⟩
  · rintro ⟨p, hp, hi⟩
    exact ⟨p.slot, slot_lt hp, p, ⟨hp, rfl⟩, hi⟩

/-- If no two postings are of one id, nothing is served twice. -/
theorem nodup_served (h : ((postings log).map (·.server.instanceId)).Nodup) :
    ((served log).map (·.instanceId)).Nodup := by
  rw [served, List.map_flatMap, List.nodup_flatMap]
  constructor
  · intro k _
    rw [posted, List.map_map]
    exact (List.filter_sublist.map _).nodup h
  · refine List.nodup_range.pairwise_of_forall_ne fun k _ k' _ hne => ?_
    intro id hk hk'
    simp only [posted, List.mem_map, List.mem_filter, beq_iff_eq] at hk hk'
    obtain ⟨_, ⟨p, ⟨hp, rfl⟩, rfl⟩, rfl⟩ := hk
    obtain ⟨_, ⟨p', ⟨hp', rfl⟩, rfl⟩, hid⟩ := hk'
    -- postings of one id are one posting, which is in one slot
    exact hne (congrArg Posting.slot (List.inj_on_of_nodup_map h hp hp' hid.symm))

end Logs

/-! ### Ids -/

/-- Each of these instances has an id of its own, generated from the `lo`-th on and before the
    `hi`-th. -/
structure Fresh (ids : Nat → String) (lo hi : Nat) (servers : List Instance) : Prop where
  nodup : (servers.map (·.instanceId)).Nodup
  generated : ∀ i ∈ servers, ∃ k, lo ≤ k ∧ k < hi ∧ i.instanceId = ids k

namespace Fresh

variable {ids : Nat → String} {lo hi lo' hi' : Nat} {servers others : List Instance}

theorem nil : Fresh ids lo hi [] := ⟨List.nodup_nil, by simp⟩

theorem singleton {i : Instance} {k : Nat} (h : i.instanceId = ids k) :
    Fresh ids k (k + 1) [i] where
  nodup := List.nodup_singleton _
  generated _ hmem := ⟨k, Nat.le_refl _, Nat.lt_succ_self _, List.mem_singleton.mp hmem ▸ h⟩

theorem widen (h : Fresh ids lo hi servers) (hlo : lo' ≤ lo) (hhi : hi ≤ hi') :
    Fresh ids lo' hi' servers where
  nodup := h.nodup
  generated i hmem := by
    obtain ⟨k, hk, hk', hid⟩ := h.generated i hmem
    exact ⟨k, Nat.le_trans hlo hk, Nat.lt_of_lt_of_le hk' hhi, hid⟩

theorem filter (h : Fresh ids lo hi servers) (p : Instance → Bool) :
    Fresh ids lo hi (servers.filter p) where
  nodup := ((List.filter_sublist).map _).nodup h.nodup
  generated i hmem := h.generated i (List.mem_filter.mp hmem).1

/-- Ids that are generated later differ. -/
theorem append (injective : Function.Injective ids) (h : Fresh ids lo hi servers)
    (h' : Fresh ids lo' hi' others) (hlo : lo ≤ lo') (later : hi ≤ lo') (hhi : hi ≤ hi') :
    Fresh ids lo hi' (servers ++ others) where
  nodup := by
    rw [List.map_append, List.nodup_append]
    refine ⟨h.nodup, h'.nodup, ?_⟩
    intro id hid id' hid' heq
    obtain ⟨i, hmem, rfl⟩ := List.mem_map.mp hid
    obtain ⟨i', hmem', rfl⟩ := List.mem_map.mp hid'
    obtain ⟨k, -, hk, hik⟩ := h.generated i hmem
    obtain ⟨m, hm, -, him⟩ := h'.generated i' hmem'
    have hkm : k = m := injective (hik.symm.trans (heq.trans him))
    omega
  generated i hmem := by
    rcases List.mem_append.mp hmem with hmem | hmem
    · exact (h.widen (Nat.le_refl _) hhi).generated i hmem
    · exact (h'.widen hlo (Nat.le_refl _)).generated i hmem

theorem mapIdx (injective : Function.Injective ids) (first : Nat) (serviceId : String)
    (ds : List (List String)) :
    Fresh ids first (first + ds.length) (ds.mapIdx fun k endpoints =>
      { instanceId := ids (first + k), serviceId, endpoints }) := by
  induction ds generalizing first with
  | nil => exact .nil
  | cons endpoints rest ih =>
    have hrest := ih (first + 1)
    simp only [Nat.add_assoc, Nat.add_comm 1] at hrest
    rw [List.mapIdx_cons]
    exact .append injective (singleton rfl) hrest (Nat.le_succ _) (Nat.le_refl _)
      (Nat.add_le_add_left (Nat.le_add_left ..) _)

end Fresh

/-! ### The registry follows the log -/

/-- Every instance carries the service id of its slot. -/
def Carries (log : List Deed) : Prop :=
  ∀ p ∈ postings log, (labels log)[p.slot]?.map (·.serviceId) = some p.server.serviceId

/-- The service is in the registry as its log has it. -/
structure Follows (app service : String) (log : List Deed) (r : LocalRegistry) : Prop where
  slots : (r.group? app service).map (·.slots) =
    if labels log = [] then none else some (shelves log)
  carries : Carries log
  fresh : Fresh r.ids 0 r.issued ((postings log).map (·.server))

section Steps

variable {slot : VersionSlot} {version instanceId : String} {server : Instance}
  {log : List Deed} {r : LocalRegistry} {app service : String}

theorem carries_defined (h : Carries log)
    (hslot : ∀ i ∈ slot.instances, i.serviceId = slot.serviceId) :
    Carries (.defined slot :: log) := by
  intro p hp
  rw [labels]
  rcases List.mem_append.mp hp with hp | hp
  · rw [List.getElem?_append_left (slot_lt hp)]
    exact h p hp
  · obtain ⟨i, hi, rfl⟩ := List.mem_map.mp hp
    simp [hslot i hi]

theorem carries_registered_new (h : Carries log)
    (hnew : (labels log).any (·.version == version) = false) :
    Carries (.registered version server :: log) := by
  intro p hp
  rw [labels, hnew, if_neg Bool.false_ne_true]
  rcases List.mem_append.mp hp with hp | hp
  · rw [List.getElem?_append_left (slot_lt hp)]
    exact h p hp
  · cases List.mem_singleton.mp hp
    simp [findIdx_of_new hnew]

theorem carries_registered_old {label : Label} (h : Carries log)
    (hold : (labels log).find? (·.version == version) = some label)
    (hserver : server.serviceId = label.serviceId) :
    Carries (.registered version server :: log) := by
  intro p hp
  rw [labels, any_of_find? hold, if_pos rfl]
  rcases List.mem_append.mp hp with hp | hp
  · exact h p hp
  · cases List.mem_singleton.mp hp
    rw [← List.find?_eq_getElem?_findIdx, hold, hserver, Option.map_some]

theorem carries_unregistered (h : Carries log) : Carries (.unregistered instanceId :: log) :=
  fun p hp => h p (List.mem_filter.mp hp).1

namespace Follows

theorem slots_groupAt (h : Follows app service log r) :
    (r.groupAt app service).slots = shelves log := by
  have hslots := h.slots
  rw [groupAt]
  cases hg : r.group? app service with
  | none =>
    rw [hg] at hslots
    split at hslots
    · rename_i hlabels
      rw [shelves, hlabels]
      rfl
    · cases hslots
  | some g =>
    rw [hg] at hslots
    split at hslots
    · cases hslots
    · exact Option.some.inj hslots

theorem group?_eq_none_iff (h : Follows app service log r) :
    r.group? app service = none ↔ labels log = [] := by
  rw [← Option.map_eq_none_iff, h.slots]
  split <;> simp [*]

theorem instances_groupAt (h : Follows app service log r) :
    (r.groupAt app service).instances = served log := by
  rw [ServiceGroup.instances, h.slots_groupAt, flatMap_shelves]

/-- What was done put this group in the place of the old one. -/
theorem of_put {g : ServiceGroup} (hg : r.group? app service = some g) (hne : labels log ≠ [])
    (slots : g.slots = shelves log) (carries : Carries log)
    (fresh : Fresh r.ids 0 r.issued ((postings log).map (·.server))) :
    Follows app service log r where
  slots := by rw [hg, Option.map_some, slots, if_neg hne]
  carries := carries
  fresh := fresh

theorem of_same {r' : LocalRegistry} (h : Follows app service log r)
    (same : r'.group? app service = r.group? app service) (further : Further r r') :
    Follows app service log r' where
  slots := by rw [same, h.slots]
  carries := h.carries
  fresh := by
    rw [further.ids]
    exact h.fresh.widen (Nat.le_refl _) further.issued

end Follows

theorem slotFor_spec (r : LocalRegistry) (d : ServiceDefinition) :
    ∃ first, r.issued ≤ first ∧ (r.slotFor d).2 = { r with issued := first + d.instances.length } ∧
      (r.slotFor d).1.instances = d.instances.mapIdx fun k endpoints =>
        { instanceId := r.ids (first + k), serviceId := (r.slotFor d).1.serviceId,
          endpoints } := by
  unfold slotFor
  cases d.id with
  | some id => exact ⟨r.issued, Nat.le_refl _, by simp [newInstances_eq]⟩
  | none => exact ⟨r.issued + 1, Nat.le_succ _, by simp [newInstances_eq, newId]⟩

theorem define_eq (r : LocalRegistry) (service : String) (d : ServiceDefinition) :
    r.define service d = (r.slotFor d).2.put d.appName service
      (((r.slotFor d).2.groupAt d.appName service).addSlot (r.slotFor d).1) := rfl

theorem serviceId_slotFor {d : ServiceDefinition} {i : Instance}
    (h : i ∈ (r.slotFor d).1.instances) : i.serviceId = (r.slotFor d).1.serviceId := by
  obtain ⟨first, -, -, hinstances⟩ := r.slotFor_spec d
  rw [hinstances] at h
  obtain ⟨k, -, rfl⟩ := List.mem_mapIdx.mp h
  rfl

theorem Follows.define (injective : Function.Injective r.ids) (h : Follows app service log r)
    (d : ServiceDefinition) (hd : d.appName = app) :
    Follows app service (.defined (r.slotFor d).1 :: log) (r.define service d) := by
  obtain ⟨first, hfirst, hstate, hinstances⟩ := r.slotFor_spec d
  have hgroup : ((r.slotFor d).2.groupAt app service).slots = shelves log := by
    rw [hstate]
    exact h.slots_groupAt
  have hnew := Fresh.mapIdx injective first (r.slotFor d).1.serviceId d.instances
  rw [← hinstances] at hnew
  rw [define_eq, hd]
  refine .of_put ((group?_put ..).trans (if_pos rfl)) (labels_ne_nil_of_adds rfl) ?_
    (carries_defined h.carries fun i hi => serviceId_slotFor hi) ?_
  · rw [ServiceGroup.addSlot, hgroup, shelves_defined]
  · simp only [hstate, postings, List.map_append, List.map_map, Function.comp_def, List.map_id']
    exact .append injective h.fresh hnew (Nat.zero_le _) hfirst (Nat.le_add_right_of_le hfirst)

theorem Follows.register (injective : Function.Injective r.ids) (h : Follows app service log r)
    (version : String) (endpoints : List String) :
    Follows app service (.registered version (r.register app service version endpoints).1 :: log)
      (r.register app service version endpoints).2 := by
  have hgroup : ((r.group? app service).getD {}).slots = shelves log := h.slots_groupAt
  have hfind := serviceId_find?_shelves version log
  unfold LocalRegistry.register
  dsimp only
  split
  · rename_i slot hslot
    rw [ServiceGroup.slotOf?, hgroup] at hslot
    rw [hslot] at hfind
    obtain ⟨label, hlabel, hid⟩ := Option.map_eq_some_iff.mp hfind.symm
    refine .of_put ((group?_put ..).trans (if_pos rfl)) (labels_ne_nil_of_adds rfl) ?_
      (carries_registered_old h.carries hlabel hid.symm) ?_
    · rw [ServiceGroup.addTo, hgroup, shelves_registered_old (any_of_find? hlabel)]
    · rw [postings, List.map_append]
      exact .append injective h.fresh (.singleton rfl) (Nat.zero_le _) (Nat.le_refl _)
        (Nat.le_succ _)
  · rename_i hslot
    rw [ServiceGroup.slotOf?, hgroup] at hslot
    rw [hslot] at hfind
    have hnone := Option.map_eq_none_iff.mp hfind.symm
    have hany : (labels log).any (·.version == version) = false :=
      List.any_eq_false.mpr (List.find?_eq_none.mp hnone)
    refine .of_put ((group?_put ..).trans (if_pos rfl)) (labels_ne_nil_of_adds rfl) ?_
      (carries_registered_new h.carries hany) ?_
    · rw [ServiceGroup.addSlot, hgroup, shelves_registered_new hany]
    · rw [postings, List.map_append]
      exact .append injective h.fresh (.singleton rfl) (Nat.zero_le _) (Nat.le_succ _)
        (Nat.le_add_right _ 2)

theorem unregister_eq (r : LocalRegistry) (app service instanceId : String) :
    r.unregister app service instanceId =
      if (r.groupAt app service).instances.any (·.instanceId == instanceId) then
        (true, r.put app service ((r.groupAt app service).withdraw instanceId))
      else (false, r) := by
  unfold unregister groupAt
  cases r.group? app service <;> rfl

theorem Follows.unregister (h : Follows app service log r) (instanceId : String) :
    Follows app service (.unregistered instanceId :: log)
      (r.unregister app service instanceId).2 := by
  have hcarries : Carries (.unregistered instanceId :: log) := carries_unregistered h.carries
  have hfresh : Fresh r.ids 0 r.issued
      ((postings (.unregistered instanceId :: log)).map (·.server)) := by
    have hfilter := h.fresh.filter (·.instanceId != instanceId)
    rwa [List.filter_map] at hfilter
  rw [unregister_eq]
  split
  · rename_i hany
    have hne : labels log ≠ [] := by
      intro hnil
      rw [groupAt, h.group?_eq_none_iff.mpr hnil] at hany
      cases hany
    refine .of_put ((group?_put ..).trans (if_pos rfl)) hne ?_ hcarries hfresh
    rw [ServiceGroup.withdraw, h.slots_groupAt, shelves_unregistered]
  · rename_i hany
    refine ⟨?_, hcarries, hfresh⟩
    rw [h.instances_groupAt] at hany
    rw [shelves_unregistered_of_not_mem (by simpa using hany), labels, h.slots]

theorem follows_remove (r : LocalRegistry) (app service : String) (log : List Deed) :
    Follows app service (.removed :: log) (r.remove app service).2 where
  slots := by rw [group?_remove, if_pos rfl, labels, if_pos rfl, Option.map_none]
  carries _ hp := by cases hp
  fresh := .nil

/-- What is done about one service leaves the others alone. -/
theorem group?_perform_of_ne {e : Event} (h : e.name ≠ (app, service)) :
    (r.perform e).group? app service = r.group? app service := by
  have hne {app' service' : String} (hname : e.name = (app', service')) :
      (app, service) ≠ (app', service') := fun heq => h (hname.trans heq.symm)
  cases e with
  | define service' d =>
    obtain ⟨first, -, hstate, -⟩ := r.slotFor_spec d
    rw [perform, define_eq, group?_put, if_neg (hne rfl), hstate]
    rfl
  | mutate m =>
    cases m with
    | register app' service' version endpoints =>
      simp only [perform, mutate, LocalRegistry.register]
      split <;> exact (group?_put ..).trans (if_neg (hne rfl))
    | unregister app' service' instanceId =>
      simp only [perform, mutate, unregister_eq]
      split
      · exact (group?_put ..).trans (if_neg (hne rfl))
      · rfl
    | remove app' service' => exact (group?_remove ..).trans (if_neg (hne rfl))

theorem further_perform (r : LocalRegistry) (e : Event) : Further r (r.perform e) := by
  cases e with
  | define service d => exact (r.becomes_define service d "" "").2
  | mutate m => exact r.further_mutate m

/-- What is done to the registry is followed, if it is written to the log of its service. -/
theorem Follows.perform (injective : Function.Injective r.ids) (h : Follows app service log r)
    (e : Event) :
    Follows app service ((if e.name = (app, service) then [r.deedOf e] else []) ++ log)
      (r.perform e) := by
  split
  · rename_i hname
    cases e with
    | define service' d =>
      cases hname
      exact h.define injective d rfl
    | mutate m =>
      cases m with
      | register _ _ version endpoints =>
        cases hname
        exact h.register injective version endpoints
      | unregister _ _ instanceId =>
        cases hname
        exact h.unregister instanceId
      | remove _ _ =>
        cases hname
        exact follows_remove ..
  · rename_i hname
    exact h.of_same (group?_perform_of_ne hname) (r.further_perform e)

end Steps

theorem further_performAll (r : LocalRegistry) (es : List Event) :
    Further r (r.performAll es) := by
  induction es generalizing r with
  | nil => exact .refl r
  | cons e es ih => exact (r.further_perform e).trans (ih _)

theorem follows_performAll {ids : Nat → String} (injective : Function.Injective ids)
    (app service : String) (es : List Event) :
    Follows app service (logOf (app, service) { ids } es) (performAll { ids } es) := by
  induction es using List.reverseRecOn with
  | nil => exact ⟨rfl, nofun, .nil⟩
  | append_singleton es e ih =>
    have hstep : performAll { ids } (es ++ [e]) = (performAll { ids } es).perform e :=
      List.foldl_concat ..
    have hinjective : Function.Injective (performAll { ids } es).ids := by
      rwa [(further_performAll _ es).ids]
    rw [logOf_concat, hstep]
    exact ih.perform hinjective e

/-! ### What a registry answers -/

/-- The deed is what was asked for. -/
inductive Deed.Meets : Event → Deed → Prop
  | defined {service : String} {d : ServiceDefinition} {slot : VersionSlot}
      (version : slot.version = d.version) (given : ∀ id, d.id = some id → slot.serviceId = id)
      (endpoints : slot.instances.map (·.endpoints) = d.instances) :
      Meets (.define service d) (.defined slot)
  | registered {app service version : String} {endpoints : List String} {server : Instance}
      (fits : server.endpoints = endpoints) :
      Meets (.mutate (.register app service version endpoints)) (.registered version server)
  | unregistered {app service instanceId : String} :
      Meets (.mutate (.unregister app service instanceId)) (.unregistered instanceId)
  | removed {app service : String} : Meets (.mutate (.remove app service)) .removed

theorem meets_deedOf (r : LocalRegistry) (e : Event) : Deed.Meets e (r.deedOf e) := by
  cases e with
  | define service d =>
    obtain ⟨first, -, -, hinstances⟩ := r.slotFor_spec d
    refine .defined rfl ?_ ?_
    · intro id hid
      simp [slotFor, hid]
    · rw [hinstances]
      refine List.ext_getElem? fun k => ?_
      simp [Function.comp_def]
  | mutate m =>
    cases m with
    | register app service version endpoints =>
      refine .registered ?_
      unfold register
      dsimp only
      split <;> rfl
    | unregister app service instanceId => exact .unregistered
    | remove app service => exact .removed

/-- The log has one deed for each thing that was done about the service, in order. -/
theorem meets_logOf (name : String × String) (r : LocalRegistry) (es : List Event) :
    List.Forall₂ Deed.Meets (es.filter (·.name = name)) (logOf name r es).reverse := by
  induction es generalizing r with
  | nil => exact .nil
  | cons e es ih =>
    rw [logOf, List.reverse_append]
    by_cases h : e.name = name
    · rw [if_pos h, List.filter_cons, if_pos (decide_eq_true h)]
      exact .cons (r.meets_deedOf e) (ih _)
    · rw [if_neg h, List.filter_cons, if_neg (by simpa using h)]
      exact ih _

/-- The registry answers for a service what its log tells. -/
structure Serves (r : LocalRegistry) (key : ServiceKey) (log : List Deed) : Prop where
  /-- A service is unknown as long as nothing was added to it since it was last removed. -/
  unknown : r.fetch key = .notFound ↔
    ∀ deed ∈ log.takeWhile (· ≠ .removed), deed.adds = false
  listing : r.fetch key ≠ .notFound →
    ∃ revision, r.fetch key = .found { instances := served log, revision := some revision }
  standing : ∀ i, i ∈ served log ↔ Standing i log
  once : ((served log).map (·.instanceId)).Nodup
  carries : Carries log
  unregister : ∀ instanceId, (r.unregister key.app key.service instanceId).1 = true ↔
    instanceId ∈ (served log).map (·.instanceId)
  /-- What is done about another service changes nothing about this one. -/
  apart : ∀ e : Event, e.name ≠ (key.app, key.service) →
    (r.perform e).group? key.app key.service = r.group? key.app key.service

theorem Follows.serves {r : LocalRegistry} {key : ServiceKey} {log : List Deed}
    (h : Follows key.app key.service log r) : Serves r key log where
  unknown := by
    rw [← labels_eq_nil_iff, ← h.group?_eq_none_iff, fetch]
    cases r.group? key.app key.service <;> simp
  listing hfound := by
    rw [← h.instances_groupAt, groupAt]
    rw [fetch] at hfound ⊢
    cases hg : r.group? key.app key.service with
    | none => exact absurd (by rw [hg]) hfound
    | some g => exact ⟨toString g.revision, rfl⟩
  standing _ := mem_served_iff
  once := nodup_served (by simpa [Function.comp_def] using h.fresh.nodup)
  carries := h.carries
  unregister instanceId := by
    rw [unregister_eq, h.instances_groupAt]
    split <;> simp_all
  apart _ hname := group?_perform_of_ne hname

/-- **A registry that was read from definitions serves, after any run of mutations, exactly what
    was defined and registered since the service was last removed, and nothing of what was
    unregistered: slot after slot, and within a slot in the order of posting.**  The definitions
    of a document may come in any order of its services, and ids may be generated in any way in
    which none is generated twice. -/
theorem serves_what_is_registered {ids : Nat → String} (fresh : Function.Injective ids)
    (ds : List (String × ServiceDefinition)) (ms : List Mutation) (key : ServiceKey) :
    let log := logOf (key.app, key.service) { ids } (history ds ms)
    List.Forall₂ Deed.Meets ((history ds ms).filter (·.name = (key.app, key.service)))
      log.reverse ∧ Serves ((ofDefinitions ids ds).mutateAll ms) key log := by
  refine ⟨meets_logOf .., ?_⟩
  rw [← performAll_history]
  exact (follows_performAll fresh key.app key.service (history ds ms)).serves

namespace Stocked

def key : ServiceKey := ⟨"client", "shop", "orders", everyVersion⟩

/-- The service is defined with two instances. -/
def definitions : List (String × ServiceDefinition) :=
  [("orders", ⟨some "shop", "1.0.0", some "orders-v1", [["rest://a:1"], ["rest://b:1"]]⟩)]

/-- A third instance is registered, and the first one is withdrawn. -/
def run : List Mutation :=
  [.register "shop" "orders" "1.0.0" ["rest://c:1"], .unregister "shop" "orders" (countedIds 0)]

def events : List Event := history definitions run

def log : List Deed := logOf ("shop", "orders") { ids := countedIds } events

end Stocked

/-- The service has the second instance of its definition and the one that was registered. -/
theorem stocked_service_serves : Function.Injective countedIds ∧
    (List.Forall₂ Deed.Meets (Stocked.events.filter (·.name = ("shop", "orders")))
      Stocked.log.reverse ∧
      Serves ((ofDefinitions countedIds Stocked.definitions).mutateAll Stocked.run) Stocked.key
        Stocked.log) ∧
    (served Stocked.log).map (fun i => (i.serviceId, i.endpoints)) =
      [("orders-v1", ["rest://b:1"]), ("orders-v1", ["rest://c:1"])] :=
  ⟨countedIds_injective,
    serves_what_is_registered countedIds_injective Stocked.definitions Stocked.run Stocked.key,
    by decide +kernel⟩

end LocalRegistry

end ServiceFinder
