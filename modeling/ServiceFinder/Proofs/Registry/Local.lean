/-
  ServiceFinder/Proofs/Registry/Local.lean
  ========================================
  **What the revision of a local service says about its list.**

  Each registration and each withdrawal raises the revision of its service by one, so as
  long as a service is there, two lookups that are answered the same revision are answered
  the same list.  Removing the service forgets its revision too, and a service that is
  registered again starts over at one.  If no id is generated twice, it has none of its old
  instances from then on: equal revisions before and after a removal mean equal lists only
  where both are empty.
-/
import Mathlib
import ServiceFinder.Proofs.Keyed
import ServiceFinder.Registry.Definitions

namespace ServiceFinder

namespace ServiceGroup

variable {g : ServiceGroup} {i server : Instance}

theorem mem_flatMap_addToFirst {version : String} {slots : List VersionSlot}
    (h : i ∈ (addToFirst version server slots).flatMap (·.instances)) :
    i = server ∨ i ∈ slots.flatMap (·.instances) := by
  induction slots with
  | nil => simp [addToFirst] at h
  | cons slot rest ih =>
    rw [List.flatMap_cons, List.mem_append]
    rw [addToFirst] at h
    split at h
    · simp only [List.flatMap_cons, List.mem_append, List.mem_singleton] at h
      rcases h with (h | h) | h
      · exact .inr (.inl h)
      · exact .inl h
      · exact .inr (.inr h)
    · simp only [List.flatMap_cons, List.mem_append] at h
      rcases h with h | h
      · exact .inr (.inl h)
      · exact (ih h).imp_right .inr

theorem mem_instances_addTo {version : String} (h : i ∈ (g.addTo version server).instances) :
    i = server ∨ i ∈ g.instances :=
  mem_flatMap_addToFirst h

theorem mem_instances_addSlot {slot : VersionSlot} (h : i ∈ (g.addSlot slot).instances) :
    i ∈ slot.instances ∨ i ∈ g.instances := by
  simp only [addSlot, instances, List.flatMap_append, List.flatMap_singleton,
    List.mem_append] at h
  exact h.symm

theorem mem_instances_withdraw {instanceId : String}
    (h : i ∈ (g.withdraw instanceId).instances) : i ∈ g.instances := by
  simp only [withdraw, instances, List.flatMap_map, List.mem_flatMap, List.mem_filter] at h
  obtain ⟨slot, hslot, hi, -⟩ := h
  exact List.mem_flatMap.mpr ⟨slot, hslot, hi⟩

end ServiceGroup

namespace LocalRegistry

/-! ### Runs -/

/-- What is done to a local registry at runtime. -/
inductive Mutation where
  | register (app service version : String) (endpoints : List String)
  | unregister (app service instanceId : String)
  | remove (app service : String)
deriving DecidableEq, Repr

def mutate (r : LocalRegistry) : Mutation → LocalRegistry
  | .register app service version endpoints => (r.register app service version endpoints).2
  | .unregister app service instanceId => (r.unregister app service instanceId).2
  | .remove app service => (r.remove app service).2

/-- The registry after a run of mutations. -/
def mutateAll (r : LocalRegistry) (ms : List Mutation) : LocalRegistry := ms.foldl mutate r

variable {app service app' service' : String} {g : ServiceGroup}

theorem group?_put (r : LocalRegistry) (app service app' service' : String) (g : ServiceGroup) :
    (r.put app service g).group? app' service' =
      if (app', service') = (app, service) then some g else r.group? app' service' := by
  rw [put, group?, List.lookup_cons, lookup_filter_fst (· != (app, service))]
  by_cases h : (app', service') = (app, service)
  · simp [h]
  · have hne : ((app', service') == (app, service)) = false := beq_false_of_ne h
    simp only [hne, bne, Bool.not_false, if_true, if_neg h]
    rfl

theorem group?_remove (r : LocalRegistry) (app service app' service' : String) :
    (r.remove app service).2.group? app' service' =
      if (app', service') = (app, service) then none else r.group? app' service' := by
  unfold remove
  cases hg : r.group? app service with
  | none =>
    by_cases h : (app', service') = (app, service)
    · cases h
      simp [hg]
    · simp [h]
  | some g =>
    rw [group?, lookup_filter_fst (· != (app, service))]
    by_cases h : (app', service') = (app, service)
    · simp [h]
    · simp [h, group?]

/-- The service of these names, as if it were there. -/
def groupAt (r : LocalRegistry) (app service : String) : ServiceGroup :=
  (r.group? app service).getD {}

/-- An instance whose id was generated between these two states of a registry. -/
def NewBetween (r r' : LocalRegistry) (i : Instance) : Prop :=
  ∃ k, r.issued ≤ k ∧ k < r'.issued ∧ i.instanceId = r.ids k

/-- `r'` takes its ids from the same row as `r`, and is not behind it. -/
structure Further (r r' : LocalRegistry) : Prop where
  ids : r'.ids = r.ids
  issued : r.issued ≤ r'.issued

theorem Further.refl (r : LocalRegistry) : Further r r := ⟨rfl, Nat.le_refl _⟩

theorem Further.trans {r r' r'' : LocalRegistry} (h : Further r r') (h' : Further r' r'') :
    Further r r'' :=
  ⟨h'.ids.trans h.ids, Nat.le_trans h.issued h'.issued⟩

/-- What a step can make of the service `app`/`service` that does not remove it. -/
inductive Becomes (r r' : LocalRegistry) (app service : String) : Prop where
  | kept (h : r'.group? app service = r.group? app service)
  | revised (g : ServiceGroup) (h : r'.group? app service = some g)
      (revision : g.revision = (r.groupAt app service).revision + 1)
      (instances : ∀ i ∈ g.instances, i ∈ (r.groupAt app service).instances ∨ NewBetween r r' i)

theorem becomes_put {r : LocalRegistry} (issued : Nat)
    (revision : g.revision = (r.groupAt app service).revision + 1)
    (instances : ∀ i ∈ g.instances, i ∈ (r.groupAt app service).instances ∨
      NewBetween r { r with issued } i) (app' service' : String) :
    Becomes r (put app service g { r with issued }) app' service' := by
  have hput := group?_put { r with issued } app service app' service' g
  by_cases h : (app', service') = (app, service)
  · cases h
    rw [if_pos rfl] at hput
    exact .revised g hput revision instances
  · rw [if_neg h] at hput
    exact .kept hput

theorem becomes_register (r : LocalRegistry) (app service version : String)
    (endpoints : List String) (app' service' : String) :
    Becomes r (r.register app service version endpoints).2 app' service' := by
  have hnew {n k : Nat} (hk : r.issued ≤ k) (hn : k < n) (i : Instance)
      (hi : i.instanceId = r.ids k) : NewBetween r { r with issued := n } i :=
    ⟨k, hk, hn, hi⟩
  unfold register
  dsimp only
  split
  · refine becomes_put (r.issued + 1) rfl ?_ app' service'
    intro i hi
    rcases ServiceGroup.mem_instances_addTo hi with rfl | hi
    · exact .inr (hnew (Nat.le_refl _) (Nat.lt_succ_self _) _ rfl)
    · exact .inl hi
  · refine becomes_put (r.issued + 1 + 1) rfl ?_ app' service'
    intro i hi
    rcases ServiceGroup.mem_instances_addSlot hi with hi | hi
    · cases List.mem_singleton.mp hi
      exact .inr (hnew (Nat.le_succ _) (Nat.lt_succ_self _) _ rfl)
    · exact .inl hi

theorem becomes_unregister (r : LocalRegistry) (app service instanceId app' service' : String) :
    Becomes r (r.unregister app service instanceId).2 app' service' := by
  unfold unregister
  split
  · exact .kept rfl
  · rename_i g hg
    have hat : r.groupAt app service = g := by rw [groupAt, hg, Option.getD_some]
    split
    · refine becomes_put r.issued (by rw [hat]; rfl) ?_ app' service'
      intro i hi
      exact .inl (hat ▸ ServiceGroup.mem_instances_withdraw hi)
    · exact .kept rfl

/-- A mutation that does not remove a service leaves it alone or raises its revision. -/
theorem becomes_mutate (r : LocalRegistry) {m : Mutation} (h : m ≠ .remove app service) :
    Becomes r (r.mutate m) app service := by
  cases m with
  | register app' service' version endpoints => exact becomes_register ..
  | unregister app' service' instanceId => exact becomes_unregister ..
  | remove app' service' =>
    have hne : (app, service) ≠ (app', service') := by
      rintro heq
      cases heq
      exact h rfl
    exact .kept ((group?_remove ..).trans (if_neg hne))

/-! ### While a service is there -/

/-- What a run that does not remove a service makes of it: the revision counts the steps
    that changed it. -/
theorem group?_mutateAll {r : LocalRegistry} {ms : List Mutation}
    (stays : .remove app service ∉ ms) (hg : r.group? app service = some g) :
    ∃ g' k, (r.mutateAll ms).group? app service = some g' ∧ k ≤ ms.length ∧
      g'.revision = g.revision + UInt64.ofNat k ∧ (k = 0 → g' = g) := by
  -- the revision comes round after 2⁶⁴ steps, so the steps are counted beside it
  induction ms generalizing r g with
  | nil => exact ⟨g, 0, hg, Nat.le_refl _, (UInt64.add_zero _).symm, fun _ => rfl⟩
  | cons m ms ih =>
    obtain ⟨hm, hms⟩ := not_or.mp (mt List.mem_cons.mpr stays)
    cases r.becomes_mutate (Ne.symm hm) with
    | kept hkept =>
      obtain ⟨g', k, hg', hk, hrev, hsame⟩ := ih hms (hkept.trans hg)
      exact ⟨g', k, hg', Nat.le_succ_of_le hk, hrev, hsame⟩
    | revised g₁ hg₁ hrev₁ _ =>
      obtain ⟨g', k, hg', hk, hrev, -⟩ := ih hms hg₁
      refine ⟨g', k + 1, hg', Nat.succ_le_succ hk, ?_, fun h => absurd h (Nat.succ_ne_zero k)⟩
      rw [groupAt, hg, Option.getD_some] at hrev₁
      rw [hrev, hrev₁, UInt64.add_assoc, UInt64.add_comm 1, UInt64.ofNat_add]
      rfl

/-! ### Ids -/

/-- Every instance of the service got its id when at least `lo` others had been generated. -/
structure IssuedAfter (lo : Nat) (app service : String) (r : LocalRegistry) : Prop where
  le : lo ≤ r.issued
  generated : ∀ i ∈ (r.groupAt app service).instances,
    ∃ k, lo ≤ k ∧ k < r.issued ∧ i.instanceId = r.ids k

theorem issuedAfter_of_none {r : LocalRegistry} (h : r.group? app service = none) :
    IssuedAfter r.issued app service r where
  le := Nat.le_refl _
  generated i hi := by
    rw [groupAt, h] at hi
    cases hi

theorem IssuedAfter.becomes {lo : Nat} {r r' : LocalRegistry} (h : IssuedAfter lo app service r)
    (step : Becomes r r' app service) (further : Further r r') :
    IssuedAfter lo app service r' where
  le := Nat.le_trans h.le further.issued
  generated i hi := by
    rw [further.ids]
    have hold (hi : i ∈ (r.groupAt app service).instances) :
        ∃ k, lo ≤ k ∧ k < r'.issued ∧ i.instanceId = r.ids k := by
      obtain ⟨k, hlo, hk, hid⟩ := h.generated i hi
      exact ⟨k, hlo, Nat.lt_of_lt_of_le hk further.issued, hid⟩
    cases step with
    | kept hkept =>
      rw [groupAt, hkept] at hi
      exact hold hi
    | revised g hg _ hinstances =>
      rw [groupAt, hg] at hi
      rcases hinstances i hi with hi | ⟨k, hlo, hk, hid⟩
      · exact hold hi
      · exact ⟨k, Nat.le_trans h.le hlo, hk, hid⟩

theorem further_mutate (r : LocalRegistry) (m : Mutation) : Further r (r.mutate m) := by
  cases m with
  | register app service version endpoints =>
    simp only [mutate, register]
    split
    · exact ⟨rfl, Nat.le_succ _⟩
    · exact ⟨rfl, Nat.le_add_right _ 2⟩
  | unregister app service instanceId =>
    simp only [mutate, unregister]
    split
    · exact .refl r
    · split <;> exact ⟨rfl, Nat.le_refl _⟩
  | remove app service =>
    simp only [mutate, remove]
    split <;> exact ⟨rfl, Nat.le_refl _⟩

theorem further_mutateAll (r : LocalRegistry) (ms : List Mutation) :
    Further r (r.mutateAll ms) := by
  induction ms generalizing r with
  | nil => exact .refl r
  | cons m ms ih => exact (r.further_mutate m).trans (ih _)

theorem IssuedAfter.mutate {lo : Nat} {r : LocalRegistry} (h : IssuedAfter lo app service r)
    (m : Mutation) : IssuedAfter lo app service (r.mutate m) := by
  by_cases hm : m = .remove app service
  · subst hm
    have hgone : (r.mutate (.remove app service)).group? app service = none :=
      (group?_remove ..).trans (if_pos rfl)
    have hissued := (r.further_mutate (.remove app service)).issued
    exact ⟨Nat.le_trans h.le hissued, fun i hi => by rw [groupAt, hgone] at hi; cases hi⟩
  · exact h.becomes (becomes_mutate r hm) (further_mutate r m)

theorem IssuedAfter.mutateAll {lo : Nat} {r : LocalRegistry} (h : IssuedAfter lo app service r)
    (ms : List Mutation) : IssuedAfter lo app service (r.mutateAll ms) := by
  induction ms generalizing r with
  | nil => exact h
  | cons m ms ih => exact ih (h.mutate m)

/-- Definitions get new ids for their instances, one after the other. -/
theorem newInstances_eq (serviceId : String) (r : LocalRegistry) (ds : List (List String)) :
    r.newInstances serviceId ds =
      (ds.mapIdx fun k endpoints =>
        { instanceId := r.ids (r.issued + k), serviceId, endpoints },
       { r with issued := r.issued + ds.length }) := by
  induction ds generalizing r with
  | nil => rfl
  | cons endpoints rest ih =>
    rw [newInstances]
    simp only [newId, ih, List.mapIdx_cons, List.length_cons, Nat.add_assoc, Nat.add_comm 1,
      Nat.add_zero]

theorem newInstances_spec (serviceId : String) (r : LocalRegistry) (ds : List (List String)) :
    (r.newInstances serviceId ds).2 = { r with issued := r.issued + ds.length } ∧
      ∀ i ∈ (r.newInstances serviceId ds).1,
        NewBetween r { r with issued := r.issued + ds.length } i := by
  rw [newInstances_eq]
  refine ⟨rfl, ?_⟩
  intro i hi
  obtain ⟨k, hk, rfl⟩ := List.mem_mapIdx.mp hi
  exact ⟨r.issued + k, Nat.le_add_right .., Nat.add_lt_add_left hk _, rfl⟩

/-- A definition adds a slot whose instances have new ids. -/
theorem becomes_define (r : LocalRegistry) (service : String) (d : ServiceDefinition)
    (app' service' : String) :
    Becomes r (r.define service d) app' service' ∧ Further r (r.define service d) := by
  -- the state in which the instances get their ids, after the service id
  have hslot (n : Nat) (hn : r.issued ≤ n) (serviceId : String) :
      let s := newInstances serviceId { r with issued := n } d.instances
      let r' := s.2.put d.appName service ((s.2.groupAt d.appName service).addSlot
        { serviceId, version := d.version, instances := s.1 })
      Becomes r r' app' service' ∧ Further r r' := by
    obtain ⟨hstate, hnew⟩ := newInstances_spec serviceId { r with issued := n } d.instances
    intro s r'
    unfold r'
    rw [show s.2 = { r with issued := n + d.instances.length } from hstate]
    refine ⟨becomes_put _ rfl ?_ app' service', rfl, Nat.le_trans hn (Nat.le_add_right ..)⟩
    intro i hi
    rcases ServiceGroup.mem_instances_addSlot hi with hi | hi
    · obtain ⟨k, hlo, hk, hid⟩ := hnew i hi
      exact .inr ⟨k, Nat.le_trans hn hlo, hk, hid⟩
    · exact .inl hi
  unfold define
  cases d.id with
  | some id => exact hslot r.issued (Nat.le_refl _) id
  | none => exact hslot (r.issued + 1) (Nat.le_succ _) (r.ids r.issued)

/-- What definitions make of a registry takes its ids from the same row, and the instances of
    every service have generated ids if they had before. -/
theorem issuedAfter_defineAll {r : LocalRegistry} (h : IssuedAfter 0 app service r)
    (ds : List (String × ServiceDefinition)) :
    let r' := ds.foldl (fun r d => r.define d.1 d.2) r
    IssuedAfter 0 app service r' ∧ Further r r' := by
  induction ds generalizing r with
  | nil => exact ⟨h, .refl r⟩
  | cons d ds ih =>
    obtain ⟨step, further⟩ := r.becomes_define d.1 d.2 app service
    exact (ih (h.becomes step further)).imp_right further.trans

/-- Every instance of a registry of definitions has a generated id. -/
theorem issuedAfter_ofDefinitions (ids : Nat → String) (ds : List (String × ServiceDefinition))
    (app service : String) :
    IssuedAfter 0 app service (ofDefinitions ids ds) ∧ (ofDefinitions ids ds).ids = ids :=
  (issuedAfter_defineAll (issuedAfter_of_none (r := { ids }) rfl) ds).imp_right Further.ids

/-! ### Two lookups of one service -/

theorem fetch_eq_found_iff {r : LocalRegistry} {key : ServiceKey} {l : Listing} :
    r.fetch key = .found l ↔ ∃ g, r.group? key.app key.service = some g ∧ l = g.listing := by
  unfold fetch
  cases r.group? key.app key.service with
  | none => simp
  | some g => simp [eq_comm]

/-- Fewer than 2⁶⁴ steps do not lead back to a revision. -/
theorem eq_zero_of_add_ofNat {n : UInt64} {k : Nat} (h : n + UInt64.ofNat k = n)
    (few : k < UInt64.size) : k = 0 := by
  have hnat := congrArg UInt64.toNat (UInt64.add_eq_left.mp h)
  rwa [UInt64.toNat_ofNat_of_lt' few] at hnat

/-- As long as it is not removed, a service that shows a revision again shows the same
    list. -/
theorem listing_eq_of_revision_eq {r : LocalRegistry} {ms : List Mutation} {g' : ServiceGroup}
    (stays : .remove app service ∉ ms) (hg : r.group? app service = some g)
    (hg' : (r.mutateAll ms).group? app service = some g') (few : ms.length < UInt64.size)
    (same : g'.revision = g.revision) : g' = g := by
  obtain ⟨g'', k, hg'', hk, hrev, hsame⟩ := group?_mutateAll stays hg
  cases hg'.symm.trans hg''
  exact hsame (eq_zero_of_add_ofNat (hrev.symm.trans same) (Nat.lt_of_le_of_lt hk few))

/-- After it was removed, a service has no instance that it had before, if no id is generated
    twice. -/
theorem disjoint_of_removed {r : LocalRegistry} {ms : List Mutation} {lo : Nat}
    (fresh : Function.Injective r.ids) (removed : .remove app service ∈ ms)
    (h : IssuedAfter lo app service r) {i : Instance}
    (hi : i ∈ (r.groupAt app service).instances) :
    i ∉ ((r.mutateAll ms).groupAt app service).instances := by
  obtain ⟨earlier, later, rfl⟩ := List.append_of_mem removed
  obtain ⟨k, -, hk, hid⟩ := h.generated i hi
  have hgone : ((r.mutateAll earlier).mutate (.remove app service)).group? app service = none :=
    (group?_remove ..).trans (if_pos rfl)
  have hlater := (issuedAfter_of_none hgone).mutateAll later
  have hfurther : Further r ((r.mutateAll earlier).mutate (.remove app service)) :=
    (r.further_mutateAll earlier).trans (further_mutate _ _)
  have hissued := hfurther.issued
  rw [mutateAll, List.foldl_append, List.foldl_cons]
  -- an id of the service now would be new since the removal, yet older than it
  intro hi'
  obtain ⟨k', hlo', -, hid'⟩ := hlater.generated i hi'
  rw [(further_mutateAll _ later).ids, hfurther.ids] at hid'
  have heq := fresh (hid.symm.trans hid')
  omega

/-- **Two lookups of a service that are answered the same revision are answered the same list,
    unless the service was removed in between and one of the lists has an instance.** -/
theorem same_list_of_same_revision_iff {ids : Nat → String} (fresh : Function.Injective ids)
    (ds : List (String × ServiceDefinition)) (earlier later : List Mutation)
    (key key' : ServiceKey) (app : key'.app = key.app) (service : key'.service = key.service)
    {l l' : Listing} (found : ((ofDefinitions ids ds).mutateAll earlier).fetch key = .found l)
    (found' : (((ofDefinitions ids ds).mutateAll earlier).mutateAll later).fetch key' = .found l')
    (same : l'.revision = l.revision) (few : later.length < UInt64.size) :
    l'.instances = l.instances ↔
      .remove key.app key.service ∉ later ∨ l.instances = [] ∧ l'.instances = [] := by
  obtain ⟨g, hg, rfl⟩ := fetch_eq_found_iff.mp found
  obtain ⟨g', hg', rfl⟩ := fetch_eq_found_iff.mp found'
  rw [app, service] at hg'
  have hrevision : g'.revision = g.revision :=
    UInt64.toNat_inj.mp (Nat.repr_injective (Option.some.inj same))
  constructor
  · intro hlist
    by_cases removed : .remove key.app key.service ∈ later
    · -- an instance of the one list would be an instance of the other
      have hempty : g.instances = [] := by
        refine List.eq_nil_iff_forall_not_mem.mpr ?_
        intro i hi
        obtain ⟨hissued, hids⟩ := issuedAfter_ofDefinitions ids ds key.app key.service
        have hfresh : Function.Injective ((ofDefinitions ids ds).mutateAll earlier).ids := by
          rwa [(further_mutateAll _ earlier).ids, hids]
        have hnot := disjoint_of_removed hfresh removed (hissued.mutateAll earlier) (i := i)
          (by rwa [groupAt, hg])
        rw [groupAt, hg', Option.getD_some] at hnot
        exact hnot (show i ∈ g'.listing.instances from hlist ▸ hi)
      exact .inr ⟨hempty, hlist.trans hempty⟩
    · exact .inl removed
  · rintro (stays | ⟨hempty, hempty'⟩)
    · rw [listing_eq_of_revision_eq stays hg hg' few hrevision]
    · rw [hempty, hempty']

/-! ### A service that is removed and registered again -/

/-- Ids that are counted up. -/
def countedIds (n : Nat) : String := "00000000-0000-4000-8000-" ++ toString (100000000000 + n)

theorem countedIds_injective : Function.Injective countedIds :=
  fun _ _ h => Nat.add_left_cancel (Nat.repr_injective ((String.append_right_inj _).mp h))

namespace Renewed

def key : ServiceKey := ⟨"client", "shop", "orders", everyVersion⟩

def register (endpoint : String) : Mutation := .register "shop" "orders" "1.0.0" [endpoint]

/-- The service has one instance. -/
def before : LocalRegistry :=
  (ofDefinitions countedIds []).mutateAll [register "rest://a:1"]

/-- The service was removed, and registered with another instance. -/
def after : LocalRegistry :=
  before.mutateAll [.remove "shop" "orders", register "rest://b:1"]

end Renewed

/-- **A service that was removed and registered again can show an old revision with another
    list.** -/
theorem renewed_service_repeats_revision : ∃ l l',
    Renewed.before.fetch Renewed.key = .found l ∧ Renewed.after.fetch Renewed.key = .found l' ∧
      l.revision = some "1" ∧ l'.revision = some "1" ∧ l'.instances ≠ l.instances := by
  refine ⟨_, _, rfl, rfl, rfl, rfl, ?_⟩
  intro h
  have hendpoints : [["rest://b:1"]] = [["rest://a:1"]] := congrArg (List.map Instance.endpoints) h
  exact absurd hendpoints (by decide)

/-- The lists differ since the service was removed and neither of them is empty. -/
theorem renewed_service_lists : Function.Injective countedIds ∧ ∃ l l',
    (Renewed.before.fetch Renewed.key = .found l ∧ Renewed.after.fetch Renewed.key = .found l' ∧
      l'.revision = l.revision) ∧
      (l'.instances = l.instances ↔
        .remove "shop" "orders" ∉ [.remove "shop" "orders", Renewed.register "rest://b:1"] ∨
          l.instances = [] ∧ l'.instances = []) := by
  refine ⟨countedIds_injective, _, _, ⟨rfl, rfl, ?_⟩, ?_⟩
  · exact Eq.trans (b := some "1") rfl rfl
  · exact same_list_of_same_revision_iff countedIds_injective [] [Renewed.register "rest://a:1"]
      [.remove "shop" "orders", Renewed.register "rest://b:1"] Renewed.key Renewed.key
      rfl rfl rfl rfl (Eq.trans (b := some "1") rfl rfl) (by decide)

end LocalRegistry

end ServiceFinder
