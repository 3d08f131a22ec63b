/-
  ServiceFinder/Proofs/Node/Mapping.lean
  ======================================
  **Pushed changes keep a map from ids to instances.**

  A view that takes every version and believes every list does what each change asks, so its
  list is a map that the changes write: the instance under an id is the one that the latest
  change for that id carried, if that change did not remove it.  The list is also in order.  An
  instance is replaced in its place and a new one goes to the end, so those that were never
  away come first, as they stood, and behind them the others, by their latest insertion.
-/
import Mathlib.Data.List.Dedup
import Mathlib.Data.List.Induction
import ServiceFinder.Proofs.Node.Pushing

namespace ServiceFinder

namespace Entry

variable (policy : EmptyListPolicy) (x : Entry)

/-- The ids of the instances that a view lists. -/
def instanceIds : List String := x.listing.instances.map (·.instanceId)

/-- The latest of the changes that concern the view and name this id. -/
def latestFor (cs : List InstanceChange) (id : String) : Option InstanceChange :=
  cs.reverse.find? fun c => x.concerns c && c.instanceId == id

/-- The id is listed before the changes and after each of them. -/
def Stays (cs : List InstanceChange) (id : String) : Prop :=
  ∀ k ≤ cs.length, id ∈ (x.pushed policy (cs.take k)).instanceIds

instance (cs : List InstanceChange) (id : String) : Decidable (x.Stays policy cs id) := by
  unfold Stays; infer_instance

/-- A change brings the id that it names into the list. -/
def Inserts (c : InstanceChange) : Prop :=
  c.instanceId ∉ x.instanceIds ∧ c.instanceId ∈ (x.push policy c).instanceIds

instance (c : InstanceChange) : Decidable (x.Inserts policy c) := by
  unfold Inserts; infer_instance

/-- The ids that the changes bring into the list, one for each insertion and in their order. -/
def insertions : List InstanceChange → Entry → List String
  | [], _ => []
  | c :: cs, x => (if x.Inserts policy c then [c.instanceId] else []) ++
      insertions cs (x.push policy c)

/-! ### The effect of one change -/

/-- What a change makes of the list of a view. -/
inductive Effect (c : InstanceChange) : List Instance → Prop
  | foreign (elsewhere : x.concerns c = false) : Effect c x.listing.instances
  | missing (here : x.concerns c = true) (removes : c.kind.removes = true)
      (absent : c.instanceId ∉ x.instanceIds) : Effect c x.listing.instances
  | removed (here : x.concerns c = true) (removes : c.kind.removes = true) (k : Nat)
      (at_k : x.instanceIds[k]? = some c.instanceId) :
      Effect c (x.listing.instances.eraseIdx k)
  | replaced (here : x.concerns c = true) (keeps : c.kind.removes = false) (k : Nat)
      (at_k : x.instanceIds[k]? = some c.instanceId) :
      Effect c (x.listing.instances.set k c.updated)
  | appended (here : x.concerns c = true) (keeps : c.kind.removes = false)
      (absent : c.instanceId ∉ x.instanceIds) :
      Effect c (x.listing.instances ++ [c.updated])

variable {policy x} {c : InstanceChange}

/-- A view that takes every version and believes every list does what a change asks. -/
theorem effect_push (every : x.key.versionRule = everyVersion) (unguarded : x.protection = false)
    (policy : EmptyListPolicy) (c : InstanceChange) :
    x.Effect c (x.push policy c).listing.instances := by
  have believes : x.refusesEmpty policy = false := by simp [refusesEmpty, unguarded]
  have accepts : x.acceptsService c.serviceId = true := by simp [acceptsService, every]
  unfold push
  cases here : x.concerns c with
  | false => exact .foreign here
  | true =>
    simp only [if_true, afterChange, edit, believes, accepts, Bool.and_false]
    cases hfind : x.listing.instances.findIdx? (·.instanceId == c.instanceId) with
    | none =>
      have absent : c.instanceId ∉ x.instanceIds := by
        intro hmem
        obtain ⟨i, hi, hid⟩ := List.mem_map.mp hmem
        exact absurd (List.findIdx?_eq_none_iff.mp hfind i hi) (by simp [hid])
      cases kind : c.kind.removes with
      | true => exact .missing here kind absent
      | false => exact .appended here kind absent
    | some k =>
      obtain ⟨hk, hid, -⟩ := List.findIdx?_eq_some_iff_getElem.mp hfind
      have at_k : x.instanceIds[k]? = some c.instanceId := by
        simpa [instanceIds, List.getElem?_eq_getElem hk] using hid
      cases kind : c.kind.removes with
      | true => exact .removed here kind k at_k
      | false =>
        simp only [Bool.false_eq_true, if_false]
        by_cases same : (x.listing.instances[k]? == some c.updated) = true
        · -- putting an instance where it stands already changes nothing
          have hset : x.listing.instances.set k c.updated = x.listing.instances := by
            have hk : x.listing.instances[k] = c.updated :=
              Option.some.inj ((List.getElem?_eq_getElem _).symm.trans (beq_iff_eq.mp same))
            rw [← hk, List.set_getElem_self]
          rw [if_pos same]
          have h := Effect.replaced here kind k at_k
          rwa [hset] at h
        · rw [if_neg same]
          exact .replaced here kind k at_k

/-- The list stays one of distinct ids. -/
theorem instanceIds_push (policy : EmptyListPolicy) (every : x.key.versionRule = everyVersion)
    (unguarded : x.protection = false) (distinct : x.instanceIds.Nodup)
    (named : c.updated.instanceId = c.instanceId) :
    (x.push policy c).instanceIds =
      if x.concerns c = false then x.instanceIds
      else if c.kind.removes then x.instanceIds.filter (· != c.instanceId)
      else if c.instanceId ∈ x.instanceIds then x.instanceIds
      else x.instanceIds ++ [c.instanceId] := by
  have heffect := effect_push every unguarded policy c
  generalize hl : (x.push policy c).listing.instances = l at heffect
  have hids : (x.push policy c).instanceIds = l.map (·.instanceId) := by rw [← hl]; rfl
  rw [hids]
  cases heffect with
  | foreign elsewhere => rw [if_pos elsewhere]; rfl
  | missing here removes absent =>
    rw [if_neg (by simp [here]), if_pos removes, ← distinct.erase_eq_filter,
      List.erase_of_not_mem absent]
    rfl
  | removed here removes k at_k =>
    obtain ⟨hk, hid⟩ := List.getElem?_eq_some_iff.mp at_k
    rw [if_neg (by simp [here]), if_pos removes, ← distinct.erase_eq_filter, ← hid,
      distinct.erase_getElem, ← List.eraseIdx_map]
    rfl
  | replaced here keeps k at_k =>
    obtain ⟨hk, hid⟩ := List.getElem?_eq_some_iff.mp at_k
    have listed : c.instanceId ∈ x.instanceIds := List.mem_of_getElem? at_k
    rw [if_neg (by simp [here]), if_neg (by simp [keeps]), if_pos listed, List.map_set, named,
      ← hid]
    exact List.set_getElem_self hk
  | appended here keeps absent =>
    rw [if_neg (by simp [here]), if_neg (by simp [keeps]), if_neg absent, List.map_append,
      List.map_singleton, named]
    rfl

/-- An instance of the list that goes by an id stands where the id does. -/
theorem place_iff (distinct : x.instanceIds.Nodup) {id : String} {i : Instance} {j k : Nat}
    (at_k : x.instanceIds[k]? = some id) (at_j : x.listing.instances[j]? = some i) :
    i.instanceId = id ↔ j = k := by
  have hid : x.instanceIds[j]? = some i.instanceId := by simp [instanceIds, at_j]
  rw [← List.getElem?_inj (List.getElem?_eq_some_iff.mp hid).1 distinct, hid, at_k,
    Option.some_inj]

/-- All others stay when the instance that goes by an id is taken out. -/
theorem mem_eraseIdx_iff (distinct : x.instanceIds.Nodup) {id : String} {k : Nat}
    (at_k : x.instanceIds[k]? = some id) {i : Instance} :
    i ∈ x.listing.instances.eraseIdx k ↔ i ∈ x.listing.instances ∧ i.instanceId ≠ id := by
  rw [List.mem_eraseIdx_iff_getElem?]
  constructor
  · rintro ⟨j, hj, at_j⟩
    exact ⟨List.mem_of_getElem? at_j, fun h => hj ((place_iff distinct at_k at_j).mp h)⟩
  · rintro ⟨hi, hne⟩
    obtain ⟨j, at_j⟩ := List.mem_iff_getElem?.mp hi
    exact ⟨j, fun h => hne ((place_iff distinct at_k at_j).mpr h), at_j⟩

/-- All others stay when the instance that goes by an id is replaced. -/
theorem mem_set_iff (distinct : x.instanceIds.Nodup) {id : String} {k : Nat}
    (at_k : x.instanceIds[k]? = some id) {new i : Instance} :
    i ∈ x.listing.instances.set k new ↔
      new = i ∨ i ∈ x.listing.instances ∧ i.instanceId ≠ id := by
  have hk : k < x.listing.instances.length := by
    simpa [instanceIds] using (List.getElem?_eq_some_iff.mp at_k).1
  constructor
  · intro hi
    obtain ⟨j, hj⟩ := List.mem_iff_getElem?.mp hi
    by_cases h : k = j
    · subst h
      rw [List.getElem?_set_self hk] at hj
      exact .inl (Option.some.inj hj)
    · rw [List.getElem?_set_ne h] at hj
      refine .inr ⟨List.mem_of_getElem? hj, ?_⟩
      exact fun hid => h ((place_iff distinct at_k hj).mp hid).symm
  · rintro (rfl | ⟨hi, hne⟩)
    · exact List.mem_set hk _
    · obtain ⟨j, at_j⟩ := List.mem_iff_getElem?.mp hi
      have h : k ≠ j := fun h => hne ((place_iff distinct at_k at_j).mpr h.symm)
      exact List.mem_iff_getElem?.mpr ⟨j, (List.getElem?_set_ne h).trans at_j⟩

/-- Under the id that a change names there is afterwards what the change says, and under every
    other id what there was. -/
theorem mem_push (every : x.key.versionRule = everyVersion) (unguarded : x.protection = false)
    (distinct : x.instanceIds.Nodup) (named : c.updated.instanceId = c.instanceId) (i : Instance) :
    i ∈ (x.push policy c).listing.instances ↔
      if (x.concerns c && c.instanceId == i.instanceId) = true then
        c.kind.removes = false ∧ c.updated = i
      else i ∈ x.listing.instances := by
  have unlisted : c.instanceId ∉ x.instanceIds → i ∈ x.listing.instances →
      c.instanceId ≠ i.instanceId :=
    fun absent hi heq => absent (heq ▸ List.mem_map_of_mem hi)
  have heffect := effect_push every unguarded policy c
  generalize (x.push policy c).listing.instances = l at heffect ⊢
  cases heffect with
  | foreign elsewhere => simp [elsewhere]
  | missing here removes absent =>
    by_cases heq : c.instanceId = i.instanceId
    · simpa [here, removes, heq] using fun hi => unlisted absent hi heq
    · simp [here, heq]
  | removed here removes k at_k =>
    rw [mem_eraseIdx_iff distinct at_k]
    by_cases heq : c.instanceId = i.instanceId
    · simp [here, removes, heq]
    · simp [here, heq, Ne.symm heq]
  | replaced here keeps k at_k =>
    rw [mem_set_iff distinct at_k]
    by_cases heq : c.instanceId = i.instanceId
    · simp [here, keeps, heq]
    · have hne : c.updated ≠ i := fun h => heq (by rw [← h, named])
      simp [here, heq, Ne.symm heq, hne]
  | appended here keeps absent =>
    by_cases heq : c.instanceId = i.instanceId
    · have hnew : i ∉ x.listing.instances := fun hi => unlisted absent hi heq
      simp [here, keeps, heq, hnew, eq_comm]
    · have hne : i ≠ c.updated := fun h => heq (by rw [h, named])
      simp [here, heq, hne]

/-! ### Any number of changes -/

/-- A view that takes every version and believes every list, whose ids are distinct. -/
structure Plain (x : Entry) : Prop where
  every : x.key.versionRule = everyVersion
  unguarded : x.protection = false
  distinct : x.instanceIds.Nodup

@[simp] theorem protection_push (policy : EmptyListPolicy) (c : InstanceChange) (x : Entry) :
    (x.push policy c).protection = x.protection := by
  unfold push
  split
  · rw [afterChange_fst]
  · rfl

theorem Plain.push (h : x.Plain) (named : c.updated.instanceId = c.instanceId) :
    (x.push policy c).Plain where
  every := (congrArg _ (key_push policy x c)).trans h.every
  unguarded := (protection_push policy c x).trans h.unguarded
  distinct := by
    rw [instanceIds_push policy h.every h.unguarded h.distinct named]
    split
    · exact h.distinct
    · split
      · exact h.distinct.filter _
      · split
        · exact h.distinct
        · rename_i absent
          exact List.nodup_append.mpr ⟨h.distinct, List.nodup_singleton _,
            fun a ha b hb heq => absent (List.mem_singleton.mp hb ▸ heq ▸ ha)⟩

theorem pushed_snoc (policy : EmptyListPolicy) (x : Entry) (cs : List InstanceChange)
    (c : InstanceChange) : x.pushed policy (cs ++ [c]) = (x.pushed policy cs).push policy c :=
  pushed_append policy x cs [c]

theorem concerns_pushed (policy : EmptyListPolicy) (x : Entry) (cs : List InstanceChange)
    (c : InstanceChange) : (x.pushed policy cs).concerns c = x.concerns c := by
  simp only [concerns, key_pushed]

theorem latestFor_snoc (x : Entry) (cs : List InstanceChange) (c : InstanceChange) (id : String) :
    x.latestFor (cs ++ [c]) id =
      if (x.concerns c && c.instanceId == id) = true then some c else x.latestFor cs id := by
  simp only [latestFor, List.reverse_append, List.reverse_singleton, List.singleton_append,
    List.find?_cons]
  split <;> simp_all

theorem insertions_snoc (policy : EmptyListPolicy) (x : Entry) (cs : List InstanceChange)
    (c : InstanceChange) :
    insertions policy (cs ++ [c]) x = insertions policy cs x ++
      if (x.pushed policy cs).Inserts policy c then [c.instanceId] else [] := by
  induction cs generalizing x with
  | nil => exact List.append_nil _
  | cons d cs ih =>
    rw [List.cons_append, insertions, ih, insertions, List.append_assoc]
    rfl

theorem stays_snoc (policy : EmptyListPolicy) (x : Entry) (cs : List InstanceChange)
    (c : InstanceChange) (id : String) :
    x.Stays policy (cs ++ [c]) id ↔
      x.Stays policy cs id ∧ id ∈ (x.pushed policy (cs ++ [c])).instanceIds := by
  have hall : (cs ++ [c]).take (cs.length + 1) = cs ++ [c] :=
    List.take_of_length_le (by simp)
  constructor
  · intro stays
    refine ⟨fun k hk => ?_, hall ▸ stays (cs.length + 1) (by simp)⟩
    have := stays k (by simp; omega)
    rwa [List.take_append_of_le_length hk] at this
  · rintro ⟨stays, last⟩ k hk
    rw [List.length_append, List.length_singleton] at hk
    rcases Nat.le_or_eq_of_le_succ hk with hk | rfl
    · rw [List.take_append_of_le_length hk]
      exact stays k hk
    · rwa [hall]

/-- An id that never leaves the list is in it at the end. -/
theorem Stays.listed {cs : List InstanceChange} {id : String} (h : x.Stays policy cs id) :
    id ∈ (x.pushed policy cs).instanceIds := by
  have := h cs.length (Nat.le_refl _)
  rwa [List.take_length] at this

theorem dedup_snoc {α : Type} [DecidableEq α] (l : List α) (a : α) :
    (l ++ [a]).dedup = l.dedup.filter (· != a) ++ [a] := by
  induction l with
  | nil => rfl
  | cons b l ih =>
    rw [List.cons_append]
    by_cases hmem : b ∈ l
    · rw [List.dedup_cons_of_mem (List.mem_append_left _ hmem), List.dedup_cons_of_mem hmem, ih]
    · by_cases heq : b = a
      · rw [List.dedup_cons_of_mem (by simp [heq]), List.dedup_cons_of_notMem hmem, ih, heq]
        simp
      · rw [List.dedup_cons_of_notMem (by simp [hmem, heq]), List.dedup_cons_of_notMem hmem, ih]
        simp [heq]

/-- Each change of a list leaves a view that is still plain. -/
theorem Plain.pushed (h : x.Plain) {cs : List InstanceChange}
    (named : ∀ c ∈ cs, c.updated.instanceId = c.instanceId) : (x.pushed policy cs).Plain := by
  induction cs using List.reverseRecOn with
  | nil => exact h
  | append_singleton cs c ih =>
    rw [pushed_snoc]
    exact (ih fun d hd => named d (List.mem_append_left _ hd)).push (named c (by simp))

/-- The list holds under each id what the latest change for it said. -/
theorem mem_pushed (h : x.Plain) {cs : List InstanceChange}
    (named : ∀ c ∈ cs, c.updated.instanceId = c.instanceId) (i : Instance) :
    i ∈ (x.pushed policy cs).listing.instances ↔
      (∃ c, x.latestFor cs i.instanceId = some c ∧ c.kind.removes = false ∧ c.updated = i) ∨
        x.latestFor cs i.instanceId = none ∧ i ∈ x.listing.instances := by
  induction cs using List.reverseRecOn with
  | nil => simp [pushed, latestFor]
  | append_singleton cs c ih =>
    have named' : ∀ d ∈ cs, d.updated.instanceId = d.instanceId :=
      fun d hd => named d (List.mem_append_left _ hd)
    have plain : (x.pushed policy cs).Plain := h.pushed named'
    rw [pushed_snoc, mem_push plain.every plain.unguarded plain.distinct (named c (by simp)),
      concerns_pushed, latestFor_snoc]
    split
    · simp
    · exact ih named'

/-- The list is in order: first what never left it, as it stood, then what came in, by the latest
    time. -/
def InOrder (policy : EmptyListPolicy) (cs : List InstanceChange) (x : Entry) : Prop :=
  (x.pushed policy cs).instanceIds =
    x.instanceIds.filter (x.Stays policy cs ·) ++
      (insertions policy cs x).dedup.filter (· ∈ (x.pushed policy cs).instanceIds)

section OneMore

variable {cs : List InstanceChange}

theorem InOrder.of_same (h : x.InOrder policy cs)
    (same : (x.pushed policy (cs ++ [c])).instanceIds = (x.pushed policy cs).instanceIds) :
    x.InOrder policy (cs ++ [c]) := by
  have hno : ¬ (x.pushed policy cs).Inserts policy c := by
    rintro ⟨absent, present⟩
    rw [← pushed_snoc, same] at present
    exact absent present
  have hstays : ∀ id, x.Stays policy (cs ++ [c]) id ↔ x.Stays policy cs id := by
    intro id
    rw [stays_snoc, same]
    exact and_iff_left_of_imp Stays.listed
  unfold InOrder
  rw [same, insertions_snoc, if_neg hno, List.append_nil]
  simp only [hstays]
  exact h

theorem InOrder.of_removed (h : x.InOrder policy cs)
    (removed : (x.pushed policy (cs ++ [c])).instanceIds =
      (x.pushed policy cs).instanceIds.filter (· != c.instanceId)) :
    x.InOrder policy (cs ++ [c]) := by
  have hmem : ∀ id, id ∈ (x.pushed policy (cs ++ [c])).instanceIds ↔
      id ∈ (x.pushed policy cs).instanceIds ∧ id ≠ c.instanceId := by
    intro id
    rw [removed, List.mem_filter, bne_iff_ne]
  have hno : ¬ (x.pushed policy cs).Inserts policy c := by
    rintro ⟨absent, present⟩
    rw [← pushed_snoc] at present
    exact ((hmem _).mp present).2 rfl
  have hstays : ∀ id, x.Stays policy (cs ++ [c]) id ↔
      x.Stays policy cs id ∧ id ≠ c.instanceId := by
    intro id
    rw [stays_snoc, hmem]
    exact ⟨fun ⟨stays, _, hne⟩ => ⟨stays, hne⟩, fun ⟨stays, hne⟩ => ⟨stays, stays.listed, hne⟩⟩
  unfold InOrder
  simp only [hmem, hstays, insertions_snoc, if_neg hno, List.append_nil]
  rw [removed]
  refine (congrArg (List.filter _) h).trans ?_
  rw [List.filter_append, List.filter_filter, List.filter_filter]
  congr 1
  · exact List.filter_congr fun id _ => by rw [Bool.eq_iff_iff]; simp [and_comm]
  · exact List.filter_congr fun id _ => by rw [Bool.eq_iff_iff]; simp [and_comm]

theorem InOrder.of_appended (h : x.InOrder policy cs)
    (absent : c.instanceId ∉ (x.pushed policy cs).instanceIds)
    (appended : (x.pushed policy (cs ++ [c])).instanceIds =
      (x.pushed policy cs).instanceIds ++ [c.instanceId]) :
    x.InOrder policy (cs ++ [c]) := by
  have hmem : ∀ id, id ∈ (x.pushed policy (cs ++ [c])).instanceIds ↔
      id ∈ (x.pushed policy cs).instanceIds ∨ id = c.instanceId := by
    intro id
    rw [appended, List.mem_append, List.mem_singleton]
  have hyes : (x.pushed policy cs).Inserts policy c := by
    refine ⟨absent, ?_⟩
    rw [← pushed_snoc]
    exact (hmem _).mpr (.inr rfl)
  have hstays : ∀ id, x.Stays policy (cs ++ [c]) id ↔ x.Stays policy cs id := by
    intro id
    rw [stays_snoc, hmem]
    exact and_iff_left_of_imp fun stays => .inl stays.listed
  unfold InOrder
  simp only [hmem, hstays, insertions_snoc, if_pos hyes, dedup_snoc, List.filter_append,
    List.filter_filter]
  rw [appended, ← List.append_assoc]
  congr 1
  · refine h.trans (congrArg _ (List.filter_congr fun id _ => ?_))
    grind
  · simp

end OneMore

/-- The list is in order after any number of changes. -/
theorem inOrder_pushed (h : x.Plain) {cs : List InstanceChange}
    (named : ∀ c ∈ cs, c.updated.instanceId = c.instanceId) : x.InOrder policy cs := by
  induction cs using List.reverseRecOn with
  | nil =>
    have hself : x.instanceIds.filter (· ∈ x.instanceIds) = x.instanceIds :=
      List.filter_eq_self.mpr fun id hid => decide_eq_true hid
    simpa [InOrder, insertions, Stays, pushed] using hself.symm
  | append_singleton cs c ih =>
    have named' : ∀ d ∈ cs, d.updated.instanceId = d.instanceId :=
      fun d hd => named d (List.mem_append_left _ hd)
    have plain : (x.pushed policy cs).Plain := h.pushed named'
    have hstep := instanceIds_push policy plain.every plain.unguarded plain.distinct
      (named c (by simp))
    rw [← pushed_snoc] at hstep
    split at hstep
    · exact (ih named').of_same hstep
    · split at hstep
      · exact (ih named').of_removed hstep
      · split at hstep
        · exact (ih named').of_same hstep
        · rename_i absent
          exact (ih named').of_appended absent hstep

end Entry

/-- **Pushed changes keep a map from ids to instances, in order.**

    Take a view that takes every version, believes every list and lists no id twice, and push
    changes to it that name their instance by its own ids: the same id twice or foreign services
    in between, removals of what is not there, whatever.  No id is listed twice afterwards.  An
    instance is listed if and only if the latest change for its id brought exactly it, or there
    was no such change and it was listed from the start.  The ids that were listed all along
    come first, in the order that they had, and then those that were away, in the order of their
    latest insertions. -/
theorem Node.changes_keep_map {σ : Type} [Registry σ] {n : Node σ} {e : EntryId}
    (he : e < n.directory.entries.length) (free : (n.entry e).writers = [])
    (every : (n.entry e).key.versionRule = everyVersion)
    (unguarded : (n.entry e).protection = false) (distinct : (n.entry e).instanceIds.Nodup)
    (cs : List InstanceChange)
    (built : ∀ c ∈ cs, ∃ app service kind i, c = .about app service kind i) :
    let policy := n.directory.options.policy
    let x := n.entry e
    let y := (n.follow (cs.map fun c => .call (.changeView e c))).entry e
    y = x.pushed policy cs ∧ y.instanceIds.Nodup ∧
      (∀ i, i ∈ y.listing.instances ↔
        (∃ c, x.latestFor cs i.instanceId = some c ∧ c.kind.removes = false ∧ c.updated = i) ∨
          x.latestFor cs i.instanceId = none ∧ i ∈ x.listing.instances) ∧
      y.instanceIds = x.instanceIds.filter (x.Stays policy cs ·) ++
        (Entry.insertions policy cs x).dedup.filter (· ∈ y.instanceIds) := by
  intro policy x y
  have named : ∀ c ∈ cs, c.updated.instanceId = c.instanceId := by
    intro c hc
    obtain ⟨app, service, kind, i, rfl⟩ := built c hc
    rfl
  have plain : x.Plain := ⟨every, unguarded, distinct⟩
  have hy : y = x.pushed policy cs := entry_follow_changeView he free cs
  rw [hy]
  exact ⟨rfl, (plain.pushed named).distinct, Entry.mem_pushed plain named,
    Entry.inOrder_pushed plain named⟩

namespace Mapped

def key : ServiceKey := ⟨"shop", "store", "orders", everyVersion⟩

def server (id : String) (status : InstanceStatus := .up) : Instance :=
  { instanceId := id, serviceId := "v1", endpoints := [], status }

/-- Servers `a`, `b` and `c` are listed. -/
def listed : Node Script :=
  (Node.holding ⟨[(key, [⟨.found ⟨[server "a", server "b", server "c"], some "1"⟩, 0⟩])]⟩ {} false
    key).follow [.call (.refresh 0)]

/-- Server `a` goes and comes back, `d` comes, comes again, goes and comes back, `b` changes its
    status, `c` goes, and something happens to the `a` of another service. -/
def changes : List InstanceChange :=
  [.about "store" "orders" .create (server "d"), .about "store" "orders" .delete (server "a"),
    .about "store" "orders" .update (server "a" .testing),
    .about "store" "orders" .create (server "d"), .about "store" "orders" .expire (server "d"),
    .about "store" "orders" .update (server "b" .testing),
    .about "store" "stock" .delete (server "a"), .about "store" "orders" .create (server "d"),
    .about "store" "orders" .delete (server "c"), .about "store" "orders" .delete (server "c")]

def changed : Node Script := listed.follow (changes.map fun c => .call (.changeView 0 c))

end Mapped

/-- An id that comes back goes to the end, however long it was away. -/
theorem Node.returning_server_goes_last :
    (((Mapped.listed.entry 0).writers = [] ∧
        (Mapped.listed.entry 0).key.versionRule = everyVersion ∧
        (Mapped.listed.entry 0).protection = false ∧ (Mapped.listed.entry 0).instanceIds.Nodup) ∧
      ∀ c ∈ Mapped.changes, ∃ app service kind i, c = .about app service kind i) ∧
    (Mapped.listed.entry 0).instanceIds = ["a", "b", "c"] ∧
    (Mapped.changed.entry 0).listing.instances =
      [Mapped.server "b" .testing, Mapped.server "a" .testing, Mapped.server "d"] ∧
    (Mapped.changed.entry 0).instanceIds.Nodup ∧
    Mapped.server "a" .testing ∈ (Mapped.changed.entry 0).listing.instances := by
  have built : ∀ c ∈ Mapped.changes, ∃ app service kind i, c = .about app service kind i := by
    intro c hc
    simp only [Mapped.changes, List.mem_cons, List.not_mem_nil, or_false] at hc
    rcases hc with rfl | rfl | rfl | rfl | rfl | rfl | rfl | rfl | rfl | rfl <;>
      exact ⟨_, _, _, _, rfl⟩
  obtain ⟨-, distinct, mem, -⟩ := changes_keep_map (n := Mapped.listed) (e := 0) (by decide)
    (by decide) (by decide) (by decide) (by decide) Mapped.changes built
  refine ⟨⟨by decide, built⟩, by decide, by decide, distinct, (mem _).mpr (.inl ?_)⟩
  exact ⟨.about "store" "orders" .update (Mapped.server "a" .testing), by decide⟩

end ServiceFinder
