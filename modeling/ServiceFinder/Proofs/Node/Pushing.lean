/-
  ServiceFinder/Proofs/Node/Pushing.lean
  ======================================
  **What pushed changes can add to a view.**

  A version rule can not be checked on the spot, so a view under a rule takes in a new instance
  only if it lists the instance's service version already; everything else is left to the next
  refresh.  An instance that is listed is not held to that: a change replaces it by whatever it
  carries.  Changes therefore bring a new version into the view exactly when one of them replaces
  a listed instance by one of that version.
-/
import Mathlib.Data.List.Basic
import ServiceFinder.Node.Assembly
import ServiceFinder.Proofs.Node.Touch
import ServiceFinder.Registry.Script

namespace ServiceFinder

namespace Entry

variable (policy : EmptyListPolicy) (x : Entry)

/-! ### Changes in a row -/

/-- The view once a change has been pushed. -/
def push (c : InstanceChange) : Entry := if x.concerns c then (x.afterChange policy c).1 else x

/-- The view once changes have been pushed, one after the other. -/
def pushed (cs : List InstanceChange) : Entry := cs.foldl (push policy) x

/-- The service versions that a view lists. -/
def serviceIds : List String := x.listing.instances.map (·.serviceId)

/-- A change replaces an instance that the view lists by one of a service version outside of
    `ids`. -/
def Swaps (ids : List String) (c : InstanceChange) (x : Entry) : Prop :=
  x.concerns c = true ∧ c.kind.removes = false ∧
    c.instanceId ∈ x.listing.instances.map (·.instanceId) ∧ c.serviceId ∉ ids

instance (ids : List String) (c : InstanceChange) : Decidable (x.Swaps ids c) := by
  unfold Swaps; infer_instance

theorem pushed_append (cs cs' : List InstanceChange) :
    x.pushed policy (cs ++ cs') = (x.pushed policy cs).pushed policy cs' :=
  List.foldl_append

theorem pushed_take_succ {cs : List InstanceChange} {k : Nat} (h : k < cs.length) :
    x.pushed policy (cs.take (k + 1)) = (x.pushed policy (cs.take k)).push policy cs[k] := by
  rw [← List.take_append_getElem h, pushed_append]
  rfl

@[simp] theorem key_push (c : InstanceChange) : (x.push policy c).key = x.key := by
  unfold push
  split
  · rw [afterChange_fst]
  · rfl

theorem writers_push (c : InstanceChange) : (x.push policy c).writers = x.writers := by
  unfold push
  split
  · rw [afterChange_fst]
  · rfl

@[simp] theorem key_pushed (cs : List InstanceChange) : (x.pushed policy cs).key = x.key := by
  induction cs generalizing x with
  | nil => rfl
  | cons c cs ih => exact (ih (x.push policy c)).trans (key_push policy x c)

/-- A change does not look at the line for the write lock. -/
theorem afterChange_writers (c : InstanceChange) (writers : List CallId) :
    ({ x with writers } : Entry).afterChange policy c =
      ({ (x.afterChange policy c).1 with writers }, (x.afterChange policy c).2) := by
  have hedit : ({ x with writers } : Entry).edit c = x.edit c := rfl
  have hrefuses : ({ x with writers } : Entry).refusesEmpty policy = x.refusesEmpty policy := rfl
  unfold afterChange
  rw [hedit, hrefuses]
  cases x.edit c with
  | nothing | undecided => rfl
  | list instances =>
    dsimp only
    split <;> rfl

end Entry

/-! ### Calls that push changes -/

namespace Node

variable {σ : Type} {n : Node σ} {e : EntryId}

/-- A call that pushes a change to a view whose write lock is free does so at once. -/
theorem changeView_of_free (he : e < n.directory.entries.length)
    (free : (n.entry e).writers = []) (c : CallId) (change : InstanceChange) :
    (n.changeView c e change).entry e = (n.entry e).push n.directory.options.policy change ∧
      (n.changeView c e change).directory.entries.length = n.directory.entries.length ∧
      (n.changeView c e change).directory.options = n.directory.options := by
  unfold changeView Entry.push
  split
  · have hline : (n.queueWriter c e).entry e = { n.entry e with writers := [c] } := by
      rw [queueWriter, entry_modifyEntry_self _ he, free]
      rfl
    have hlength : (n.queueWriter c e).directory.entries.length = n.directory.entries.length :=
      length_modifyEntry ..
    have hlt := Nat.lt_of_lt_of_eq he hlength.symm
    have hwrites : (n.queueWriter c e).writes c e = true := by simp [writes, hline]
    have hkept : ((n.entry e).afterChange n.directory.options.policy change).1.writers = [] := by
      rw [Entry.afterChange_fst, ← free]
    have hrevised := (n.queueWriter c e).revised_applyChange c change hlt
    dsimp only
    rw [if_pos hwrites]
    refine ⟨?_, hrevised.length.trans hlength, rfl⟩
    refine (entry_applyChange _ c change hlt).trans ?_
    rw [changeOn, hline, Entry.afterChange_writers]
    exact congrArg (fun writers => { (Entry.afterChange _ change (n.entry e)).1 with writers })
      hkept.symm
  · exact ⟨rfl, rfl, rfl⟩

/-- Calls that push changes to such a view, one after the other, leave the view that `pushed`
    says. -/
theorem entry_follow_changeView [Registry σ] (he : e < n.directory.entries.length)
    (free : (n.entry e).writers = []) (cs : List InstanceChange) :
    (n.follow (cs.map fun c => .call (.changeView e c))).entry e =
      (n.entry e).pushed n.directory.options.policy cs := by
  induction cs generalizing n with
  | nil => rfl
  | cons c cs ih =>
    obtain ⟨hentry, hlength, hoptions⟩ :=
      changeView_of_free (n := n.newCall.2) he free n.nextCall c
    have hfree : ((n.newCall.2.changeView n.nextCall e c).entry e).writers = [] := by
      rw [hentry, Entry.writers_push]
      exact free
    refine (ih (Nat.lt_of_lt_of_eq he hlength.symm) hfree).trans ?_
    rw [hentry, hoptions]
    rfl

end Node

/-! ### One change -/

namespace Entry

variable {policy : EmptyListPolicy} {x : Entry} {c : InstanceChange}

/-- What a change can make of the list. -/
theorem instances_afterChange (policy : EmptyListPolicy) (c : InstanceChange) (x : Entry) :
    (x.afterChange policy c).1.listing.instances = x.listing.instances ∨
      x.edit c = .list (x.afterChange policy c).1.listing.instances := by
  unfold afterChange
  split
  · exact .inl rfl
  · exact .inl rfl
  · rename_i instances h
    split
    · exact .inl rfl
    · exact .inr h

/-- **An instance that a change brings into the list is the one it carries.**  Its id was listed
    before, or its version may be added unasked. -/
theorem mem_of_edit {instances : List Instance} (h : x.edit c = .list instances) {i : Instance}
    (hi : i ∈ instances) :
    i ∈ x.listing.instances ∨ i = c.updated ∧ c.kind.removes = false ∧
      (c.instanceId ∈ x.listing.instances.map (·.instanceId) ∨
        x.acceptsService c.serviceId = true) := by
  unfold edit at h
  dsimp only at h
  split at h
  · rename_i k hk
    have hlisted : c.instanceId ∈ x.listing.instances.map (·.instanceId) := by
      obtain ⟨hlt, heq, -⟩ := List.findIdx?_eq_some_iff_getElem.mp hk
      exact List.mem_map.mpr ⟨_, List.getElem_mem hlt, beq_iff_eq.mp heq⟩
    split at h
    · cases h
      exact .inl (List.mem_of_mem_eraseIdx hi)
    · rename_i hkind
      split at h
      · cases h
      · cases h
        rcases List.mem_or_eq_of_mem_set hi with hi | rfl
        · exact .inl hi
        · exact .inr ⟨rfl, Bool.eq_false_iff.mpr hkind, .inl hlisted⟩
  · split at h
    · cases h
    · rename_i hkind
      split at h
      · rename_i haccepts
        cases h
        rcases List.mem_append.mp hi with hi | hi
        · exact .inl hi
        · exact .inr ⟨List.mem_singleton.mp hi, Bool.eq_false_iff.mpr hkind, .inr haccepts⟩
      · cases h

/-- A change that does not remove puts its instance in the place of the one it names. -/
theorem updated_mem_afterChange (hkind : c.kind.removes = false)
    (hlisted : c.instanceId ∈ x.listing.instances.map (·.instanceId)) :
    c.updated ∈ (x.afterChange policy c).1.listing.instances := by
  have hfound : (x.listing.instances.findIdx? (·.instanceId == c.instanceId)).isSome = true := by
    obtain ⟨i, hi, hid⟩ := List.mem_map.mp hlisted
    rw [List.findIdx?_isSome, List.any_eq_true]
    exact ⟨i, hi, beq_iff_eq.mpr hid⟩
  obtain ⟨k, hk⟩ := Option.isSome_iff_exists.mp hfound
  have hlt := (List.findIdx?_eq_some_iff_getElem.mp hk).1
  have hedit : x.edit c = if x.listing.instances[k]? == some c.updated then .nothing
      else .list (x.listing.instances.set k c.updated) := by
    unfold edit
    simp only [hk, hkind, Bool.false_eq_true, if_false]
  by_cases hsame : (x.listing.instances[k]? == some c.updated) = true
  · have hmem : c.updated ∈ x.listing.instances := List.mem_of_getElem? (beq_iff_eq.mp hsame)
    rw [if_pos hsame] at hedit
    simpa only [afterChange, hedit] using hmem
  · rw [if_neg hsame] at hedit
    have hnonempty : (x.listing.instances.set k c.updated).isEmpty = false := by
      rw [List.isEmpty_eq_false_iff, ← List.length_pos_iff, List.length_set]
      exact Nat.zero_lt_of_lt hlt
    simp only [afterChange, hedit, hnonempty, Bool.false_and, Bool.false_eq_true, if_false]
    exact List.mem_set hlt _

/-- A change of a view under a version rule leaves its versions alone unless it swaps one. -/
theorem serviceIds_push {ids : List String} (restricted : x.key.versionRule ≠ everyVersion)
    (built : c.serviceId = c.updated.serviceId) (hids : x.serviceIds ⊆ ids)
    (h : ¬ x.Swaps ids c) : (x.push policy c).serviceIds ⊆ ids := by
  unfold push
  split
  · rename_i hconcerns
    rcases x.instances_afterChange policy c with hsame | hedit
    · unfold serviceIds
      rw [hsame]
      exact hids
    · intro s hs
      obtain ⟨i, hi, rfl⟩ := List.mem_map.mp hs
      rcases mem_of_edit hedit hi with hold | ⟨rfl, hkind, hlisted | haccepts⟩
      · exact hids (List.mem_map_of_mem hold)
      · by_contra hnew
        exact h ⟨hconcerns, hkind, hlisted, built ▸ hnew⟩
      · have hknown : x.listing.instances.any (·.serviceId == c.serviceId) = true := by
          simpa [acceptsService, restricted] using haccepts
        obtain ⟨j, hj, hid⟩ := List.any_eq_true.mp hknown
        rw [← built, ← beq_iff_eq.mp hid]
        exact hids (List.mem_map_of_mem hj)
  · exact hids

theorem serviceIds_push_of_swaps {ids : List String} (built : c.serviceId = c.updated.serviceId)
    (h : x.Swaps ids c) : ¬ (x.push policy c).serviceIds ⊆ ids := by
  obtain ⟨hconcerns, hkind, hlisted, hnew⟩ := h
  intro hsub
  apply hnew
  rw [built]
  apply hsub
  unfold push
  rw [if_pos hconcerns]
  exact List.mem_map_of_mem (updated_mem_afterChange hkind hlisted)

end Entry

/-! ### Any number of changes -/

/-- **Changes widen a view under a version rule exactly by swapping a listed instance.**

    Whatever the view lists, and whatever changes are pushed that name their instance by its own
    ids: all the service versions listed after any number of them were listed at the beginning,
    if and only if none of them, when its turn came, replaced a listed instance by one of a
    version that was not. -/
theorem Entry.pushes_narrow_iff (policy : EmptyListPolicy) (x : Entry)
    (restricted : x.key.versionRule ≠ everyVersion) (cs : List InstanceChange)
    (built : ∀ c ∈ cs, ∃ app service kind i, c = .about app service kind i) :
    (∀ k ≤ cs.length, (x.pushed policy (cs.take k)).serviceIds ⊆ x.serviceIds) ↔
      ∀ k (h : k < cs.length), ¬ (x.pushed policy (cs.take k)).Swaps x.serviceIds cs[k] := by
  have hbuilt : ∀ k (h : k < cs.length), cs[k].serviceId = cs[k].updated.serviceId := by
    intro k h
    obtain ⟨app, service, kind, i, hc⟩ := built cs[k] (List.getElem_mem h)
    rw [hc]
    rfl
  constructor
  · intro narrow k h hswaps
    have hnext := narrow (k + 1) h
    rw [pushed_take_succ policy x h] at hnext
    exact serviceIds_push_of_swaps (hbuilt k h) hswaps hnext
  · intro spared k
    induction k with
    | zero => exact fun _ => List.Subset.refl _
    | succ k ih =>
      intro h
      rw [pushed_take_succ policy x h]
      exact serviceIds_push (by rwa [key_pushed]) (hbuilt k h) (ih (Nat.le_of_succ_le h))
        (spared k h)

namespace Swapped

def key : ServiceKey := ⟨"shop", "store", "orders", "2.0.0+"⟩

def server (id version : String) : Instance :=
  { instanceId := id, serviceId := version, endpoints := [] }

/-- The registry says that the orders have one server, of version 2. -/
def start : Node Script :=
  .holding ⟨[(key, [⟨.found ⟨[server "a" "v2"], some "1"⟩, 0⟩])]⟩ {} false key

/-- Server `a` comes back as one of version 1. -/
def downgrade : InstanceChange := .about "store" "orders" .update (server "a" "v1")

/-- A server of version 1 comes up, `a` gets another status, and a third server comes up. -/
def changes : List InstanceChange :=
  [.about "store" "orders" .create (server "b" "v1"),
    .about "store" "orders" .update { server "a" "v2" with status := .testing },
    .about "store" "orders" .create (server "c" "v2")]

def refreshed : Node Script := start.follow [.call (.refresh 0)]

def changed : Node Script := refreshed.follow [.call (.changeView 0 downgrade)]

end Swapped

/-- **A change can bring a version into a view under a version rule that it did not list, by
    replacing an instance.** -/
theorem Entry.update_swaps_version :
    (Swapped.refreshed.entry 0).key.versionRule ≠ everyVersion ∧
      (Swapped.refreshed.entry 0).serviceIds = ["v2"] ∧
      (Swapped.changed.entry 0).serviceIds = ["v1"] := by
  decide

/-- New servers do not widen it. -/
theorem Entry.new_version_left_out :
    (Swapped.key.versionRule ≠ everyVersion ∧
      ∀ c ∈ Swapped.changes, ∃ app service kind i, c = .about app service kind i) ∧
    ((Swapped.refreshed.entry 0).pushed .retainNonEmpty Swapped.changes).serviceIds =
      ["v2", "v2"] ∧
    ∀ k ≤ Swapped.changes.length,
      ((Swapped.refreshed.entry 0).pushed .retainNonEmpty (Swapped.changes.take k)).serviceIds ⊆
        (Swapped.refreshed.entry 0).serviceIds := by
  have built : ∀ c ∈ Swapped.changes, ∃ app service kind i, c = .about app service kind i := by
    intro c hc
    simp only [Swapped.changes, List.mem_cons, List.not_mem_nil, or_false] at hc
    rcases hc with rfl | rfl | rfl <;> exact ⟨_, _, _, _, rfl⟩
  refine ⟨⟨by decide, built⟩, by decide, ?_⟩
  exact (pushes_narrow_iff .retainNonEmpty _ (by decide) _ built).mpr (by decide)

end ServiceFinder
