/-
  ServiceFinder/Proofs/Directory/Entry.lean
  =========================================
  **What refreshes and changes do to one view.**

  Both edit the list and the status and nothing else: the key, the protection, the line
  for the write lock and the progress of the first refresh stay.  Neither takes its last
  instance from a view that refuses an empty list.
-/
import ServiceFinder.Directory.Entry

namespace ServiceFinder

namespace Entry

variable (policy : EmptyListPolicy) (x : Entry)

/-! ### Refreshes -/

theorem adopt_fst (o : Outcome) :
    (x.adopt policy o).1 = { x with listing := (x.adopt policy o).1.listing } := by
  rcases o with (l | _ | (_ | _)) | _
  all_goals try rfl
  simp only [adopt, adoptListing]
  split
  · rfl
  · split <;> rfl

theorem afterRefresh_fst (o : Outcome) :
    (x.afterRefresh policy o).1 =
      { x with listing := (x.afterRefresh policy o).1.listing,
               status := (x.afterRefresh policy o).2 } := by
  simp only [afterRefresh]
  rw [adopt_fst]

/-- No refresh ends as one that never was. -/
theorem afterRefresh_ne_initial (o : Outcome) : (x.afterRefresh policy o).2 ≠ .initial := by
  rcases o with (l | _ | (_ | _)) | _
  all_goals simp only [afterRefresh, adopt, adoptListing]
  all_goals try simp
  split
  · simp
  · split <;> simp

/-! ### Changes -/

theorem afterChange_fst (c : InstanceChange) :
    (x.afterChange policy c).1 =
      { x with listing := (x.afterChange policy c).1.listing,
               status := (x.afterChange policy c).1.status } := by
  unfold afterChange
  split
  · rfl
  · rfl
  · split <;> rfl

/-- A change that comes to nothing leaves the status alone. -/
theorem status_afterChange (c : InstanceChange) :
    (x.afterChange policy c).1.status = (x.afterChange policy c).2.getD x.status := by
  unfold afterChange
  split
  · rfl
  · rfl
  · split <;> rfl

/-- No change tells that a service is gone. -/
theorem afterChange_ne_gone (c : InstanceChange) :
    (x.afterChange policy c).2 ≠ some .serviceNotFound := by
  unfold afterChange
  split
  · simp
  · simp
  · split <;> simp

/-- A change does not take a view back to the time before its first refresh. -/
theorem afterChange_status_ne_initial (c : InstanceChange) (h : x.status ≠ .initial) :
    (x.afterChange policy c).1.status ≠ .initial := by
  unfold afterChange
  split
  · exact h
  · exact h
  · split <;> simp

/-! ### Protection -/

/-- `y` is as protected as `x`, and if `x` refuses an empty list, `y` has not lost its last
    instance. -/
structure Keeps (x y : Entry) : Prop where
  protection : y.protection = x.protection
  instances : x.refusesEmpty policy = true → x.listing.instances ≠ [] → y.listing.instances ≠ []

variable {policy x} in
theorem Keeps.of_eq {y : Entry} (protection : y.protection = x.protection)
    (instances : y.listing.instances = x.listing.instances) : x.Keeps policy y where
  protection := protection
  instances _ h := instances ▸ h

/-- **No refresh of a view that refuses the empty list leaves it without instances.** -/
theorem keeps_afterRefresh (o : Outcome) : x.Keeps policy (x.afterRefresh policy o).1 := by
  rcases o with (l | _ | (_ | _)) | _
  all_goals try exact .of_eq rfl rfl
  simp only [afterRefresh, adopt, adoptListing]
  split
  · exact .of_eq rfl rfl
  · split
    · exact .of_eq rfl rfl
    · rename_i believed
      refine ⟨rfl, ?_⟩
      intro refuses _ hnil
      have hlisted : l.instances = [] := hnil
      exact believed (by simp [hlisted, refuses])

/-- **No pushed change of a view that refuses the empty list leaves it without instances.** -/
theorem keeps_afterChange (c : InstanceChange) : x.Keeps policy (x.afterChange policy c).1 := by
  unfold afterChange
  split
  · exact .of_eq rfl rfl
  · exact .of_eq rfl rfl
  · rename_i edited _
    split
    · exact .of_eq rfl rfl
    · rename_i believed
      refine ⟨rfl, ?_⟩
      intro refuses _ hnil
      have hlisted : edited = [] := hnil
      exact believed (by simp [hlisted, refuses])

theorem refusesEmpty_retainNonEmpty (guarded : x.protection = true)
    (listed : x.listing.instances ≠ []) : x.refusesEmpty .retainNonEmpty = true := by
  simp [refusesEmpty, EmptyListPolicy.retainNonEmpty, guarded, listed]

end Entry

end ServiceFinder
