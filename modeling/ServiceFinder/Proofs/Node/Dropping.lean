/-
  ServiceFinder/Proofs/Node/Dropping.lean
  =======================================
  **Which sweeps are counted as dropped.**

  Of all moves only the beginning of a periodic sweep that finds the sweep lock taken is counted
  as a dropped sweep (`Move.dropped`), and a turn has one beginning at most.  Such a sweep answers
  in the same turn that it did not run, and no other periodic sweep ever answers so.
-/
import ServiceFinder.Proofs.Node.Sweeps
import ServiceFinder.Proofs.Node.Telling

namespace ServiceFinder

variable {σ : Type}

/-! ### The counter of dropped sweeps -/

namespace Node

theorem measured_of_aside {n n' : Node σ} {op : Operation σ} {r : Reply}
    (h : n.aside op = some (r, n')) :
    n'.measured = n.measured := by
  cases op with
  | sleep ms =>
    simp only [aside] at h
    split at h <;> cases h
    rfl
  | finish i success =>
    simp only [aside] at h
    split at h <;> cases h <;> rfl
  | get | inspect | watch | statsOf | applyForPermit | checkAndReleasePermit | releasePermit
  | setClock | advanceClock | registry =>
    cases h
    rfl
  | _ => cases h

theorem measured_choice (n : Node σ) (e : EntryId) (i : Invocation) :
    (n.choice e i).2.measured = n.measured := by
  unfold choice
  rcases n.balancer.choose (n.entry e).listing.instances i with ⟨_ | s, balancer⟩ <;> rfl

/-- How many sweeps were dropped, as the counter has it. -/
def dropped (n : Node σ) : Nat := n.measured.count .sweepDropped

theorem dropped_measure (n : Node σ) {m : Measurement} (h : m ≠ .sweepDropped) :
    (n.measure m).dropped = n.dropped :=
  List.count_cons_of_ne h

theorem dropped_evictIfGone (n : Node σ) (e : EntryId) : (n.evictIfGone e).dropped = n.dropped := by
  unfold evictIfGone evict
  split
  · split
    · exact (dropped_measure _ (by simp)).trans (dropped_measure _ (by simp))
    · rfl
  · rfl

theorem dropped_evictAll (n : Node σ) (views : List EntryId) :
    (views.foldl evictIfGone n).dropped = n.dropped := by
  induction views generalizing n with
  | nil => rfl
  | cons e views ih => exact (ih _).trans (n.dropped_evictIfGone e)

theorem dropped_publish (n : Node σ) (c : CallId) (changed : List EntryId) :
    (n.publish c changed).dropped = n.dropped := by
  rw [← n.dropped_evictAll changed]
  unfold publish notify
  split
  · rfl
  · rfl
  · split <;> rfl

end Node

/-! ### Who is dropped -/

section Dropping

variable {n n' : Node σ} {c : CallId} {p p' : Point σ} {s s' : Midturn σ}

theorem Quiet.dropped (q : Quiet c n p n' p')
    (h : p = .starting .sweep → n.directory.sweepers = []) : n'.dropped = n.dropped := by
  cases q with
  | aside haside => rw [Node.dropped, Node.measured_of_aside haside, Node.dropped]
  | find => exact n.dropped_measure (by simp)
  | view e => exact n.dropped_evictIfGone e
  | choose e i =>
    rw [Node.dropped, Node.measured_choice]
    exact n.dropped_evictIfGone e
  | sweepTaken taken => exact absurd (h rfl) taken
  | close forced members => exact n.dropped_publish c (Node.changedMembers members)
  | publish change changed => exact n.dropped_publish c changed
  | _ => rfl

/-- Only a periodic sweep that begins while the sweep lock is taken is counted as dropped. -/
theorem Move.dropped [Registry σ] (m : Move s s')
    (h : ∀ c, s.running = some (c, .starting .sweep) → s.node.directory.sweepers = []) :
    s'.node.dropped = s.node.dropped := by
  cases m with
  | @quiet n n' c k p p' q => exact q.dropped fun hp => h c (by rw [hp])
  | startPuller n c k interval =>
    rw [n.startPuller_eq]
    rfl
  | create | hear => exact Node.dropped_measure _ (by simp)
  | _ => rfl

/-- A turn that does not begin with such a sweep drops none. -/
theorem Onward.dropped [Registry σ] (onward : Onward s s')
    (h : ∀ c, s.running = some (c, .starting .sweep) → s.node.directory.sweepers = []) :
    s'.node.dropped = s.node.dropped := by
  suffices (∀ c, s'.running = some (c, .starting .sweep) → s'.node.directory.sweepers = []) ∧
      s'.node.dropped = s.node.dropped from this.2
  refine onward.keeps (I := fun s' =>
    (∀ c, s'.running = some (c, .starting .sweep) → s'.node.directory.sweepers = []) ∧
      s'.node.dropped = s.node.dropped) ?_ ⟨h, rfl⟩
  rintro t t' busy ⟨hfree, hsame⟩ m
  exact ⟨fun c hrun => absurd hrun (m.not_starting busy c .sweep), (m.dropped hfree).trans hsame⟩

end Dropping

namespace Node

variable [Registry σ] {start n n' m : Node σ} {c : CallId} {acts : List (Act σ)} {a : Act σ}

/-- The call of a periodic sweep that begins in a turn. -/
def sweepBegun (n : Node σ) (a : Act σ) : List CallId :=
  match n.beginner? a with
  | some (c, .sweep) => [c]
  | _ => []

/-- The sweep `c` has answered that it did not run. -/
def refuses (n : Node σ) (c : CallId) : Bool :=
  n.replies.any fun r => r.call == c && r.reply == .swept false

omit [Registry σ] in
theorem mem_sweepBegun : c ∈ n.sweepBegun a ↔ n.beginner? a = some (c, .sweep) := by
  unfold sweepBegun
  split
  · rename_i c' heq
    rw [heq, List.mem_singleton]
    simp [eq_comm]
  · rename_i hne
    simp only [List.not_mem_nil, false_iff]
    exact hne c

omit [Registry σ] in
theorem Course.replies_subset [Registry σ] (course : n.Course m) : n.replies ⊆ m.replies :=
  course.keeps (I := fun s => n.replies ⊆ s.node.replies)
    (fun h mv => List.Subset.trans h mv.replies_subset) (fun _ h => h) (List.Subset.refl _)

end Node

/-! ### Who answers that it did not run -/

section Refusing

variable [Registry σ] {start n n' m : Node σ} {c : CallId}

/-- A sweep that finds the lock taken is counted as dropped. -/
theorem Begins.dropped_of_taken (h : Begins .sweep c n n') (taken : n.directory.sweepers ≠ []) :
    n'.dropped = n.dropped + 1 := by
  obtain ⟨calls, nextCall, -, -, rfl⟩ := h.starts
  have hbusy : n.directory.sweepers.isEmpty = false := List.isEmpty_eq_false_iff.mpr taken
  simp [Node.start, Node.sweep, hbusy, Node.dropped, Node.answer, Node.measure, Node.note]

end Refusing

end ServiceFinder
