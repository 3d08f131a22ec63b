/-
  ServiceFinder/Proofs/Node/Punctual.lean
  =======================================
  **Turns under which nobody is late.**

  Under `Turn` time only passes when no call is awake, and then no further than to the
  next moment that some call waits for.  So nobody's moment is ever missed (`Punctual`),
  and a run of turns is a course: what holds on every course holds for every reachable
  node.
-/
import ServiceFinder.Proofs.Node.First

namespace ServiceFinder

variable {σ : Type}

/-! ### Idle nodes -/

namespace Node

theorem not_awake_of_idle {n : Node σ} (idle : n.nextAwake = none) {c : CallId} {st : Stage σ}
    (rests : n.stage? c = some st) : n.awake c st = false := by
  have hnone := (Option.or_eq_none_iff.mp idle).2
  rw [List.head?_eq_none_iff, List.filter_eq_nil_iff] at hnone
  have hc := hnone c (List.mem_map_of_mem (f := (·.1)) (mem_of_stage? rests))
  rwa [isAwake, rests, Option.any_some, Bool.not_eq_true] at hc

theorem nextDue_le {n : Node σ} {due : Nat} (h : n.nextDue = some due) {c : CallId}
    {st : Stage σ} {d : Nat} (hc : (c, st) ∈ n.calls) (hd : st.due? = some d) : due ≤ d :=
  (List.min?_eq_some_iff.mp h).2 d (List.mem_filterMap.mpr ⟨(c, st), hc, hd⟩)

theorem exists_of_nextDue {n : Node σ} {due : Nat} (h : n.nextDue = some due) :
    ∃ c st, (c, st) ∈ n.calls ∧ Stage.due? st = some due := by
  obtain ⟨⟨c, st⟩, hc, hd⟩ := List.mem_filterMap.mp (List.min?_eq_some_iff.mp h).1
  exact ⟨c, st, hc, hd⟩

theorem exists_nextDue_le {n : Node σ} {c : CallId} {st : Stage σ} {d : Nat}
    (hc : (c, st) ∈ n.calls) (hd : st.due? = some d) : ∃ due, n.nextDue = some due ∧ due ≤ d := by
  cases h : n.nextDue with
  | some due => exact ⟨due, rfl, nextDue_le h hc hd⟩
  | none =>
    have hnone := List.min?_eq_none_iff.mp h
    rw [List.filterMap_eq_nil_iff] at hnone
    cases (hnone _ hc).symm.trans hd

end Node

/-! ### Moments that nobody misses -/

/-- The moment that a call waits for has not passed; and who pulls never does so twice at
    one moment. -/
def Stage.Timely (now : Nat) : Stage σ → Prop
  | .pulling due interval => now ≤ due ∧ interval ≠ 0
  | .scheduled due _ | .sleeping due | .fetching _ due _ _ => now ≤ due
  | _ => True

def Point.Timely (now : Nat) : Point σ → Prop
  | .ticking due interval => now ≤ due ∧ interval ≠ 0
  | _ => True

theorem Stage.Timely.point {now : Nat} {st : Stage σ} (h : st.Timely now) :
    st.point.Timely now := by
  cases st with
  | pulling => exact h
  | _ => trivial

theorem Stage.Timely.le_due {now due : Nat} {st : Stage σ} (h : st.Timely now)
    (hd : st.due? = some due) : now ≤ due := by
  cases st with
  | pulling => cases hd; exact h.1
  | scheduled | sleeping | fetching => cases hd; exact h
  | _ => cases hd

theorem Stage.Timely.pass {now later : Nat} {st : Stage σ} (h : st.Timely now)
    (hle : ∀ due, st.due? = some due → later ≤ due) : st.Timely later := by
  cases st with
  | pulling => exact ⟨hle _ rfl, h.2⟩
  | scheduled | sleeping | fetching => exact hle _ rfl
  | _ => trivial

/-- No call's moment has passed while it rests, nor while it runs a tick. -/
structure Punctual (s : Midturn σ) : Prop where
  calls : ∀ {c st}, (c, st) ∈ s.node.calls → st.Timely s.node.time
  running : ∀ {c p}, s.running = some (c, p) → p.Timely s.node.time

namespace Punctual

variable {s s' : Midturn σ}

theorem of_eq (h : Punctual s) (htime : s'.node.time = s.node.time)
    (hcalls : ∀ {c st}, (c, st) ∈ s'.node.calls → (c, st) ∈ s.node.calls ∨ st.Timely s.node.time)
    (hrun : ∀ {c p}, s'.running = some (c, p) → p.Timely s.node.time) : Punctual s' where
  calls hc := by
    rw [htime]
    rcases hcalls hc with hold | hnew
    · exact h.calls hold
    · exact hnew
  running hc := htime ▸ hrun hc

theorem rest (h : Punctual s) {n : Node σ} {c : CallId} {st : Stage σ}
    {k : Option (CallId × Bool × List EntryId)} (htime : n.time = s.node.time)
    (hcalls : ∀ x ∈ n.calls, x ∈ s.node.calls) (hst : st.Timely s.node.time) :
    Punctual ⟨n.rest c st, none, k⟩ := by
  refine h.of_eq htime ?_ nofun
  intro c' st' hc
  rcases Node.mem_rest.mp hc with hc | ⟨-, rfl⟩
  · exact .inl (hcalls _ hc)
  · exact .inr hst

end Punctual

theorem Quiet.timely {c : CallId} {n n' : Node σ} {p p' : Point σ} (h : Quiet c n p n' p')
    (now : Nat) : p'.Timely now := by
  cases h with
  | turn h =>
    unfold Node.turnsTo at h
    split at h
    all_goals first
      | (cases h; trivial)
      | (split at h <;> cases h <;> trivial)
      | cases h
  | _ => trivial

/-- **Every move comes in time.** -/
theorem Punctual.move [Registry σ] {s s' : Midturn σ} (h : Punctual s) (m : Move s s') :
    Punctual s' := by
  cases m with
  | call | protect | protectView | forget | create | beginFirst | endFirst | askNow | hear | apply
  | applyNext =>
    exact h.of_eq rfl (fun hc => .inl hc) (fun hrun => by cases hrun; trivial)
  | enlist => exact h.of_eq rfl (fun hc => .inl hc) (fun hrun => by cases hrun; trivial)
  | answer | stray => exact h.of_eq rfl (fun hc => .inl hc) nofun
  | enlisted => exact h.of_eq rfl (fun hc => .inl hc) nofun
  | @lock n c k e job hfree =>
    refine h.of_eq rfl (fun hc => .inl hc) ?_
    intro c' p hrun
    cases job <;> cases hrun <;> trivial
  | callAfter n wait op => exact h.rest rfl (fun _ hx => hx) (Nat.le_add_right ..)
  | @wake n c st rests awake =>
    constructor
    · intro c' st' hc
      exact h.calls (Node.mem_unrest.mp hc).1
    · intro c' p hrun
      cases hrun
      exact (h.calls (Node.mem_of_stage? rests)).point
  | quiet q =>
    refine h.of_eq q.still.time (fun hc => .inl (q.still.calls ▸ hc)) ?_
    intro c' p hrun
    cases hrun
    exact q.timely _
  | sleep | ask => exact h.rest rfl (fun _ hx => hx) (Nat.le_add_right ..)
  | awaitFirst | forceWait | sweepSome => exact h.rest rfl (fun _ hx => hx) trivial
  | @wait n c k e job hbusy => exact h.rest rfl (fun _ hx => hx) (by cases job <;> trivial)
  | stopPuller n c k =>
    exact h.of_eq rfl (fun hc => .inl (List.mem_of_mem_filter hc))
      (fun hrun => by cases hrun; trivial)
  | startPuller n c k interval =>
    have htime : (n.startPuller interval).time = n.time := by rw [n.startPuller_eq]
    refine h.of_eq htime ?_ (fun hrun => by cases hrun; trivial)
    intro c' st hc
    rcases Node.mem_startPuller.mp hc with hc | ⟨hpositive, -, rfl⟩
    · exact .inl (Node.mem_stopPuller.mp hc).1
    · exact .inr ⟨Nat.le_add_right .., hpositive⟩
  | tick n c k due interval =>
    obtain ⟨hdue, hpositive⟩ : n.time ≤ due ∧ interval ≠ 0 := h.running rfl
    refine h.of_eq rfl ?_ nofun
    intro c' st hc
    rcases Node.mem_rest.mp hc with hc | ⟨-, rfl⟩
    · rcases Node.mem_rest.mp hc with hc | ⟨-, rfl⟩
      · exact .inl hc
      · exact .inr ⟨Nat.le_add_right_of_le hdue, hpositive⟩
    · exact .inr (Nat.le_refl _)
  | member rests hmore =>
    exact h.rest rfl (fun x hx => List.mem_of_mem_filter hx) trivial
  | lastMember rests hall =>
    exact h.of_eq rfl (fun hc => .inl (Node.mem_unrest.mp hc).1)
      (fun hrun => by cases hrun; trivial)

theorem Punctual.wait {n : Node σ} {due : Nat} (h : Punctual (⟨n, none, none⟩ : Midturn σ))
    (hdue : n.nextDue = some due) :
    Punctual (⟨{ n with time := due }, none, none⟩ : Midturn σ) := by
  constructor
  · intro c st hc
    apply (h.calls hc).pass
    intro d hd
    exact Node.nextDue_le hdue hc hd
  · nofun

theorem Punctual.le_nextDue {n : Node σ} (h : Punctual (⟨n, none, none⟩ : Midturn σ)) {due : Nat}
    (hdue : n.nextDue = some due) : n.time ≤ due := by
  obtain ⟨c, st, hc, hd⟩ := Node.exists_of_nextDue hdue
  exact (h.calls hc).le_due hd

/-! ### Every reachable node -/

/-- What holds at every moment of a run of turns. -/
structure Steady (s : Midturn σ) : Prop where
  sound : Sound s
  punctual : Punctual s
  first : AllFirst s
  filed : Filed s.node

namespace Steady

theorem of_untouched {n : Node σ} (untouched : n.Untouched) (empty : n.directory.entries = []) :
    Steady ⟨n, none, none⟩ where
  sound := .of_untouched untouched
  punctual := ⟨fun hc => by simp [untouched.calls] at hc, nofun⟩
  first e he := by simp [empty] at he
  filed := by
    constructor
    · simp [untouched.cached]
    · intro key e hmem
      simp [untouched.cached] at hmem
    · intro e he
      simp [empty] at he
    · intro e l hl
      simp [untouched.journal] at hl
    · intro e he
      simp [empty] at he

theorem move [Registry σ] {s s' : Midturn σ} (h : Steady s) (m : Move s s') : Steady s' where
  sound := h.sound.move m
  punctual := h.punctual.move m
  first := h.first.move h.sound m
  filed := h.filed.move m

theorem wait {n : Node σ} {due : Nat} (h : Steady (⟨n, none, none⟩ : Midturn σ))
    (hdue : n.nextDue = some due) :
    Steady (⟨{ n with time := due }, none, none⟩ : Midturn σ) where
  sound := h.sound.pass due
  punctual := h.punctual.wait hdue
  first e he := (h.first e he).pass (h.punctual.le_nextDue hdue)
  filed := h.filed.of_views rfl rfl rfl

end Steady

namespace Node

variable [Registry σ]

/-- A call makes moves only, and otherwise time passes to the next moment that is waited
    for. -/
theorem moves_of_turn {n m : Node σ} (h : Turn n m) :
    Moves ⟨n, none, none⟩ ⟨m, none, none⟩ ∨
      n.nextAwake = none ∧ ∃ due, n.nextDue = some due ∧ m = { n with time := due } := by
  cases h with
  | call op => exact .inl (moves_call n op)
  | callAfter wait op => exact .inl (moves_callAfter n wait op)
  | resume c h => exact .inl (moves_awake n c h)
  | wait due idle h => exact .inr ⟨idle, due, h, rfl⟩

/-- What moves and idle waits keep holds of every reachable node. -/
theorem Reachable.keeps {I : Midturn σ → Prop} {start n : Node σ}
    (steady : Steady (⟨start, none, none⟩ : Midturn σ)) (reach : Reachable start n)
    (move : ∀ {s s'}, Steady s → I s → Move s s' → I s')
    (wait : ∀ {n : Node σ} {due}, Steady (⟨n, none, none⟩ : Midturn σ) → n.nextAwake = none →
      n.nextDue = some due → I ⟨n, none, none⟩ → I ⟨{ n with time := due }, none, none⟩)
    (h : I ⟨start, none, none⟩) : Steady (⟨n, none, none⟩ : Midturn σ) ∧ I ⟨n, none, none⟩ := by
  induction reach with
  | here => exact ⟨steady, h⟩
  | turn _ turn ih =>
    rcases moves_of_turn turn with moves | ⟨idle, due, hdue, rfl⟩
    · exact moves.keeps (I := fun s => Steady s ∧ I s)
        (fun hs m => ⟨hs.1.move m, move hs.1 hs.2 m⟩) ih
    · exact ⟨ih.1.wait hdue, wait ih.1 idle hdue ih.2⟩

theorem Reachable.steady {start n : Node σ} (steady : Steady (⟨start, none, none⟩ : Midturn σ))
    (reach : Reachable start n) : Steady (⟨n, none, none⟩ : Midturn σ) :=
  (reach.keeps (I := fun _ => True) steady (fun _ _ _ => trivial) (fun _ _ _ _ => trivial)
    trivial).1

/-- What has happened and what was answered stays so. -/
theorem Reachable.grows {n m : Node σ} (steady : Steady (⟨n, none, none⟩ : Midturn σ))
    (reach : Reachable n m) : n.journal <:+ m.journal ∧ n.replies ⊆ m.replies ∧
      m.directory.options = n.directory.options := by
  refine (reach.keeps (I := fun s => n.journal <:+ s.node.journal ∧ n.replies ⊆ s.node.replies ∧
    s.node.directory.options = n.directory.options) steady ?_ (fun _ _ _ h => h)
    ⟨List.suffix_refl _, List.Subset.refl _, rfl⟩).2
  rintro s s' hs ⟨hj, hr, ho⟩ mv
  have horderly := hs.sound.orderly
  exact ⟨hj.trans (mv.journal_suffix horderly), List.Subset.trans hr mv.replies_subset,
    (mv.options horderly).trans ho⟩

end Node

end ServiceFinder
