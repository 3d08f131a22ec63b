/-
  ServiceFinder/Proofs/Node/Calls.lean
  ====================================
  **Every call is in one place.**

  A call runs, rests, or has answered, and never two of these at once; numbers of calls
  are handed out in order and never twice.  Since a move only carries calls from place
  to place, loses some, or brings in the next number, one comparison of the lists of
  numbers before and after it shows that the node stays `Orderly`.
-/
import Mathlib.Data.List.Nodup
import Mathlib.Data.List.Perm.Subperm
import ServiceFinder.Proofs.Node.Course

namespace ServiceFinder

variable {σ : Type}

/-! ### Calls at rest -/

namespace Node

theorem mem_unrest {n : Node σ} {c c' : CallId} {s : Stage σ} :
    (c', s) ∈ (n.unrest c).calls ↔ (c', s) ∈ n.calls ∧ c' ≠ c := by
  simp [unrest, List.mem_filter]

theorem mem_rest {n : Node σ} {c c' : CallId} {s s' : Stage σ} :
    (c', s') ∈ (n.rest c s).calls ↔ (c', s') ∈ n.calls ∨ c' = c ∧ s' = s := by
  simp [rest]

theorem mem_rest_self (n : Node σ) (c : CallId) (s : Stage σ) : (c, s) ∈ (n.rest c s).calls :=
  mem_rest.mpr (.inr ⟨rfl, rfl⟩)

theorem mem_of_stage? {n : Node σ} {c : CallId} {s : Stage σ} (h : n.stage? c = some s) :
    (c, s) ∈ n.calls := by
  obtain ⟨before, after, heq, -⟩ := List.lookup_eq_some_iff.mp h
  rw [heq]
  exact List.mem_append_right _ List.mem_cons_self

theorem isAwake_of_scheduled {n : Node σ} {c : CallId} {due : Nat} {op : Operation σ}
    (rests : n.stage? c = some (.scheduled due op)) (hdue : due ≤ n.time) :
    n.isAwake c = true := by
  simp [isAwake, rests, awake, hdue]

theorem mem_stopPuller {n : Node σ} {c : CallId} {s : Stage σ} :
    (c, s) ∈ n.stopPuller.calls ↔ (c, s) ∈ n.calls ∧ ∀ due interval, s ≠ .pulling due interval := by
  simp only [stopPuller, List.mem_filter]
  refine and_congr_right ?_
  intro _
  cases s <;> simp

/-- A call that leaves its stage leaves all others at rest. -/
theorem perm_unrest {n : Node σ} {c : CallId} {s : Stage σ} (rests : n.stage? c = some s)
    (hn : (n.calls.map (·.1)).Nodup) : n.calls.Perm ((c, s) :: (n.unrest c).calls) := by
  obtain ⟨before, after, heq, -⟩ := List.lookup_eq_some_iff.mp rests
  have hmiddle : n.calls.Perm ((c, s) :: (before ++ after)) := heq ▸ List.perm_middle
  have hnodup := (hmiddle.map (·.1)).nodup_iff.mp hn
  have hother : (before ++ after).filter (·.1 != c) = before ++ after := by
    apply List.filter_eq_self.mpr
    intro x hx
    have hne : x.1 ≠ c := fun heq =>
      (List.nodup_cons.mp hnodup).1 (List.mem_map.mpr ⟨x, hx, heq⟩)
    exact bne_iff_ne.mpr hne
  have hunrest : (n.unrest c).calls = before ++ after := by
    rw [← hother, unrest, heq]
    simp [List.filter_append]
  rw [hunrest]
  exact hmiddle

/-- Whoever pulls is stopped, and the next one sets its timer, unless for no time at all. -/
theorem startPuller_eq (n : Node σ) (interval : Nat) :
    n.startPuller interval =
      { n with
        nextCall := n.nextCall + 1
        calls := n.stopPuller.calls ++
          if interval = 0 then [] else [(n.nextCall, .pulling (n.time + interval) interval)] } := by
  unfold startPuller
  dsimp only
  split
  · rw [List.append_nil]
    rfl
  · rfl

theorem mem_startPuller {n : Node σ} {interval : Nat} {c : CallId} {s : Stage σ} :
    (c, s) ∈ (n.startPuller interval).calls ↔ (c, s) ∈ n.stopPuller.calls ∨
      interval ≠ 0 ∧ c = n.nextCall ∧ s = .pulling (n.time + interval) interval := by
  rw [startPuller_eq]
  by_cases h : interval = 0
  · simp [h]
  · simp [h]

end Node

/-! ### The numbers of the calls -/

namespace Node

/-- The numbers of the calls that rest or have answered. -/
def ids (n : Node σ) : List CallId := n.calls.map (·.1) ++ n.replies.map (·.call)

theorem ids_rest (n : Node σ) (c : CallId) (s : Stage σ) : (n.rest c s).ids.Perm (c :: n.ids) := by
  simp only [ids, rest, List.map_append, List.map_cons, List.map_nil, List.append_assoc,
    List.singleton_append]
  exact List.perm_middle

theorem ids_answer (n : Node σ) (c : CallId) (r : Reply) :
    (n.answer c r).ids.Perm (c :: n.ids) := by
  simp only [ids, answer, List.map_cons]
  exact List.perm_middle

theorem ids_unrest {n : Node σ} {c : CallId} {s : Stage σ} (rests : n.stage? c = some s)
    (hn : (n.calls.map (·.1)).Nodup) : (c :: (n.unrest c).ids).Perm n.ids :=
  (((perm_unrest rests hn).map (·.1)).append_right _).symm

theorem ids_stopPuller (n : Node σ) : n.stopPuller.ids.Sublist n.ids :=
  (List.filter_sublist.map _).append_right _

theorem Still.ids {n m : Node σ} (h : n.Still m) : m.ids = n.ids := by
  simp only [Node.ids, h.calls, h.replies]

end Node

/-- The numbers of the calls that run, rest or have answered. -/
def Midturn.ids (s : Midturn σ) : List CallId := (s.running.map (·.1)).toList ++ s.node.ids

structure Orderly (s : Midturn σ) : Prop where
  nodup : s.ids.Nodup
  below : ∀ c ∈ s.ids, c < s.node.nextCall

namespace Orderly

variable {s s' : Midturn σ}

/-- Calls go from place to place or get lost. -/
theorem of_subperm (h : Orderly s) (hids : s'.ids.Subperm s.ids)
    (hnext : s.node.nextCall ≤ s'.node.nextCall) : Orderly s' where
  nodup := by
    obtain ⟨ids, hperm, hsub⟩ := hids
    exact hperm.nodup_iff.mp (hsub.nodup h.nodup)
  below c hc := Nat.lt_of_lt_of_le (h.below c (hids.subset hc)) hnext

/-- The next number comes in. -/
theorem of_new (h : Orderly s) (hids : s'.ids.Subperm (s.node.nextCall :: s.ids))
    (hnext : s'.node.nextCall = s.node.nextCall + 1) : Orderly s' where
  nodup := by
    obtain ⟨ids, hperm, hsub⟩ := hids
    have hnew : s.node.nextCall ∉ s.ids := fun hc => Nat.lt_irrefl _ (h.below _ hc)
    exact hperm.nodup_iff.mp (hsub.nodup (List.nodup_cons.mpr ⟨hnew, h.nodup⟩))
  below c hc := by
    rw [hnext]
    rcases List.mem_cons.mp (hids.subset hc) with rfl | hc
    · exact Nat.lt_succ_self _
    · exact Nat.lt_succ_of_lt (h.below c hc)

theorem notMem_calls (h : Orderly s) {c : CallId} {p : Point σ} (hrun : s.running = some (c, p))
    (st : Stage σ) : (c, st) ∉ s.node.calls := by
  intro hc
  have hnodup := h.nodup
  simp only [Midturn.ids, hrun, Option.map_some, Option.toList_some, List.singleton_append,
    List.nodup_cons] at hnodup
  exact hnodup.1 (List.mem_append_left _ (List.mem_map_of_mem hc))

theorem notMem_replies (h : Orderly s) {c : CallId} {p : Point σ} (hrun : s.running = some (c, p))
    {r : Replied} (hr : r ∈ s.node.replies) : r.call ≠ c := by
  intro hc
  have hnodup := h.nodup
  simp only [Midturn.ids, hrun, Option.map_some, Option.toList_some, List.singleton_append,
    List.nodup_cons] at hnodup
  exact hnodup.1 (List.mem_append_right _ (List.mem_map.mpr ⟨r, hr, hc⟩))

theorem nodup_calls (h : Orderly s) : (s.node.calls.map (·.1)).Nodup :=
  (List.nodup_append.mp (List.nodup_append.mp h.nodup).2.1).1

theorem stage_unique (h : Orderly s) {c : CallId} {st st' : Stage σ} (hc : (c, st) ∈ s.node.calls)
    (hc' : (c, st') ∈ s.node.calls) : st = st' := by
  have := List.inj_on_of_nodup_map h.nodup_calls hc hc' rfl
  exact (Prod.mk.inj this).2

theorem lt_nextCall (h : Orderly s) {c : CallId} {st : Stage σ} (hc : (c, st) ∈ s.node.calls) :
    c < s.node.nextCall :=
  h.below c (List.mem_append_right _ (List.mem_append_left _ (List.mem_map_of_mem hc)))

theorem reply_unique (h : Orderly s) {r r' : Replied} (hr : r ∈ s.node.replies)
    (hr' : r' ∈ s.node.replies) (heq : r.call = r'.call) : r = r' :=
  List.inj_on_of_nodup_map (List.nodup_append.mp (List.nodup_append.mp h.nodup).2.1).2.1 hr hr' heq

theorem not_answered (h : Orderly s) {c : CallId} {st : Stage σ} (hc : (c, st) ∈ s.node.calls)
    {r : Replied} (hr : r ∈ s.node.replies) : r.call ≠ c := fun heq =>
  (List.nodup_append.mp (List.nodup_append.mp h.nodup).2.1).2.2 c (List.mem_map_of_mem hc) r.call
    (List.mem_map_of_mem hr) heq.symm

theorem stage?_eq (h : Orderly s) {c : CallId} {st : Stage σ} (hc : (c, st) ∈ s.node.calls) :
    s.node.stage? c = some st := by
  cases hs : s.node.stage? c with
  | none =>
    have hno := List.lookup_eq_none_iff.mp hs (c, st) hc
    simp at hno
  | some st' => rw [h.stage_unique hc (Node.mem_of_stage? hs)]

end Orderly

/-! ### Moves -/

/-- Only the calls that stop pulling get lost. -/
theorem ids_startPuller (n : Node σ) (interval : Nat) :
    (n.startPuller interval).ids.Subperm (n.nextCall :: n.ids) := by
  have hstop : (n.nextCall :: n.stopPuller.ids).Subperm (n.nextCall :: n.ids) :=
    (n.ids_stopPuller.cons_cons _).subperm
  unfold Node.startPuller
  dsimp only
  split
  · exact (List.sublist_cons_self ..).subperm.trans hstop
  · exact (Node.ids_rest ..).subperm.trans hstop

/-- **Every move leaves each call in one place.** -/
theorem Orderly.move [Registry σ] {s s' : Midturn σ} (h : Orderly s) (m : Move s s') :
    Orderly s' := by
  cases m with
  | call n op => exact h.of_new (List.Perm.subperm (.refl _)) rfl
  | callAfter n wait op => exact h.of_new (Node.ids_rest ..).subperm rfl
  | wake rests awake =>
    exact h.of_subperm (Node.ids_unrest rests h.nodup_calls).subperm (Nat.le_refl _)
  | quiet q =>
    rename_i n n' c k p p'
    have hids : c :: n'.ids = c :: n.ids := by rw [q.still.ids]
    exact h.of_subperm (List.Perm.of_eq hids).subperm (Nat.le_of_eq q.still.nextCall.symm)
  | answer n c k r => exact h.of_subperm (Node.ids_answer ..).subperm (Nat.le_refl _)
  | protect | protectView | forget | create | beginFirst | endFirst | lock | askNow | hear | apply
  | applyNext | enlisted =>
    exact h.of_subperm (List.Perm.subperm (.refl _)) (Nat.le_refl _)
  | sleep | awaitFirst | wait | ask | forceWait | sweepSome =>
    exact h.of_subperm (Node.ids_rest ..).subperm (Nat.le_refl _)
  | startPuller n c k interval =>
    have hids := (List.subperm_cons c).mpr (ids_startPuller n interval)
    have hnext : (n.startPuller interval).nextCall = n.nextCall + 1 := by rw [n.startPuller_eq]
    exact h.of_new (hids.trans (List.Perm.swap ..).subperm) hnext
  | stopPuller n c k =>
    exact h.of_subperm (n.ids_stopPuller.cons_cons c).subperm (Nat.le_refl _)
  | tick n c k due interval =>
    refine h.of_new (List.Perm.subperm ?_) rfl
    exact (Node.ids_rest ..).trans (.cons _ (Node.ids_rest ..))
  | enlist n sweep forced e rest => exact h.of_new (List.Perm.subperm (.refl _)) rfl
  | member rests hmore =>
    -- the member's call is over and leaves no answer
    have hids := Node.ids_unrest rests h.nodup_calls
    refine h.of_subperm (((Node.ids_rest ..).trans hids).subperm.trans ?_) (Nat.le_refl _)
    exact (List.sublist_cons_self ..).subperm
  | lastMember rests hall =>
    have hids := Node.ids_unrest rests h.nodup_calls
    refine h.of_subperm (hids.subperm.trans ?_) (Nat.le_refl _)
    exact (List.sublist_cons_self ..).subperm
  | stray hno =>
    exact h.of_subperm (List.sublist_cons_self ..).subperm (Nat.le_refl _)

/-- Within a turn a call rests on; pullers may be stopped, and a sweep is over when its last
    member is. -/
theorem Move.rests [Registry σ] {s s' : Midturn σ} (m : Move s s') (busy : s.busy = true)
    {c : CallId} {st : Stage σ} (hc : (c, st) ∈ s.node.calls) (ho : Orderly s)
    (hpull : ∀ due interval, st ≠ .pulling due interval)
    (hpass : ∀ forced members, st ≠ .pass forced members) : (c, st) ∈ s'.node.calls := by
  cases m with
  | call | callAfter | wake => cases busy
  | sleep | awaitFirst | wait | ask | forceWait | sweepSome =>
    exact Node.mem_rest.mpr (.inl hc)
  | tick => exact Node.mem_rest.mpr (.inl (Node.mem_rest.mpr (.inl hc)))
  | quiet q => exact q.still.calls ▸ hc
  | stopPuller => exact Node.mem_stopPuller.mpr ⟨hc, hpull⟩
  | startPuller n c' k interval =>
    exact Node.mem_startPuller.mpr (.inl (Node.mem_stopPuller.mpr ⟨hc, hpull⟩))
  | @member n c' k e status sweep forced members rests hmore =>
    refine Node.mem_rest.mpr (.inl (Node.mem_unrest.mpr ⟨hc, ?_⟩))
    rintro rfl
    exact hpass _ _ (ho.stage_unique hc (Node.mem_of_stage? rests))
  | @lastMember n c' k e status sweep forced members rests hall =>
    refine Node.mem_unrest.mpr ⟨hc, ?_⟩
    rintro rfl
    exact hpass _ _ (ho.stage_unique hc (Node.mem_of_stage? rests))
  | _ => exact hc

/-- A call rests on until it wakes. -/
theorem Move.rests_or_wakes [Registry σ] {s s' : Midturn σ} (m : Move s s') {c : CallId}
    {st : Stage σ} (hc : (c, st) ∈ s.node.calls) (ho : Orderly s)
    (hpull : ∀ due interval, st ≠ .pulling due interval)
    (hpass : ∀ forced members, st ≠ .pass forced members) :
    (c, st) ∈ s'.node.calls ∨
      s.node.awake c st = true ∧ s' = ⟨s.node.unrest c, some (c, st.point), none⟩ := by
  cases hbusy : s.busy with
  | true => exact .inl (m.rests hbusy hc ho hpull hpass)
  | false =>
    cases m with
    | call => exact .inl hc
    | callAfter => exact .inl (Node.mem_rest.mpr (.inl hc))
    | @wake n c' st' rests awake =>
      by_cases heq : c = c'
      · subst heq
        cases ho.stage_unique hc (Node.mem_of_stage? rests)
        exact .inr ⟨awake, rfl⟩
      · exact .inl (Node.mem_unrest.mpr ⟨hc, heq⟩)
    | _ => cases hbusy

theorem Onward.rests [Registry σ] {s s' : Midturn σ} (onward : Onward s s') {c : CallId}
    {st : Stage σ} (hc : (c, st) ∈ s.node.calls) (ho : Orderly s)
    (hpull : ∀ due interval, st ≠ .pulling due interval)
    (hpass : ∀ forced members, st ≠ .pass forced members) : (c, st) ∈ s'.node.calls := by
  suffices Orderly s' ∧ (c, st) ∈ s'.node.calls from this.2
  exact onward.keeps (I := fun s => Orderly s ∧ (c, st) ∈ s.node.calls)
    (fun busy ⟨ho, hc⟩ m => ⟨ho.move m, m.rests busy hc ho hpull hpass⟩) ⟨ho, hc⟩

end ServiceFinder
