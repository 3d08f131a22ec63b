/-
  ServiceFinder/Proofs/Node/Line.lean
  ===================================
  **The write lock of a view is in one hand.**

  Getting in line and being handed the lock are two different things: a call gets the
  lock when the one before it leaves, and takes it up at some later turn.  So the lock
  is described from both sides.  Whoever does what needs the lock stands first in the
  line (`resting`, `running`), and whoever stands in the line is there to be found
  (`present`).  Together with `Orderly` this gives mutual exclusion: two calls with the
  lock of one view would both stand first.
-/
import ServiceFinder.Proofs.Node.Touch

namespace ServiceFinder

variable {σ : Type}

/-- The lines for the write locks agree with what calls do. -/
structure InLine (s : Midturn σ) : Prop where
  nodup : ∀ e, (s.node.entry e).writers.Nodup
  /-- Who rests with the lock stands first. -/
  resting : ∀ {c st e}, (c, st) ∈ s.node.calls → st.holds? = some e →
    (s.node.entry e).writers.head? = some c
  /-- Who runs with the lock stands first. -/
  running : ∀ {c e}, s.hold? = some (c, e) → (s.node.entry e).writers.head? = some c
  /-- Who stands in the line rests for the lock or runs with it. -/
  present : ∀ {c e}, c ∈ (s.node.entry e).writers →
    (∃ st, (c, st) ∈ s.node.calls ∧ st.line? = some e) ∨ s.hold? = some (c, e)

namespace InLine

variable {s s' : Midturn σ}

theorem lt_length (h : InLine s) {c : CallId} {e : EntryId} (hc : s.hold? = some (c, e)) :
    e < s.node.directory.entries.length :=
  Node.lt_length_of_writes (h.running hc)

/-- At most one call holds the write lock of a view at rest. -/
theorem exclusive (h : InLine s) {c c' : CallId} {st st' : Stage σ} {e : EntryId}
    (hc : (c, st) ∈ s.node.calls) (hc' : (c', st') ∈ s.node.calls)
    (he : st.holds? = some e) (he' : st'.holds? = some e) : c = c' :=
  Option.some.inj ((h.resting hc he).symm.trans (h.resting hc' he'))

/-- While a call runs with the lock, nobody rests with it. -/
theorem alone (h : InLine s) (ho : Orderly s) {c : CallId} {p : Point σ} {e : EntryId}
    (hrun : s.running = some (c, p)) (hp : p.holds? = some e) {c' : CallId} {st : Stage σ}
    (hc : (c', st) ∈ s.node.calls) : st.holds? ≠ some e := by
  intro he
  have hhold : s.hold? = some (c, e) := by simp [Midturn.hold?, hrun, hp]
  have heq : c' = c := Option.some.inj ((h.resting hc he).symm.trans (h.running hhold))
  exact ho.notMem_calls hrun st (heq ▸ hc)

theorem of_eq (h : InLine s)
    (hw : ∀ e, (s'.node.entry e).writers = (s.node.entry e).writers)
    (hcalls : ∀ c st e, st.line? = some e → ((c, st) ∈ s'.node.calls ↔ (c, st) ∈ s.node.calls))
    (hhold : s'.hold? = s.hold?) : InLine s' where
  nodup e := hw e ▸ h.nodup e
  resting {c st e} hc he := by
    rw [hw e]
    exact h.resting ((hcalls c st e (Stage.line?_of_holds? he)).mp hc) he
  running {c e} hc := by
    rw [hw e]
    exact h.running (hhold ▸ hc)
  present {c e} hc := by
    rw [hw e] at hc
    rcases h.present hc with ⟨st, hst, hline⟩ | hrun
    · exact .inl ⟨st, (hcalls c st e hline).mpr hst, hline⟩
    · exact .inr (hhold.trans hrun)

/-- A running call is not in any line unless it has the lock. -/
theorem notMem_writers (h : InLine s) (ho : Orderly s) {c : CallId} {p : Point σ}
    (hrun : s.running = some (c, p)) (hp : p.holds? = none) (e : EntryId) :
    c ∉ (s.node.entry e).writers := by
  intro hc
  rcases h.present hc with ⟨st, hst, -⟩ | hhold
  · exact ho.notMem_calls hrun st hst
  · simp [Midturn.hold?, hrun, hp] at hhold

/-! ### The moves at the lock -/

/-- A call takes up the lock that it was handed. -/
theorem wake (h : InLine s) (ho : Orderly s) {c : CallId} {st : Stage σ} {p : Point σ}
    {e : EntryId} {k : Option (CallId × Bool × List EntryId)}
    (rests : s.node.stage? c = some st) (hline : st.line? = some e) (hp : p.holds? = some e)
    (hhold : s.hold? = none) (hhead : (s.node.entry e).writers.head? = some c) :
    InLine ⟨s.node.unrest c, some (c, p), k⟩ where
  nodup := h.nodup
  resting {c' st' e'} hc he := h.resting (Node.mem_unrest.mp hc).1 he
  running {c' e'} hc := by
    simp only [Midturn.hold?_some, hp, Option.map_some, Option.some.injEq, Prod.mk.injEq] at hc
    obtain ⟨rfl, rfl⟩ := hc
    exact hhead
  present {c' e'} hc := by
    rcases h.present hc with ⟨st', hst', hline'⟩ | hrun
    · by_cases hne : c' = c
      · subst hne
        rw [ho.stage_unique hst' (Node.mem_of_stage? rests), hline] at hline'
        exact .inr (by simp [hp, hline'])
      · exact .inl ⟨st', Node.mem_unrest.mpr ⟨hst', hne⟩, hline'⟩
    · rw [hhold] at hrun
      cases hrun

end InLine

namespace Node

theorem writers_queueWriter (n : Node σ) (c : CallId) (e e' : EntryId) :
    ((n.queueWriter c e).entry e').writers =
      if e' = e ∧ e < n.directory.entries.length then (n.entry e).writers ++ [c]
      else (n.entry e').writers := by
  rw [queueWriter, entry_modifyEntry]
  split <;> rfl

/-- Who is handed the lock at once found nobody in line. -/
theorem writers_of_lock {n : Node σ} {c : CallId} {e : EntryId}
    (h : (n.queueWriter c e).writes c e = true) (hc : c ∉ (n.entry e).writers) :
    (n.entry e).writers = [] := by
  rw [writes, beq_iff_eq, writers_queueWriter] at h
  cases hw : (n.entry e).writers with
  | nil => rfl
  | cons w ws =>
    have hwc : w = c := by
      split at h
      · simpa [hw] using h
      · simpa [hw] using h
    rw [hw, hwc] at hc
    exact absurd List.mem_cons_self hc

end Node

namespace InLine

variable {s s' : Midturn σ}

/-- A call gets in line and has the lock at once. -/
theorem lock (h : InLine s) (ho : Orderly s) {c : CallId} {p p' : Point σ} {e : EntryId}
    {k : Option (CallId × Bool × List EntryId)} (hrun : s.running = some (c, p))
    (hp : p.holds? = none) (hp' : p'.holds? = some e)
    (hfree : (s.node.queueWriter c e).writes c e = true) :
    InLine ⟨s.node.queueWriter c e, some (c, p'), k⟩ := by
  have hnil := Node.writers_of_lock hfree (h.notMem_writers ho hrun hp e)
  have hhead : ((s.node.queueWriter c e).entry e).writers.head? = some c := beq_iff_eq.mp hfree
  have hhold : s.hold? = none := by simp [Midturn.hold?, hrun, hp]
  constructor
  · intro e'
    show ((s.node.queueWriter c e).entry e').writers.Nodup
    rw [Node.writers_queueWriter]
    split
    · simp [hnil]
    · exact h.nodup e'
  · intro c' st' e' hc he
    have hold := h.resting hc he
    have hne : e' ≠ e := by
      rintro rfl
      simp [hnil] at hold
    show ((s.node.queueWriter c e).entry e').writers.head? = some c'
    rw [Node.writers_queueWriter, if_neg fun heq => hne heq.1]
    exact hold
  · intro c' e' hc
    simp only [Midturn.hold?_some, hp', Option.map_some, Option.some.injEq, Prod.mk.injEq] at hc
    obtain ⟨rfl, rfl⟩ := hc
    exact hhead
  · intro c' e' hc
    replace hc : c' ∈ ((s.node.queueWriter c e).entry e').writers := hc
    rw [Node.writers_queueWriter] at hc
    split at hc
    · rename_i heq
      rw [hnil, List.nil_append, List.mem_singleton] at hc
      exact .inr (by simp [hp', hc, heq.1])
    · rcases h.present hc with hst | hrun'
      · exact .inl hst
      · rw [hhold] at hrun'
        cases hrun'

/-- A call gets in line behind others. -/
theorem wait (h : InLine s) (ho : Orderly s) {c : CallId} {p : Point σ} {st : Stage σ}
    {e : EntryId} {k : Option (CallId × Bool × List EntryId)} (hrun : s.running = some (c, p))
    (hp : p.holds? = none) (hline : st.line? = some e) (hholds : st.holds? = none)
    (hbusy : (s.node.queueWriter c e).writes c e = false) :
    InLine ⟨(s.node.queueWriter c e).rest c st, none, k⟩ := by
  have hhold : s.hold? = none := by simp [Midturn.hold?, hrun, hp]
  have hhead (e' : EntryId) (c' : CallId) (hc : (s.node.entry e').writers.head? = some c') :
      ((s.node.queueWriter c e).entry e').writers.head? = some c' := by
    rw [Node.writers_queueWriter]
    split
    · rename_i heq
      rw [← heq.1, List.head?_append, hc, Option.some_or]
    · exact hc
  constructor
  · intro e'
    show ((s.node.queueWriter c e).entry e').writers.Nodup
    rw [Node.writers_queueWriter]
    split
    · have hnew := h.notMem_writers ho hrun hp e
      exact List.nodup_append.mpr ⟨h.nodup e, List.nodup_singleton c, fun a ha b hb heq =>
        hnew (List.mem_singleton.mp hb ▸ heq ▸ ha)⟩
    · exact h.nodup e'
  · intro c' st' e' hc he
    rcases Node.mem_rest.mp hc with hc | ⟨rfl, rfl⟩
    · exact hhead e' c' (h.resting hc he)
    · rw [hholds] at he
      cases he
  · intro c' e' hc
    cases hc
  · intro c' e' hc
    replace hc : c' ∈ ((s.node.queueWriter c e).entry e').writers := hc
    have hin : c' ∈ (s.node.entry e').writers ∨ c' = c ∧ e' = e := by
      rw [Node.writers_queueWriter] at hc
      split at hc
      · rename_i heq
        rcases List.mem_append.mp hc with hc | hc
        · exact .inl (heq.1 ▸ hc)
        · exact .inr ⟨List.mem_singleton.mp hc, heq.1⟩
      · exact .inl hc
    rcases hin with hin | ⟨rfl, rfl⟩
    · rcases h.present hin with ⟨st', hst', hline'⟩ | hrun'
      · exact .inl ⟨st', Node.mem_rest.mpr (.inl hst'), hline'⟩
      · rw [hhold] at hrun'
        cases hrun'
    · exact .inl ⟨st, Node.mem_rest.mpr (.inr ⟨rfl, rfl⟩), hline⟩

/-- A call comes to rest with the lock. -/
theorem keep (h : InLine s) {n : Node σ} {c : CallId} {st : Stage σ} {e : EntryId}
    {k : Option (CallId × Bool × List EntryId)} (hhold : s.hold? = some (c, e))
    (hw : ∀ e', (n.entry e').writers = (s.node.entry e').writers) (hcalls : n.calls = s.node.calls)
    (hline : st.line? = some e) : InLine ⟨n.rest c st, none, k⟩ where
  nodup e' := hw e' ▸ h.nodup e'
  resting {c' st' e'} hc he := by
    refine (congrArg List.head? (hw e')).trans ?_
    rcases Node.mem_rest.mp hc with hc | ⟨rfl, rfl⟩
    · exact h.resting (hcalls ▸ hc) he
    · rw [Stage.line?_of_holds? he, Option.some.injEq] at hline
      subst hline
      exact h.running hhold
  running hc := nomatch hc
  present {c' e'} hc := by
    rcases h.present (hw e' ▸ hc) with ⟨st', hst', hline'⟩ | hrun
    · exact .inl ⟨st', Node.mem_rest.mpr (.inl (hcalls ▸ hst')), hline'⟩
    · rw [hhold, Option.some.injEq, Prod.mk.injEq] at hrun
      obtain ⟨rfl, rfl⟩ := hrun
      exact .inl ⟨st, Node.mem_rest.mpr (.inr ⟨rfl, rfl⟩), hline⟩

/-- A call hands the lock on. -/
theorem leave (h : InLine s) (ho : Orderly s) {n : Node σ} {c : CallId} {p p' : Point σ}
    {e : EntryId} {k : Option (CallId × Bool × List EntryId)} (hrun : s.running = some (c, p))
    (hp : p.holds? = some e) (hp' : p'.holds? = none) (r : s.node.Revised n e) :
    InLine ⟨n, some (c, p'), k⟩ := by
  have hhold : s.hold? = some (c, e) := by simp [Midturn.hold?, hrun, hp]
  have hfirst := h.running hhold
  constructor
  · intro e'
    by_cases he : e' = e
    · exact he ▸ r.writers ▸ (h.nodup e).tail
    · exact r.other he ▸ h.nodup e'
  · intro c' st' e' hc he
    have hst : (c', st') ∈ s.node.calls := r.calls ▸ hc
    have hne : e' ≠ e := by
      rintro rfl
      exact h.alone ho hrun hp hst he
    rw [r.other hne]
    exact h.resting hst he
  · intro c' e' hc
    simp [hp'] at hc
  · intro c' e' hc
    have hin : c' ∈ (s.node.entry e').writers ∧ ¬ (c' = c ∧ e' = e) := by
      by_cases he : e' = e
      · subst he
        rw [r.writers] at hc
        refine ⟨List.mem_of_mem_tail hc, ?_⟩
        intro heq
        -- whoever leaves stood in the line only once
        have hnodup := h.nodup e'
        rw [List.head?_eq_some_iff] at hfirst
        obtain ⟨ws, hws⟩ := hfirst
        rw [hws] at hc hnodup
        exact (List.nodup_cons.mp hnodup).1 (heq.1 ▸ hc)
      · exact ⟨r.other he ▸ hc, fun heq => he heq.2⟩
    rcases h.present hin.1 with ⟨st', hst', hline'⟩ | hrun'
    · exact .inl ⟨st', r.calls.symm ▸ hst', hline'⟩
    · rw [hhold, Option.some.injEq, Prod.mk.injEq] at hrun'
      exact absurd ⟨hrun'.1.symm, hrun'.2.symm⟩ hin.2

end InLine

/-! ### Every move -/

/-- Who wakes in a line for a lock has it. -/
theorem InLine.head?_of_awake {n : Node σ} {k : Option (CallId × Bool × List EntryId)}
    (h : InLine (⟨n, none, k⟩ : Midturn σ)) {c : CallId} {st : Stage σ} {e : EntryId}
    (rests : n.stage? c = some st) (awake : n.awake c st = true) (hline : st.line? = some e) :
    (n.entry e).writers.head? = some c := by
  cases st with
  | refreshing e' next => cases hline; exact beq_iff_eq.mp awake
  | changing e' change next => cases hline; exact beq_iff_eq.mp awake
  | fetching e' due o next => cases hline; exact h.resting (Node.mem_of_stage? rests) rfl
  | _ => cases hline

theorem InLine.touch [Registry σ] {s s' : Midturn σ} (h : InLine s) (ho : Orderly s)
    (t : Touch s s') : InLine s' := by
  cases t with
  | @wake n c st e rests awake hline =>
    exact h.wake ho rests hline (by simp [hline]) rfl (h.head?_of_awake rests awake hline)
  | forget n c k e | @beginFirst n c k e | endFirst n c k e =>
    exact h.of_eq (fun e' => n.entry_modifyEntry_congr Entry.writers e e' rfl)
      (fun _ _ _ _ => .rfl) rfl
  | @create n c k key next valid hfind =>
    exact h.of_eq (n.writers_created key) (fun _ _ _ _ => .rfl) rfl
  | lock hfree => exact h.lock ho rfl rfl (by simp) hfree
  | wait hbusy => exact h.wait ho rfl rfl (by simp) (by simp) hbusy
  | askNow hwait => exact h.of_eq (fun _ => rfl) (fun _ _ _ _ => .rfl) rfl
  | ask hwait => exact h.keep rfl (fun _ => rfl) rfl rfl
  | hear n c k e o next =>
    exact h.leave ho rfl rfl rfl (n.revised_settled c o next (h.lt_length rfl))
  | apply n c k e change next hold first =>
    exact h.leave ho rfl rfl hold (n.revised_applyChange c change (h.lt_length rfl))

/-- **Every move keeps the lines in order.** -/
theorem InLine.move [Registry σ] {s s' : Midturn σ} (h : InLine s) (ho : Orderly s)
    (m : Move s s') : InLine s' := by
  rcases m.apart_or_touch ho with ha | ht
  · exact h.of_eq ha.writers (fun _ _ _ hline => ha.calls hline)
      (ha.aside'.hold.trans ha.aside.hold.symm)
  · exact h.touch ho ht

/-! ### Whoever waits stands in line -/

/-- The calls at rest that `P` holds of stand in the lines that they wait in. -/
def Lined (P : Stage σ → Prop) (s : Midturn σ) : Prop :=
  ∀ c st e, (c, st) ∈ s.node.calls → P st → st.line? = some e → c ∈ (s.node.entry e).writers

/-- Nobody leaves a line because another call gets in. -/
theorem Node.mem_writers_queueWriter {n : Node σ} {c c' : CallId} {e e' : EntryId}
    (h : c' ∈ (n.entry e').writers) : c' ∈ ((n.queueWriter c e).entry e').writers := by
  rw [writers_queueWriter]
  split
  · rename_i heq
    exact List.mem_append_left _ (heq.1 ▸ h)
  · exact h

namespace Lined

variable {P : Stage σ → Prop} {s s' : Midturn σ}

theorem of_eq (h : Lined P s)
    (hcalls : ∀ {c st e}, Stage.line? st = some e → (c, st) ∈ s'.node.calls →
      (c, st) ∈ s.node.calls)
    (hw : ∀ e, (s'.node.entry e).writers = (s.node.entry e).writers) : Lined P s' := by
  intro c st e hc hP hline
  rw [hw]
  exact h c st e (hcalls hline hc) hP hline

/-- Whoever has the lock hands it on, and leaves the rest of the line alone. -/
theorem leave {n n' : Node σ} {c : CallId} {v : EntryId} {p p' : Point σ}
    {k : Option (CallId × Bool × List EntryId)} (h : Lined P ⟨n, some (c, p), k⟩)
    (hi : InLine ⟨n, some (c, p), k⟩) (ho : Orderly ⟨n, some (c, p), k⟩)
    (hp : p.holds? = some v) (r : n.Revised n' v) : Lined P ⟨n', some (c, p'), k⟩ := by
  intro c' st e hc hP hline
  have hold : (c', st) ∈ n.calls := r.calls ▸ hc
  have hin : c' ∈ (n.entry e).writers := h c' st e hold hP hline
  show c' ∈ (n'.entry e).writers
  by_cases he : e = v
  · subst he
    have hhold : Midturn.hold? ⟨n, some (c, p), k⟩ = some (c, e) := by simp [hp]
    obtain ⟨rest, hrest⟩ := List.head?_eq_some_iff.mp (hi.running hhold)
    rw [r.writers, hrest]
    replace hin : c' ∈ c :: rest := hrest ▸ hin
    rcases List.mem_cons.mp hin with rfl | hin
    · exact absurd hold (ho.notMem_calls rfl _)
    · exact hin
  · rw [r.other he]
    exact hin

/-- **Every call that begins to wait for the lock of a view that was made gets in line.** -/
theorem move [Registry σ] (h : Lined P s) (hi : InLine s) (ho : Orderly s)
    (made : ∀ {c e job}, s.running = some (c, .lining e job) → P (job.stage e) →
      e < s.node.directory.entries.length) (m : Move s s') : Lined P s' := by
  rcases m.apart_or_touch ho with ha | ht
  · exact h.of_eq (fun hline hc => (ha.calls hline).mp hc) ha.writers
  · cases ht with
    | wake rests awake line =>
      exact h.of_eq (fun _ hc => (Node.mem_unrest.mp hc).1) fun _ => rfl
    | forget n c k v | @beginFirst n c k v | endFirst n c k v =>
      exact h.of_eq (fun _ hc => hc) fun e => n.entry_modifyEntry_congr Entry.writers v e rfl
    | @create n c k key next valid hfind =>
      exact h.of_eq (fun _ hc => hc) fun e => n.writers_created key e
    | lock hfree =>
      intro c' st e hc hP hline
      exact Node.mem_writers_queueWriter (h c' st e hc hP hline)
    | @wait n c k v job hbusy =>
      intro c' st e hc hP hline
      rcases Node.mem_rest.mp hc with hc | ⟨rfl, rfl⟩
      · exact Node.mem_writers_queueWriter (h c' st e hc hP hline)
      · obtain rfl : v = e := by simpa using hline
        show c' ∈ ((n.queueWriter c' v).entry v).writers
        rw [Node.writers_queueWriter, if_pos ⟨rfl, made rfl hP⟩]
        exact List.mem_append_right _ (List.mem_singleton_self c')
    | askNow => exact h.of_eq (fun _ hc => hc) fun _ => rfl
    | @ask n c k v next hwait =>
      intro c' st e hc hP hline
      rcases Node.mem_rest.mp hc with hc | ⟨rfl, rfl⟩
      · exact h c' st e hc hP hline
      · -- who asks has the lock, and stands first
        cases hline
        exact List.mem_of_head? (hi.running rfl)
    | hear n c k v o next =>
      exact h.leave hi ho rfl (n.revised_settled c o next (hi.lt_length rfl))
    | apply n c k v change next hold first =>
      exact h.leave hi ho rfl (n.revised_applyChange c change (hi.lt_length rfl))

end Lined

end ServiceFinder
