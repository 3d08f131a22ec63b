/-
  ServiceFinder/Proofs/Node/SweepLine.lean
  ========================================
  **The line for the sweep lock.**

  A sweep gets in line for the sweep lock, or leaves at once if it may not wait.  It stands in
  the line from then on until its pass is over, and it makes its pass while it stands first.
  So the line says who sweeps, and at most one call at a time has taken the lock up.
-/
import ServiceFinder.Proofs.Node.Members

namespace ServiceFinder

variable {σ : Type}

/-! ### The line for the sweep lock -/

/-- The call `c` is a sweep that rests, or runs with the sweep lock. -/
def Midturn.Sweeps (s : Midturn σ) (c : CallId) : Prop :=
  (∃ st, (c, st) ∈ s.node.calls ∧ st.isSweep = true) ∨
    ∃ p, s.running = some (c, p) ∧ p.isSweep = true

/-- The call `c` has taken up the sweep lock. -/
def Midturn.HasBroom (s : Midturn σ) (c : CallId) : Prop :=
  (∃ forced members, (c, .pass forced members) ∈ s.node.calls) ∨
    ∃ p, s.running = some (c, p) ∧ p.isSweep = true

/-- The sweeps stand in line, and who has taken up the lock stands first. -/
structure SweepLine (s : Midturn σ) : Prop where
  nodup : s.node.directory.sweepers.Nodup
  present : ∀ {c}, c ∈ s.node.directory.sweepers ↔ s.Sweeps c
  holder : ∀ {c}, s.HasBroom c → s.node.directory.sweepers.head? = some c

theorem Clear.sweeps_iff {s s' : Midturn σ} (h : Clear s s') (c : CallId) :
    s'.Sweeps c ↔ s.Sweeps c := by
  constructor
  · rintro (⟨st, hc, hst⟩ | ⟨p, hrun, hp⟩)
    · exact .inl ⟨st, (h.calls hst).mp hc, hst⟩
    · cases hp.symm.trans (h.running' hrun)
  · rintro (⟨st, hc, hst⟩ | ⟨p, hrun, hp⟩)
    · exact .inl ⟨st, (h.calls hst).mpr hc, hst⟩
    · cases hp.symm.trans (h.running hrun)

theorem Clear.hasBroom {s s' : Midturn σ} (h : Clear s s') {c : CallId} (hc : s'.HasBroom c) :
    s.HasBroom c := by
  rcases hc with ⟨forced, members, hc⟩ | ⟨p, hrun, hp⟩
  · exact .inl ⟨forced, members, (h.calls rfl).mp hc⟩
  · cases hp.symm.trans (h.running' hrun)

namespace SweepLine

variable {s s' : Midturn σ}

theorem of_clear (h : SweepLine s) (hc : Clear s s') : SweepLine s' where
  nodup := hc.sweepers ▸ h.nodup
  present {c} := by
    rw [hc.sweepers, h.present, hc.sweeps_iff]
  holder {c} hholds := by
    rw [hc.sweepers]
    exact h.holder (hc.hasBroom hholds)

/-- One sweep goes from one place to another, and all others stay where they are. -/
theorem of_one (h : SweepLine s) (c : CallId)
    (hsweepers : s'.node.directory.sweepers = s.node.directory.sweepers)
    (hcalls : ∀ {c' st}, c' ≠ c → Stage.isSweep st = true →
      ((c', st) ∈ s'.node.calls ↔ (c', st) ∈ s.node.calls))
    (hrun : ∀ {c' p}, s.running = some (c', p) → p.isSweep = true → c' = c)
    (hrun' : ∀ {c' p}, s'.running = some (c', p) → p.isSweep = true → c' = c)
    (hin : s.Sweeps c) (hin' : s'.Sweeps c)
    (hfirst : s.node.directory.sweepers.head? = some c) : SweepLine s' where
  nodup := hsweepers ▸ h.nodup
  present {c'} := by
    rw [hsweepers, h.present]
    by_cases hc : c' = c
    · subst hc
      exact iff_of_true hin hin'
    · constructor
      · rintro (⟨st, hst, hsweep⟩ | ⟨p, hr, hp⟩)
        · exact .inl ⟨st, (hcalls hc hsweep).mpr hst, hsweep⟩
        · exact absurd (hrun hr hp) hc
      · rintro (⟨st, hst, hsweep⟩ | ⟨p, hr, hp⟩)
        · exact .inl ⟨st, (hcalls hc hsweep).mp hst, hsweep⟩
        · exact absurd (hrun' hr hp) hc
  holder {c'} hc' := by
    rw [hsweepers]
    by_cases hc : c' = c
    · rw [hc]
      exact hfirst
    · rcases hc' with ⟨forced, members, hst⟩ | ⟨p, hr, hp⟩
      · exact h.holder (.inl ⟨forced, members, (hcalls hc rfl).mp hst⟩)
      · exact absurd (hrun' hr hp) hc

theorem unique (h : SweepLine s) {c c' : CallId} (hc : s.HasBroom c) (hc' : s.HasBroom c') :
    c = c' :=
  Option.some.inj ((h.holder hc).symm.trans (h.holder hc'))

/-- A running call that is no sweep is not in line. -/
theorem notMem_sweepers (h : SweepLine s) (ho : Orderly s) {c : CallId} {p : Point σ}
    (hrun : s.running = some (c, p)) (hp : p.isSweep = false) :
    c ∉ s.node.directory.sweepers := by
  intro hc
  rcases h.present.mp hc with ⟨st, hst, -⟩ | ⟨p', hrun', hp'⟩
  · exact ho.notMem_calls hrun st hst
  · rw [hrun] at hrun'
    cases hrun'
    cases hp'.symm.trans hp

/-- A call gets in line for the sweep lock. -/
theorem join (h : SweepLine s) (ho : Orderly s) {n : Node σ} {c : CallId} {p : Point σ}
    {r : Option (CallId × Point σ)} {k : Option (CallId × Bool × List EntryId)}
    (hrun : s.running = some (c, p)) (hp : p.isSweep = false)
    (hsweepers : n.directory.sweepers = s.node.directory.sweepers ++ [c])
    (hsweeps : ∀ c', Midturn.Sweeps ⟨n, r, k⟩ c' ↔ s.Sweeps c' ∨ c' = c)
    (hbroom : ∀ c', Midturn.HasBroom ⟨n, r, k⟩ c' →
      s.HasBroom c' ∨ n.directory.sweepers.head? = some c') : SweepLine ⟨n, r, k⟩ where
  nodup := by
    show n.directory.sweepers.Nodup
    rw [hsweepers]
    apply List.nodup_append.mpr
    refine ⟨h.nodup, List.nodup_singleton c, ?_⟩
    intro a ha b hb heq
    rw [List.mem_singleton.mp hb] at heq
    exact h.notMem_sweepers ho hrun hp (heq ▸ ha)
  present {c'} := by
    show c' ∈ n.directory.sweepers ↔ _
    rw [hsweepers, List.mem_append, List.mem_singleton, h.present, hsweeps]
  holder {c'} hc' := by
    rcases hbroom c' hc' with hold | hnew
    · show n.directory.sweepers.head? = some c'
      rw [hsweepers, List.head?_append, h.holder hold]
      rfl
    · exact hnew

/-- The call with the sweep lock leaves. -/
theorem leave (h : SweepLine s) (ho : Orderly s) {n : Node σ} {c : CallId} {p p' : Point σ}
    {k : Option (CallId × Bool × List EntryId)} (hrun : s.running = some (c, p))
    (hp : p.isSweep = true) (hp' : p'.isSweep = false) (hcalls : n.calls = s.node.calls)
    (hsweepers : n.directory.sweepers = s.node.directory.sweepers.tail) :
    SweepLine ⟨n, some (c, p'), k⟩ := by
  have hhead := h.holder (.inr ⟨p, hrun, hp⟩)
  obtain ⟨rest, hrest⟩ := List.head?_eq_some_iff.mp hhead
  have htail : n.directory.sweepers = rest := by rw [hsweepers, hrest, List.tail_cons]
  have hnodup := h.nodup
  rw [hrest] at hnodup
  obtain ⟨hnot, hnodup⟩ := List.nodup_cons.mp hnodup
  constructor
  · show n.directory.sweepers.Nodup
    rw [htail]
    exact hnodup
  · intro c'
    show c' ∈ n.directory.sweepers ↔ _
    rw [htail]
    constructor
    · intro hc'
      have hin : c' ∈ s.node.directory.sweepers := hrest ▸ List.mem_cons_of_mem c hc'
      rcases h.present.mp hin with ⟨st, hst, hsweep⟩ | ⟨p'', hrun', -⟩
      · exact .inl ⟨st, hcalls.symm ▸ hst, hsweep⟩
      · rw [hrun] at hrun'
        cases hrun'
        exact absurd hc' hnot
    · rintro (⟨st, hst, hsweep⟩ | ⟨p'', hrun', hp''⟩)
      · have hin := h.present.mpr (.inl ⟨st, hcalls ▸ hst, hsweep⟩)
        rw [hrest] at hin
        rcases List.mem_cons.mp hin with rfl | hin
        · exact absurd (hcalls ▸ hst) (ho.notMem_calls hrun st)
        · exact hin
      · cases hrun'
        cases hp''.symm.trans hp'
  · rintro c' (⟨forced, members, hc'⟩ | ⟨p'', hrun', hp''⟩)
    · have hpass := hcalls ▸ hc'
      have heq := Option.some.inj (hhead.symm.trans (h.holder (.inl ⟨forced, members, hpass⟩)))
      exact absurd (heq ▸ hpass) (ho.notMem_calls hrun _)
    · cases hrun'
      cases hp''.symm.trans hp'

theorem stroke [Registry σ] (h : SweepLine s) (ho : Orderly s) (t : Stroke s s') :
    SweepLine s' := by
  cases t with
  | aloof hc => exact h.of_clear hc.toClear
  | ask hc => exact h.of_clear hc.toClear
  | hear hc => exact h.of_clear hc.toClear
  | @take n c k op forced hfree =>
    have hhead : (n.queueSweeper c).directory.sweepers.head? = some c := beq_iff_eq.mp hfree
    refine h.join ho rfl rfl rfl ?_ ?_
    · intro c'
      constructor
      · rintro (hrests | ⟨p, hrun, -⟩)
        · exact .inl (.inl hrests)
        · cases hrun
          exact .inr rfl
      · rintro ((hrests | ⟨p, hrun, hp⟩) | rfl)
        · exact .inl hrests
        · cases hrun
          cases hp
        · exact .inr ⟨_, rfl, rfl⟩
    · rintro c' (hrests | ⟨p, hrun, -⟩)
      · exact .inl (.inl hrests)
      · cases hrun
        exact .inr hhead
  | @queue n c k op hbusy =>
    refine h.join ho rfl rfl rfl ?_ ?_
    · intro c'
      constructor
      · rintro (⟨st, hst, hsweep⟩ | ⟨p, hrun, -⟩)
        · rcases Node.mem_rest.mp hst with hst | ⟨rfl, -⟩
          · exact .inl (.inl ⟨st, hst, hsweep⟩)
          · exact .inr rfl
        · cases hrun
      · rintro ((⟨st, hst, hsweep⟩ | ⟨p, hrun, hp⟩) | rfl)
        · exact .inl ⟨st, Node.mem_rest.mpr (.inl hst), hsweep⟩
        · cases hrun
          cases hp
        · exact .inl ⟨.awaitingSweep, Node.mem_rest_self .., rfl⟩
    · rintro c' (⟨forced, members, hc'⟩ | ⟨p, hrun, -⟩)
      · rcases Node.mem_rest.mp hc' with hc' | ⟨-, hst⟩
        · exact .inl (.inl ⟨forced, members, hc'⟩)
        · cases hst
      · cases hrun
  | @wake n c rests hfirst =>
    refine h.of_one c rfl ?_ nofun ?_ ?_ (.inr ⟨_, rfl, rfl⟩) (beq_iff_eq.mp hfirst)
    · intro c' st hne _
      exact Node.mem_unrest.trans (and_iff_left hne)
    · rintro c' p hrun -
      cases hrun
      rfl
    · exact .inl ⟨_, Node.mem_of_stage? rests, rfl⟩
  | close n c k forced members =>
    have hpublish := n.unswept_publish c (Node.changedMembers members)
    exact h.leave ho rfl rfl rfl hpublish.calls (congrArg List.tail hpublish.sweepers)
  | @beginNone n c k forced hnone =>
    have hbroom : Midturn.HasBroom ⟨n, some (c, .sweeping forced), k⟩ c := .inr ⟨_, rfl, rfl⟩
    refine h.of_one c rfl (fun _ _ => .rfl) ?_ ?_ (.inr ⟨_, rfl, rfl⟩) (.inr ⟨_, rfl, rfl⟩)
      (h.holder hbroom)
    · rintro c' p hrun -
      cases hrun
      rfl
    · rintro c' p hrun -
      cases hrun
      rfl
  | @beginSome n c forced hsome =>
    have hbroom : Midturn.HasBroom ⟨n, some (c, .sweeping forced), none⟩ c := .inr ⟨_, rfl, rfl⟩
    refine h.of_one c rfl ?_ ?_ nofun (.inr ⟨_, rfl, rfl⟩) ?_ (h.holder hbroom)
    · intro c' st hne _
      exact Node.mem_rest.trans (or_iff_left fun heq => hne heq.1)
    · rintro c' p hrun -
      cases hrun
      rfl
    · exact .inl ⟨_, Node.mem_rest_self .., rfl⟩
  | @member n c k e status sweep forced members rests hmore =>
    have hrests := Node.mem_of_stage? rests
    refine h.of_one sweep rfl ?_ ?_ nofun (.inl ⟨_, hrests, rfl⟩)
      (.inl ⟨_, Node.mem_rest_self .., rfl⟩) (h.holder (.inl ⟨_, _, hrests⟩))
    · intro c' st hne _
      exact (Node.mem_rest.trans (or_iff_left fun heq => hne heq.1)).trans
        (Node.mem_unrest.trans (and_iff_left hne))
    · intro c' p hrun hp
      cases hrun
      cases hp
  | @lastMember n c k e status sweep forced members rests hall =>
    have hrests := Node.mem_of_stage? rests
    refine h.of_one sweep rfl ?_ ?_ ?_ (.inl ⟨_, hrests, rfl⟩) (.inr ⟨_, rfl, rfl⟩)
      (h.holder (.inl ⟨_, _, hrests⟩))
    · intro c' st hne _
      exact Node.mem_unrest.trans (and_iff_left hne)
    · intro c' p hrun hp
      cases hrun
      cases hp
    · rintro c' p hrun -
      cases hrun
      rfl
  | @stray n c k e status sweep hno =>
    refine h.of_clear ⟨rfl, fun _ => .rfl, ?_, nofun⟩
    intro c' p hrun
    cases hrun
    rfl

end SweepLine

end ServiceFinder
