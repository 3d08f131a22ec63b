/-
  ServiceFinder/Proofs/Node/Probing.lean
  ======================================
  **At most one probe is under way.**

  The permit names one invocation and the time it was granted, so what has to be shown is that
  it always names the latest probe (`Held`): that a probe which is neither reported nor expired
  is the one that the permit names, and that the permit of another is never given back by its
  report.  The probes of a course are listed as they are selected, and marked as they are
  reported.
-/
import Mathlib.Data.List.Nodup
import ServiceFinder.Node.Assembly
import ServiceFinder.Proofs.Node.Choosing
import ServiceFinder.Proofs.Node.Moments
import ServiceFinder.Registry.Script

namespace ServiceFinder

variable {σ : Type}

/-! ### Probes -/

/-- A selection that was returned for a probe. -/
structure Probe where
  selection : Selection
  /-- The time at which it was returned, and the permit granted. -/
  granted : Millis
  reported : Bool := false
deriving DecidableEq, Repr

namespace Probe

def invocation (p : Probe) : Invocation := p.selection.invocation

/-- Whether less than `ttl` has passed since the permit was granted. -/
def isFresh (ttl now : Millis) (p : Probe) : Bool := elapsed p.granted now < ttl

/-- Whether the permit is still in use for the probe. -/
def isLive (ttl now : Millis) (p : Probe) : Bool := !p.reported && p.isFresh ttl now

/-- The invocation `i` is reported. -/
def report (i : Invocation) (p : Probe) : Probe :=
  { p with reported := p.reported || p.invocation == i }

theorem report_of_ne {i : Invocation} {p : Probe} (h : p.invocation ≠ i) : p.report i = p := by
  rw [report, beq_eq_false_iff_ne.mpr h, Bool.or_false]

end Probe

namespace Grants

/-- The probes among the selections that are new in `g'`. -/
def newProbes (g g' : Grants) : List Probe :=
  (g'.selections.filter fun x => x.2.probe && !g.selections.contains x).map
    fun x => { selection := x.2, granted := g.clock.now }

variable {g g' : Grants}

theorem filter_new_self (g : Grants) :
    (g.selections.filter fun x => x.2.probe && !g.selections.contains x) = [] := by
  refine List.filter_eq_nil_iff.mpr ?_
  intro x hx
  simp [hx]

theorem newProbes_same (h : g'.selections = g.selections) : g.newProbes g' = [] := by
  rw [newProbes, h, filter_new_self, List.map_nil]

theorem newProbes_cons {i : Invocation} {s : Selection} (new : i ∉ g.selections.map (·.1))
    (h : g'.selections = (i, s) :: g.selections) :
    g.newProbes g' =
      if s.probe then [{ selection := s, granted := g.clock.now }] else [] := by
  have hnew : (i, s) ∉ g.selections := fun hmem => new (List.mem_map_of_mem hmem)
  rw [newProbes, h, List.filter_cons, filter_new_self]
  cases s.probe <;> simp [hnew]

theorem selections_finish (i : Invocation) (g : Grants) :
    (g.finish i).selections = g.selections := by
  unfold finish
  split <;> rfl

theorem filter_ne_self {i : Invocation} (new : i ∉ g.selections.map (·.1)) :
    g.selections.filter (·.1 != i) = g.selections := by
  refine List.filter_eq_self.mpr ?_
  intro x hx
  rw [bne_iff_ne]
  rintro rfl
  exact new (List.mem_map_of_mem hx)

theorem Chosen.keys {i : Invocation} (h : g.Chosen i g') (new : i ∉ g.selections.map (·.1)) :
    g'.selections.map (·.1) = i :: g.selections.map (·.1) := by
  cases h
  rw [filter_ne_self new, List.map_cons]

end Grants

/-! ### The permit names the probe that is under way -/

/-- The probes `ps` were returned, and the permit is that of the one under way. -/
structure Held (ttl : Millis) (g : Grants) (ps : List Probe) : Prop where
  lasts : g.permit.ttl = ttl ∧ ∀ t, g.permit.token = some t → t.ttl = ttl
  keyed : (g.selections.map (·.1)).Nodup
  named : ∀ x ∈ g.selections, x.2.invocation = x.1
  listed : ∀ p ∈ ps, (p.invocation, p.selection) ∈ g.selections
  complete : ∀ x ∈ g.selections, x.2.probe = true → ∃ p ∈ ps, p.selection = x.2
  distinct : (ps.map Probe.invocation).Nodup
  past : ∀ p ∈ ps, p.granted ≤ g.clock.now
  own : ∀ p ∈ ps, ∀ t, g.permit.token = some t → t.invocation = p.invocation →
    t.grantedAt = p.granted ∧ p.reported = false
  live : ∀ p ∈ ps, p.isLive ttl g.clock.now = true →
    ∃ t, g.permit.token = some t ∧ t.invocation = p.invocation

namespace Held

variable {ttl : Millis} {g g' : Grants} {ps : List Probe} {i : Invocation}

theorem clock (h : Held ttl g ps) (hpermit : g'.permit = g.permit)
    (hselections : g'.selections = g.selections) (forward : g.clock.now ≤ g'.clock.now) :
    Held ttl g' ps where
  lasts := hpermit ▸ h.lasts
  keyed := hselections ▸ h.keyed
  named := hselections ▸ h.named
  listed := hselections ▸ h.listed
  complete := hselections ▸ h.complete
  distinct := h.distinct
  past p hp := UInt64.le_trans (h.past p hp) forward
  own := hpermit ▸ h.own
  live := by
    intro p hp hlive
    rw [hpermit]
    refine h.live p hp ?_
    simp only [Probe.isLive, Probe.isFresh, Bool.and_eq_true, decide_eq_true_eq] at hlive ⊢
    refine ⟨hlive.1, ?_⟩
    have hfresh := hlive.2
    rw [UInt64.lt_iff_toNat_lt, elapsed_toNat] at hfresh ⊢
    rw [UInt64.le_iff_toNat_le] at forward
    omega

variable {s : Selection}

/-- A selection that is no probe. -/
theorem plain (h : Held ttl g ps) (new : i ∉ g.selections.map (·.1)) (own : s.invocation = i)
    (hs : s.probe = false) : Held ttl { g with selections := (i, s) :: g.selections } ps where
  lasts := h.lasts
  keyed := List.nodup_cons.mpr ⟨new, h.keyed⟩
  named := List.forall_mem_cons.mpr ⟨own, h.named⟩
  listed p hp := List.mem_cons_of_mem _ (h.listed p hp)
  complete := by
    intro x hx hprobe
    rcases List.mem_cons.mp hx with rfl | hx
    · rw [hs] at hprobe
      cases hprobe
    · exact h.complete x hx hprobe
  distinct := h.distinct
  past := h.past
  own := h.own
  live := h.live

/-- While the permit is free, no probe is under way. -/
theorem not_live_of_free (h : Held ttl g ps) (free : g.permit.isFree g.clock.now = true)
    {p : Probe} (hp : p ∈ ps) : p.isLive ttl g.clock.now = false := by
  rw [← Bool.not_eq_true]
  intro hlive
  obtain ⟨t, ht, hown⟩ := h.live p hp hlive
  have hexpired : t.isExpired g.clock.now = true := by
    rwa [Permit.isFree, ht, Option.all_some] at free
  have hgranted := (h.own p hp t ht hown).1
  simp only [Token.isExpired, decide_eq_true_eq, h.lasts.2 t ht, hgranted] at hexpired
  simp only [Probe.isLive, Probe.isFresh, Bool.and_eq_true, decide_eq_true_eq] at hlive
  exact absurd hlive.2 (UInt64.not_lt.mpr hexpired)

theorem ne_of_new (h : Held ttl g ps) (new : i ∉ g.selections.map (·.1)) {p : Probe}
    (hp : p ∈ ps) : p.invocation ≠ i := by
  rintro rfl
  exact new (List.mem_map_of_mem (h.listed p hp))

/-- A selection for a probe takes the permit, which was free. -/
theorem probe (h : Held ttl g ps) (new : i ∉ g.selections.map (·.1)) (own : s.invocation = i)
    (free : g.permit.isFree g.clock.now = true) :
    Held ttl
      { g with permit := { g.permit with token := some ⟨i, g.clock.now, g.permit.ttl⟩ },
               selections := (i, s) :: g.selections }
      ({ selection := s, granted := g.clock.now } :: ps) where
  lasts := by
    refine ⟨h.lasts.1, ?_⟩
    intro t ht
    cases ht
    exact h.lasts.1
  keyed := List.nodup_cons.mpr ⟨new, h.keyed⟩
  named := List.forall_mem_cons.mpr ⟨own, h.named⟩
  listed := by
    refine List.forall_mem_cons.mpr ⟨?_, fun p hp => List.mem_cons_of_mem _ (h.listed p hp)⟩
    rw [← own]
    exact List.mem_cons_self
  complete := by
    intro x hx hprobe
    rcases List.mem_cons.mp hx with rfl | hx
    · exact ⟨_, List.mem_cons_self, rfl⟩
    · obtain ⟨p, hp, heq⟩ := h.complete x hx hprobe
      exact ⟨p, List.mem_cons_of_mem _ hp, heq⟩
  distinct := by
    refine List.nodup_cons.mpr ⟨?_, h.distinct⟩
    intro hmem
    obtain ⟨p, hp, heq⟩ := List.mem_map.mp hmem
    exact h.ne_of_new new hp (heq.trans own)
  past := List.forall_mem_cons.mpr ⟨UInt64.le_refl _, h.past⟩
  own := by
    refine List.forall_mem_cons.mpr ⟨?_, ?_⟩
    · intro t ht _
      cases ht
      exact ⟨rfl, rfl⟩
    · intro p hp t ht heq
      cases ht
      exact absurd heq.symm (h.ne_of_new new hp)
  live := by
    refine List.forall_mem_cons.mpr ⟨fun _ => ⟨_, rfl, own.symm⟩, ?_⟩
    intro p hp hlive
    rw [h.not_live_of_free free hp] at hlive
    cases hlive

theorem choose (h : Held ttl g ps) (new : i ∉ g.selections.map (·.1))
    (chosen : g.Chosen i g') : Held ttl g' (g.newProbes g' ++ ps) := by
  cases chosen with
  | @selected s permit own lent =>
    have hkept := Grants.filter_ne_self new
    rw [Grants.newProbes_cons new (congrArg ((i, s) :: ·) hkept), hkept]
    cases hs : s.probe with
    | false =>
      rw [hs] at lent
      rw [lent.eq_of_plain]
      exact h.plain new own hs
    | true =>
      rw [hs] at lent
      cases lent with
      | probe happly =>
        obtain ⟨free, rfl⟩ := Permit.apply_eq_granted_iff.mp happly
        exact h.probe new own free

/-- A report marks its probe, and gives back no permit but that of its own invocation. -/
theorem report (h : Held ttl g ps) (i : Invocation) :
    Held ttl { g with permit := (g.permit.checkAndRelease i).2 } (ps.map (Probe.report i)) := by
  have hinvocation : Probe.invocation ∘ Probe.report i = Probe.invocation := rfl
  rw [Permit.checkAndRelease_snd]
  constructor
  case lasts =>
    refine ⟨h.lasts.1, ?_⟩
    intro t ht
    exact h.lasts.2 t (Option.filter_eq_some_iff.mp ht).1
  case keyed => exact h.keyed
  case named => exact h.named
  case listed => exact List.forall_mem_map.mpr h.listed
  case complete =>
    intro x hx hprobe
    obtain ⟨p, hp, heq⟩ := h.complete x hx hprobe
    exact ⟨p.report i, List.mem_map_of_mem hp, heq⟩
  case distinct =>
    rw [List.map_map, hinvocation]
    exact h.distinct
  case past => exact List.forall_mem_map.mpr h.past
  case own =>
    refine List.forall_mem_map.mpr ?_
    intro p hp t ht heq
    obtain ⟨ht, hne⟩ := Option.filter_eq_some_iff.mp ht
    obtain ⟨hgranted, hreported⟩ := h.own p hp t ht heq
    refine ⟨hgranted, ?_⟩
    have hother : p.invocation ≠ i := by
      rw [← show t.invocation = p.invocation from heq]
      simpa using hne
    simp [Probe.report, hreported, hother]
  case live =>
    -- a probe that stays live is not the one reported, so its token is not given back
    refine List.forall_mem_map.mpr ?_
    intro p hp hlive
    simp only [Probe.isLive, Probe.report, Bool.not_or, Bool.and_eq_true] at hlive
    obtain ⟨⟨hopen, hother⟩, hfresh⟩ := hlive
    obtain ⟨t, ht, heq⟩ :=
      h.live p hp (by simp only [Probe.isLive, hopen, Bool.true_and]; exact hfresh)
    refine ⟨t, Option.filter_eq_some_iff.mpr ⟨ht, ?_⟩, heq⟩
    rw [heq]
    exact hother

theorem invocation_of_lookup (h : Held ttl g ps) (hs : g.selections.lookup i = some s) :
    s.invocation = i := by
  obtain ⟨before, after, hselections, -⟩ := List.lookup_eq_some_iff.mp hs
  refine h.named (i, s) ?_
  rw [hselections]
  exact List.mem_append_right _ List.mem_cons_self

theorem finish (h : Held ttl g ps) (i : Invocation) :
    Held ttl (g.finish i) (ps.map (Probe.report i)) := by
  unfold Grants.finish
  cases hlookup : g.selections.lookup i with
  | none =>
    have hother : ps.map (Probe.report i) = ps := by
      refine (List.map_congr_left ?_).trans (List.map_id ps)
      intro p hp
      refine Probe.report_of_ne ?_
      have hne := List.lookup_eq_none_iff.mp hlookup _ (h.listed p hp)
      rintro rfl
      rw [bne_self_eq_false] at hne
      cases hne
    rw [hother]
    exact h
  | some s =>
    dsimp only
    rw [h.invocation_of_lookup hlookup]
    exact h.report i

/-- All probes that are under way have the one permit. -/
theorem countP_isLive_le_one (h : Held ttl g ps) : ps.countP (·.isLive ttl g.clock.now) ≤ 1 := by
  -- live probes share the invocation that the token names, and no two probes do
  have hsame : ∀ p ∈ ps.filter (·.isLive ttl g.clock.now),
      ∀ q ∈ ps.filter (·.isLive ttl g.clock.now), p.invocation = q.invocation := by
    intro p hp q hq
    obtain ⟨t, ht, hown⟩ := h.live p (List.mem_filter.mp hp).1 (List.mem_filter.mp hp).2
    obtain ⟨t', ht', hown'⟩ := h.live q (List.mem_filter.mp hq).1 (List.mem_filter.mp hq).2
    cases ht.symm.trans ht'
    exact hown.symm.trans hown'
  have hdistinct : ((ps.filter (·.isLive ttl g.clock.now)).map Probe.invocation).Nodup :=
    (List.filter_sublist.map _).nodup h.distinct
  rw [List.countP_eq_length_filter]
  cases hlive : ps.filter (·.isLive ttl g.clock.now) with
  | nil => exact Nat.zero_le _
  | cons p rest =>
    cases rest with
    | nil => exact Nat.le_refl _
    | cons q rest =>
      rw [hlive] at hsame hdistinct
      have heq := hsame p List.mem_cons_self q (List.mem_cons_of_mem _ List.mem_cons_self)
      have hne := (List.nodup_cons.mp hdistinct).1
      exact absurd (heq ▸ List.mem_cons_self) hne

/-- The report of a probe that is over leaves the permit with whoever holds it. -/
theorem holder_report (h : Held ttl g ps) {p : Probe} (hp : p ∈ ps)
    (ended : p.isLive ttl g.clock.now = false) :
    (g.permit.checkAndRelease p.invocation).2.holder g.clock.now = g.permit.holder g.clock.now := by
  rw [Permit.checkAndRelease_snd]
  unfold Permit.holder
  cases ht : g.permit.token with
  | none => rfl
  | some t =>
    by_cases hown : t.invocation = p.invocation
    · obtain ⟨hgranted, hreported⟩ := h.own p hp t ht hown
      have hexpired : t.isExpired g.clock.now = true := by
        simp only [Probe.isLive, Probe.isFresh, hreported, Bool.not_false, Bool.true_and,
          decide_eq_false_iff_not] at ended
        simp only [Token.isExpired, h.lasts.2 t ht, hgranted, decide_eq_true_eq]
        exact UInt64.not_lt.mp ended
      simp [Option.filter, hown, hexpired]
    · simp [Option.filter, hown]

theorem holder_finish (h : Held ttl g ps) {p : Probe} (hp : p ∈ ps)
    (ended : p.isLive ttl g.clock.now = false) :
    (g.finish p.invocation).permit.holder (g.finish p.invocation).clock.now =
      g.permit.holder g.clock.now := by
  unfold Grants.finish
  cases hlookup : g.selections.lookup p.invocation with
  | none => rfl
  | some s =>
    have hown : s.invocation = p.invocation := h.invocation_of_lookup hlookup
    dsimp only
    rw [hown]
    exact h.holder_report hp ended

end Held

/-! ### Nobody asks for the permit on its own -/

/-- Whether an operation asks for the permit, or gives it back, on its own. -/
def Operation.asksPermit : Operation σ → Bool
  | applyForPermit _ | checkAndReleasePermit _ | releasePermit => true
  | _ => false

namespace Node

def Act.asksPermit : Act σ → Bool
  | .call op | .callAfter _ op => op.asksPermit
  | _ => false

/-- No call that is to start later asks for the permit on its own. -/
def Indirect (n : Node σ) : Prop :=
  ∀ c due op, (c, .scheduled due op) ∈ n.calls → op.asksPermit = false

end Node

theorem Node.Indirect.act [Registry σ] {n : Node σ} (h : n.Indirect) {a : Act σ}
    (ha : a.asksPermit = false) : (n.act a).Indirect := by
  have lacks : Midturn.Lacks Operation.asksPermit ⟨n, none, none⟩ := ⟨h _ _ _, nofun⟩
  have unasked : a.asksFor Operation.asksPermit = false := by
    cases a <;> exact ha
  intro c due op hc
  exact (lacks_act rfl lacks unasked).later hc

theorem Node.Indirect.begins {n : Node σ} (h : n.Indirect) {a : Act σ} (ha : a.asksPermit = false)
    {op : Operation σ} (hop : n.begins? a = some op) : op.asksPermit = false := by
  cases a with
  | call op' =>
    cases hop
    exact ha
  | callAfter | pass => cases hop
  | resume c =>
    simp only [Node.begins?] at hop
    split at hop
    · split at hop
      · rename_i due op' rests
        cases hop
        exact h c due op (Node.mem_of_stage? rests)
      · cases hop
    · cases hop

/-! ### Courses -/

namespace Node

/-- What holds on a course on which the invocations `used` were to choose so far. -/
structure Probing (ttl : Millis) (used : List Invocation) (n : Node σ) (ps : List Probe) : Prop where
  held : Held ttl n.grants ps
  indirect : n.Indirect
  distinct : (n.pending ++ n.selections.map (·.1)).Nodup
  used : ∀ i ∈ n.pending ++ n.selections.map (·.1), i ∈ used

theorem probing_balancing (registry : σ) (c : Config) (policy : EmptyListPolicy) (now : Millis)
    (draws : Draws) : Probing c.permitTtl [] (balancing registry c policy now draws) [] where
  held :=
    { lasts := ⟨rfl, fun t ht => by cases ht⟩
      keyed := List.nodup_nil
      named := fun x hx => by cases hx
      listed := fun p hp => by cases hp
      complete := fun x hx => by cases hx
      distinct := List.nodup_nil
      past := fun p hp => by cases hp
      own := fun p hp => by cases hp
      live := fun p hp => by cases hp }
  indirect c due op h := by cases h
  distinct := List.nodup_nil
  used i h := by cases h

variable [Registry σ]

/-- The probes that were returned, after one more loose turn. -/
def probesAfter (n : Node σ) (a : Act σ) (ps : List Probe) : List Probe :=
  n.grants.newProbes (n.act a).grants ++
    match n.begins? a with
    | some (.finish i _) => ps.map (.report i)
    | _ => ps

/-- The probes that are returned on a course, latest first, after `ps`. -/
def probes (n : Node σ) (ps : List Probe) : List (Act σ) → List Probe
  | [] => ps
  | a :: acts => (n.act a).probes (n.probesAfter a ps) acts

/-- The clock does not go back on a course. -/
def goesForward (n : Node σ) : List (Act σ) → Bool
  | [] => true
  | a :: acts =>
    n.balancer.monitor.now ≤ (n.act a).balancer.monitor.now && (n.act a).goesForward acts

/-- A turn that begins no report adds the new probes and leaves the others alone. -/
theorem probesAfter_eq {n : Node σ} {a : Act σ} (ps : List Probe)
    (h : ∀ op, n.begins? a = some op → op.isDirect = false) :
    n.probesAfter a ps = n.grants.newProbes (n.act a).grants ++ ps := by
  unfold probesAfter
  split
  · rename_i i success hbegins
    cases h _ hbegins
  · rfl

theorem Probing.act {ttl : Millis} {used : List Invocation} {n : Node σ} {ps : List Probe}
    (h : Probing ttl used n ps) {a : Act σ} (new : ∀ i, a.chooses? = some i → i ∉ used)
    (indirect : a.asksPermit = false)
    (forward : n.balancer.monitor.now ≤ (n.act a).balancer.monitor.now) :
    Probing ttl (a.chooses?.toList ++ used) (n.act a) (n.probesAfter a ps) := by
  have hdistinct : (a.chooses?.toList ++ (n.pending ++ n.selections.map (·.1))).Nodup := by
    cases ha : a.chooses? with
    | none => exact h.distinct
    | some i => exact List.nodup_cons.mpr ⟨fun hi => new i ha (h.used i hi), h.distinct⟩
  have hused : ∀ i ∈ a.chooses?.toList ++ (n.pending ++ n.selections.map (·.1)),
      i ∈ a.chooses?.toList ++ used := by
    intro i hi
    rcases List.mem_append.mp hi with hi | hi
    · exact List.mem_append_left _ hi
    · exact List.mem_append_right _ (h.used i hi)
  -- no call comes to choose for an invocation that another chooses or has chosen for
  suffices hmain : Held ttl (n.act a).grants (n.probesAfter a ps) ∧
      ((n.act a).pending ++ (n.act a).selections.map (·.1)).Subperm
        (a.chooses?.toList ++ (n.pending ++ n.selections.map (·.1))) by
    obtain ⟨held, hsubperm⟩ := hmain
    obtain ⟨l, hperm, hsub⟩ := hsubperm
    exact ⟨held, h.indirect.act indirect, hperm.nodup_iff.mp (hsub.nodup hdistinct),
      fun i hi => hused i (hsub.subset (hperm.symm.subset hi))⟩
  rw [← List.append_assoc]
  cases n.actGrants a with
  | @direct op hbegins hdirect hgrants hpending =>
    have hasks := h.indirect.begins indirect hbegins
    have hselections : (n.act a).selections = n.selections := by
      refine (congrArg Grants.selections hgrants).trans ?_
      cases op with
      | finish i success => exact n.grants.selections_finish i
      | _ => rfl
    have hrest : ((n.act a).pending ++ n.selections.map (·.1)).Subperm
        (a.chooses?.toList ++ n.pending ++ n.selections.map (·.1)) := by
      refine (List.subperm_append_right _).mpr ?_
      exact hpending.trans (List.sublist_append_right _ _).subperm
    rw [hselections, probesAfter, Grants.newProbes_same hselections, hbegins, List.nil_append]
    refine ⟨?_, hrest⟩
    cases op with
    | finish i success =>
      rw [hgrants]
      exact h.held.finish i
    | setClock | advanceClock =>
      have hpermit : (n.act a).grants.permit = n.grants.permit := by rw [hgrants]; rfl
      exact h.held.clock hpermit hselections forward
    | applyForPermit | checkAndReleasePermit | releasePermit => cases hasks
    | _ => cases hdirect
  | same hbegins hgrants hpending =>
    have hselections : (n.act a).selections = n.selections := congrArg Grants.selections hgrants
    rw [probesAfter_eq ps hbegins, Grants.newProbes_same hselections, hgrants, hselections]
    exact ⟨h.held, (List.subperm_append_right _).mpr hpending⟩
  | @chosen i hbegins hchosen hpending =>
    have new : i ∉ n.selections.map (·.1) := by
      have hi := hpending.subset List.mem_cons_self
      rw [← List.append_assoc] at hdistinct
      exact fun hmem => (List.nodup_append.mp hdistinct).2.2 i hi i hmem rfl
    rw [probesAfter_eq ps hbegins]
    refine ⟨h.held.choose new hchosen, ?_⟩
    have hkeys : (n.act a).selections.map (·.1) = i :: n.selections.map (·.1) :=
      hchosen.keys new
    rw [hkeys]
    exact List.perm_middle.subperm.trans ((List.subperm_append_right _).mpr hpending)

theorem Probing.course {ttl : Millis} {used : List Invocation} {n : Node σ} {ps : List Probe}
    (h : Probing ttl used n ps) (acts : List (Act σ))
    (distinct : (acts.filterMap Act.chooses?).Nodup)
    (new : ∀ i ∈ acts.filterMap Act.chooses?, i ∉ used)
    (indirect : ∀ a ∈ acts, a.asksPermit = false) (forward : n.goesForward acts = true) :
    Held ttl (n.follow acts).grants (n.probes ps acts) := by
  induction acts generalizing n used ps with
  | nil => exact h.held
  | cons a acts ih =>
    have hall : (a :: acts).filterMap Act.chooses? =
        a.chooses?.toList ++ acts.filterMap Act.chooses? := by
      cases ha : a.chooses? <;> simp [ha]
    rw [hall] at distinct new
    simp only [goesForward, Bool.and_eq_true, decide_eq_true_eq] at forward
    have hnew : ∀ i, a.chooses? = some i → i ∉ used := by
      intro i hi
      exact new i (List.mem_append_left _ (by simp [hi]))
    refine ih (h.act hnew (indirect a List.mem_cons_self) forward.1)
      (List.nodup_append.mp distinct).2.1 ?_ (fun b hb => indirect b (List.mem_cons_of_mem _ hb))
      forward.2
    intro i hi hmem
    rcases List.mem_append.mp hmem with hmem | hmem
    · exact (List.nodup_append.mp distinct).2.2 i hmem i hi rfl
    · exact new i (List.mem_append_right _ hi) hmem

/-- **At most one probe is under way, whoever chooses and reports, and the report of a probe
    that is over takes the permit from nobody.** -/
theorem at_most_one_live_probe (registry : σ) (c : Config) (policy : EmptyListPolicy)
    (now : Millis) (draws : Draws) (acts : List (Act σ))
    (distinct : (acts.filterMap Act.chooses?).Nodup) (indirect : ∀ a ∈ acts, a.asksPermit = false)
    (forward : (balancing registry c policy now draws).goesForward acts = true) :
    let n := (balancing registry c policy now draws).follow acts
    let ps := (balancing registry c policy now draws).probes [] acts
    (∀ x ∈ n.selections, x.2.probe = true → ∃ p ∈ ps, p.selection = x.2) ∧
      ps.countP (·.isLive c.permitTtl n.balancer.monitor.now) ≤ 1 ∧
      ∀ p ∈ ps, p.isLive c.permitTtl n.balancer.monitor.now = false → ∀ success,
        (n.call (.finish p.invocation success)).2.balancer.monitor.holder =
          n.balancer.monitor.holder := by
  intro n ps
  have held := (probing_balancing registry c policy now draws).course acts distinct
    (fun i _ => List.not_mem_nil) indirect forward
  refine ⟨held.complete, held.countP_isLive_le_one, ?_⟩
  intro p hp ended success
  have hfinish := (n.newCall.2.finish_rest n.nextCall p.invocation success).1
  have hholder := held.holder_finish hp ended
  rw [← show (n.call (.finish p.invocation success)).2.grants = n.grants.finish p.invocation
    from hfinish] at hholder
  exact hholder

/-! ### A probe that is reported late -/

namespace Relay

def key : ServiceKey := ⟨"client", "shop", "orders", everyVersion⟩

def server : Instance := { instanceId := "a", serviceId := "v1", endpoints := ["rest://a:1"] }

/-- Two failures in a row are enough. -/
def config : Config := { isolation := { continuousThreshold := 2, minRequests := 2 } }

def start : Node Script :=
  .balancing ⟨[(key, [⟨.found ⟨[server], some "1"⟩, 50⟩])]⟩ config .retainNonEmpty 0 default

/-- Two invocations fail; of the two that probe later, the first is not reported in time. -/
def acts : List (Act Script) :=
  [.call (.choose key "1"), .call (.choose key "2"), .pass 50, .resume 0, .resume 1,
   .call (.finish "1" false), .call (.finish "2" false), .call (.advanceClock 60001),
   .call (.choose key "p"), .call (.advanceClock 60000), .call (.choose key "q")]

/-- The probe that is not reported in time. -/
def late : Probe := { selection := .of server "p" true, granted := 60001 }

end Relay

/-- The late report of the first probe leaves the permit with the second. -/
theorem late_report_keeps_holder :
    ((Relay.acts.filterMap Act.chooses?).Nodup ∧ (∀ a ∈ Relay.acts, a.asksPermit = false) ∧
        Relay.start.goesForward Relay.acts = true) ∧
      (Relay.start.probes [] Relay.acts).countP
        (·.isLive Relay.config.permitTtl (Relay.start.follow Relay.acts).balancer.monitor.now) ≤ 1 ∧
      Relay.late ∈ Relay.start.probes [] Relay.acts ∧
      ((Relay.start.follow Relay.acts).call (.finish "p" true)).2.balancer.monitor.holder =
        some "q" := by
  have distinct : (Relay.acts.filterMap Act.chooses?).Nodup := by decide
  have indirect : ∀ a ∈ Relay.acts, a.asksPermit = false := by decide
  have forward : Relay.start.goesForward Relay.acts = true := by decide
  have listed : Relay.late ∈ Relay.start.probes [] Relay.acts := by decide
  have holder : (Relay.start.follow Relay.acts).balancer.monitor.holder = some "q" := by decide
  obtain ⟨-, atMostOne, kept⟩ := at_most_one_live_probe _ Relay.config .retainNonEmpty 0 default
    Relay.acts distinct indirect forward
  exact ⟨⟨distinct, indirect, forward⟩, atMostOne, listed,
    (kept Relay.late listed (by decide) true).trans holder⟩

end Node

end ServiceFinder
