/-
  ServiceFinder/Proofs/Balance/Spending.lean
  ==========================================
  **What a choice may change.**

  A choice checks servers one after the other, and each check observes its server and may apply
  for the permit.  All that is left of this in the end is told by one flag, whether the
  selection is a probe (`Monitor.Spends`): the permit is lent to a probe and else stays as it
  is, no statistics that were known change, and those that are new are of servers of the list
  that could have been chosen.
-/
import ServiceFinder.Proofs.Balance.Choice
import ServiceFinder.Proofs.Health.Counting

namespace ServiceFinder

/-! ### New records -/

/-- `t'` is `t` with a fresh record for each of the servers `new`, which had none. -/
structure Tracker.Extends (t : Tracker) (now : Millis) (new : List String) (t' : Tracker) :
    Prop where
  nodup : new.Nodup
  unknown : ∀ a ∈ new, t.recordOf? a = none
  records : t'.records = t.records ++ List.replicate new.length (.startingAt now)
  current : t'.current = t.current ++ new.zipIdx t.records.length

namespace Tracker

variable {t t' t'' : Tracker} {now : Millis} {new new' : List String} {a : String}

theorem Extends.refl (t : Tracker) (now : Millis) : t.Extends now [] t where
  nodup := List.nodup_nil
  unknown := by simp
  records := by simp
  current := by simp

theorem extends_observe (t : Tracker) (now : Millis) (a : String) :
    ∃ new, t.Extends now new (t.observe now a).2 ∧ ∀ b ∈ new, b = a := by
  unfold observe
  cases ha : t.recordOf? a with
  | some r => exact ⟨[], .refl t now, by simp⟩
  | none =>
    refine ⟨[a], ⟨by simp, ?_, rfl, rfl⟩, by simp⟩
    intro b hb
    rwa [List.mem_singleton.mp hb]

theorem Extends.recordOf?_eq (h : t.Extends now new t') (a : String) :
    t'.recordOf? a = (t.recordOf? a).or ((new.zipIdx t.records.length).lookup a) := by
  rw [recordOf?, h.current, List.lookup_append]
  rfl

/-- Whoever has no record afterwards had none before and got none. -/
theorem Extends.of_unknown (h : t.Extends now new t') (ha : t'.recordOf? a = none) :
    t.recordOf? a = none ∧ a ∉ new := by
  rw [h.recordOf?_eq, Option.or_eq_none_iff] at ha
  refine ⟨ha.1, ?_⟩
  intro hmem
  rw [← List.zipIdx_map_fst t.records.length new] at hmem
  obtain ⟨entry, hentry, rfl⟩ := List.mem_map.mp hmem
  simpa using List.lookup_eq_none_iff.mp ha.2 entry hentry

/-- Statistics that were known stay as they are. -/
theorem Extends.get?_of_some (h : t.Extends now new t') {s : ServerStats}
    (hs : t.get? a = some s) : t'.get? a = some s := by
  obtain ⟨r, hr, hrecord⟩ := Option.bind_eq_some_iff.mp hs
  have hr' : t'.recordOf? a = some r := by
    rw [h.recordOf?_eq, hr, Option.some_or]
  rw [get?_of_recordOf? hr', h.records]
  exact List.getElem?_append_left (List.getElem?_eq_some_iff.mp hrecord).1 |>.trans hrecord

theorem Extends.trans (h : t.Extends now new t') (h' : t'.Extends now new' t'') :
    t.Extends now (new ++ new') t'' where
  nodup := by
    refine List.nodup_append.mpr ⟨h.nodup, h'.nodup, ?_⟩
    rintro a ha b hb rfl
    exact (h.of_unknown (h'.unknown a hb)).2 ha
  unknown := by
    intro a ha
    rcases List.mem_append.mp ha with ha | ha
    · exact h.unknown a ha
    · exact (h.of_unknown (h'.unknown a ha)).1
  records := by
    rw [h'.records, h.records, List.append_assoc, List.length_append, List.replicate_add]
  current := by
    rw [h'.current, h.current, h.records, List.append_assoc, List.length_append,
      List.length_replicate, List.zipIdx_append]

end Tracker

/-! ### Checks in a row -/

theorem Permit.Lent.eq {now : Millis} {i : Invocation} {p p' : Permit} {probe : Bool}
    (h : p.Lent now i probe p') :
    p' = if probe then { p with token := some ⟨i, now, p.ttl⟩ } else p := by
  cases h with
  | probe happly => exact (apply_eq_granted_iff.mp happly).2.symm
  | plain => rfl

/-- What checking some of `servers` for the invocation `i` makes of a monitor, if it comes to a
    probe or not. -/
structure Monitor.Spends (i : Invocation) (servers : List Instance) (probe : Bool)
    (m m' : Monitor) : Prop where
  clock : m'.clock = m.clock
  window : m'.window = m.window
  policy : m'.policy = m.policy
  /-- The permit is lent to a probe, and else stays as it is. -/
  permit : m'.permit =
    if probe then { m.permit with token := some ⟨i, m.now, m.permit.ttl⟩ } else m.permit
  /-- One application is granted for a probe, and else none. -/
  applications : ∃ told, m'.history = told ++ m.history ∧
    told.filter (·.isApplication true) = if probe then [.applied i true] else []
  /-- Nothing that was known changes, and what is new is of eligible servers. -/
  tracker : ∃ new, m.tracker.Extends m.now new m'.tracker ∧
    ∀ a ∈ new, ∃ s ∈ servers, s.eligible = true ∧ s.instanceId = a

namespace Monitor

variable {i : Invocation} {servers servers' : List Instance} {probe : Bool} {m m' m'' : Monitor}

theorem Spends.refl (i : Invocation) (servers : List Instance) (m : Monitor) :
    m.Spends i servers false m where
  clock := rfl
  window := rfl
  policy := rfl
  permit := rfl
  applications := ⟨[], rfl, rfl⟩
  tracker := ⟨[], .refl m.tracker m.now, by simp⟩

theorem Spends.mono (h : m.Spends i servers probe m') (hsub : servers ⊆ servers') :
    m.Spends i servers' probe m' where
  clock := h.clock
  window := h.window
  policy := h.policy
  permit := h.permit
  applications := h.applications
  tracker := by
    obtain ⟨new, hnew, hlisted⟩ := h.tracker
    refine ⟨new, hnew, ?_⟩
    intro a ha
    obtain ⟨s, hs, hfits⟩ := hlisted a ha
    exact ⟨s, hsub hs, hfits⟩

/-- More checks after some that came to no probe. -/
theorem Spends.trans (h : m.Spends i servers false m') (h' : m'.Spends i servers probe m'') :
    m.Spends i servers probe m'' := by
  have hnow : m'.now = m.now := congrArg Clock.now h.clock
  have hsame : m'.permit = m.permit := h.permit
  constructor
  case clock => exact h'.clock.trans h.clock
  case window => exact h'.window.trans h.window
  case policy => exact h'.policy.trans h.policy
  case permit => rw [h'.permit, hsame, hnow]
  case applications =>
    obtain ⟨told, htold, hnone⟩ := h.applications
    obtain ⟨told', htold', hgranted⟩ := h'.applications
    refine ⟨told' ++ told, ?_, ?_⟩
    · rw [htold', htold, List.append_assoc]
    · rw [List.filter_append, hgranted, hnone]
      simp
  case tracker =>
    obtain ⟨new, hnew, hlisted⟩ := h.tracker
    obtain ⟨new', hnew', hlisted'⟩ := h'.tracker
    rw [hnow] at hnew'
    refine ⟨new ++ new', hnew.trans hnew', ?_⟩
    intro a ha
    exact (List.mem_append.mp ha).elim (hlisted a) (hlisted' a)

theorem applications_check (m : Monitor) (server : String) (i : Invocation) :
    (m.verdicts (.check server i)).filter (·.isApplication true) =
      if (m.check server i).1 == .probe then [.applied i true] else [] := by
  have hanswer : (m.check server i).1 =
      (m.policy.check m.now i (m.statsFor server).1 m.permit).2.1 := rfl
  have hgranted : (m.apply i).1 = m.permit.isFree m.now := by
    show (m.permit.apply m.now i).1 = _
    unfold Permit.apply
    split <;> simp_all
  rw [hanswer, IsolationPolicy.check_answer, verdicts, appliesFor, hgranted, isIsolated]
  cases m.policy.isIsolated (m.statsFor server).1 <;>
    cases m.policy.isQuiet m.now (m.statsFor server).1 <;>
      cases m.permit.isFree m.now <;> simp [Verdict.isApplication]

theorem spends_check {server : Instance} (h : server.eligible = true) (i : Invocation)
    (m : Monitor) :
    m.Spends i [server] ((m.check server.instanceId i).1 == .probe)
      (m.check server.instanceId i).2 := by
  obtain ⟨hclock, htracker, hwindow, hpolicy⟩ := m.check_rest server.instanceId i
  constructor
  case clock => exact hclock
  case window => exact hwindow
  case policy => exact hpolicy
  case permit => exact (m.lent_check server.instanceId i).eq
  case applications =>
    exact ⟨_, (m.check_records server.instanceId i).1, m.applications_check server.instanceId i⟩
  case tracker =>
    obtain ⟨new, hnew, hown⟩ := m.tracker.extends_observe m.now server.instanceId
    rw [htracker]
    refine ⟨new, hnew, ?_⟩
    intro a ha
    exact ⟨server, by simp, h, (hown a ha).symm⟩

/-- **A screening lends the permit to the probe that ends it, and changes no statistics.** -/
theorem spends_screen (i : Invocation) (servers : List Instance) (m : Monitor) :
    m.Spends i servers (m.screen i servers).1.isProbe (m.screen i servers).2 := by
  induction servers generalizing m with
  | nil => exact .refl i [] m
  | cons server rest ih =>
    have hrest (m : Monitor) := (ih m).mono (List.subset_cons_self server rest)
    unfold screen
    split
    · rename_i heligible
      have hfirst : [server] ⊆ server :: rest := by simp
      have hcheck := (spends_check heligible i m).mono hfirst
      rcases hanswer : m.check server.instanceId i with ⟨a, m'⟩
      rw [hanswer] at hcheck
      cases a with
      | probe => exact hcheck
      | isolated => exact hcheck.trans (hrest m')
      | available =>
        show m.Spends i (server :: rest) ((m'.screen i rest).1.cons server).isProbe _
        rw [Screening.isProbe_cons]
        exact hcheck.trans (hrest m')
    · exact hrest m

end Monitor

theorem Balancer.spends_choose (b : Balancer) (servers : List Instance) (i : Invocation) :
    b.monitor.Spends i servers ((b.choose servers i).1.any (·.probe))
      (b.choose servers i).2.monitor := by
  have hscreen := b.monitor.spends_screen i servers
  unfold choose
  split
  · rename_i server monitor heq
    rw [heq] at hscreen
    exact hscreen
  · rename_i candidates monitor heq
    rw [heq] at hscreen
    dsimp only
    cases (b.rule.next candidates).1 <;> exact hscreen

end ServiceFinder
