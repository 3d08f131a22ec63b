/-
  ServiceFinder/Proofs/Balance/Choice.lean
  ========================================
  **Which server is chosen.**

  The servers are checked one after the other, and each check may change the monitor.  But a
  server that is observed for the first time is neither isolated nor left alone for long, and
  the permit changes hands only with the probe that ends the choice.  So every check finds the
  other servers as they were at the beginning (`Monitor.Alike`), and the choice can be read off
  the monitor as it was then.
-/
import ServiceFinder.Proofs.Balance.Selection
import ServiceFinder.Proofs.Health.Probe

namespace ServiceFinder

/-! ### Fresh statistics -/

/-- Nobody has been left alone since right now. -/
theorem IsolationPolicy.isQuiet_startingAt (p : IsolationPolicy) (now : Millis) :
    p.isQuiet now (.startingAt now) = false := by
  have hzero : elapsed now now = 0 := by simp [elapsed]
  simp [isQuiet, ServerStats.startingAt, hzero]

theorem IsolationPolicy.check_answer (p : IsolationPolicy) (now : Millis) (i : Invocation)
    (s : ServerStats) (permit : Permit) :
    (p.check now i s permit).2.1 =
      if p.isIsolated s && p.isQuiet now s && permit.isFree now then .probe
      else if p.isIsolated s then .isolated else .available := by
  unfold check Permit.apply
  cases p.isIsolated s <;> cases p.isQuiet now s <;> cases permit.isFree now <;> rfl

namespace Permit

variable {p : Permit} {now : Millis} {i : Invocation}

theorem holder_eq_none_iff : p.holder now = none ↔ p.isFree now = true := by
  unfold holder isFree
  cases p.token with
  | none => simp
  | some t => cases h : t.isExpired now <;> simp [Option.filter, h]

/-- Whoever is granted a permit that lasts holds it. -/
theorem holder_granted (lasts : 0 < p.ttl) :
    ({ p with token := some ⟨i, now, p.ttl⟩ } : Permit).holder now = some i := by
  have hzero : elapsed now now = 0 := by simp [elapsed]
  have hfresh : (⟨i, now, p.ttl⟩ : Token).isExpired now = false := by
    rw [Token.isExpired, hzero]
    exact decide_eq_false (UInt64.not_le.mpr lasts)
  simp [holder, Option.filter, hfresh]

end Permit

namespace Monitor

/-! ### One check -/

/-- Whether a server has been left alone for long enough to be probed, by what is known of it. -/
def quiet (server : String) (m : Monitor) : Bool :=
  (m.tracker.get? server).any (m.policy.isQuiet m.now)

/-- Whether a check of a server would end in a probe. -/
def probes (server : String) (m : Monitor) : Bool :=
  m.isolates server && m.quiet server && m.permit.isFree m.now

variable {m m' : Monitor} {i : Invocation}

theorem check_answer (h : m.tracker.Apart) (server : String) (i : Invocation) :
    (m.check server i).1 =
      if m.probes server then .probe
      else if m.isolates server then .isolated else .available := by
  rw [check_fst h, IsolationPolicy.check_answer]
  unfold probes isolates quiet isIsolated
  cases m.tracker.get? server with
  | none => simp [m.policy.isIsolated_startingAt m.now]
  | some s => rfl

/-- `m'` would answer every check as `m` does. -/
structure Alike (m m' : Monitor) : Prop where
  now : m'.now = m.now
  permit : m'.permit = m.permit
  isolates : ∀ a, m'.isolates a = m.isolates a
  quiet : ∀ a, m'.quiet a = m.quiet a

theorem Alike.probes (h : m.Alike m') (a : String) : m'.probes a = m.probes a := by
  simp only [Monitor.probes, h.now, h.permit, h.isolates, h.quiet]

theorem apart_check (h : m.tracker.Apart) (server : String) (i : Invocation) :
    (m.check server i).2.tracker.Apart :=
  apart_perform h (.check server i)

/-- **A check that ends in no probe leaves all servers as they were.** -/
theorem alike_check (h : m.tracker.Apart) {server : String}
    (plain : (m.check server i).1 ≠ .probe) : m.Alike (m.check server i).2 := by
  obtain ⟨hclock, htracker, -, hpolicy⟩ := m.check_rest server i
  have hnow : (m.check server i).2.now = m.now := congrArg Clock.now hclock
  -- what a first observation adds is neither isolated nor left alone
  have hany (judge : ServerStats → Bool) (fresh : judge (.startingAt m.now) = false)
      (a : String) :
      ((m.check server i).2.tracker.get? a).any judge = (m.tracker.get? a).any judge := by
    rw [htracker, h.get?_observe]
    split
    · rename_i ha
      rw [ha]
      cases m.tracker.get? server <;> simp [fresh]
    · rfl
  constructor
  case now => exact hnow
  case permit =>
    have hlent := m.lent_check server i
    rw [beq_eq_false_iff_ne.mpr plain] at hlent
    exact hlent.eq_of_plain
  case isolates =>
    intro a
    unfold isolates isIsolated
    rw [hpolicy]
    exact hany _ (m.policy.isIsolated_startingAt m.now) a
  case quiet =>
    intro a
    unfold quiet
    rw [hpolicy, hnow]
    exact hany _ (m.policy.isQuiet_startingAt m.now) a

/-! ### All checks of a choice -/

/-- What checking `servers` comes to, by what is known at the beginning. -/
def screening (servers : List Instance) (m : Monitor) : Screening :=
  match servers.find? fun s => s.eligible && m.probes s.instanceId with
  | some s => .probe s
  | none => .available (servers.filter fun s => s.eligible && !m.isolates s.instanceId)

theorem Alike.screening (h : m.Alike m') (servers : List Instance) :
    m'.screening servers = m.screening servers := by
  simp only [Monitor.screening, h.probes, h.isolates]

theorem screening_cons (server : Instance) (rest : List Instance) (m : Monitor) :
    m.screening (server :: rest) =
      if server.eligible && m.probes server.instanceId then .probe server
      else if server.eligible && !m.isolates server.instanceId then
        (m.screening rest).cons server
      else m.screening rest := by
  unfold screening
  rw [List.find?_cons, List.filter_cons]
  cases server.eligible && m.probes server.instanceId with
  | true => rfl
  | false =>
    cases rest.find? fun s => s.eligible && m.probes s.instanceId <;>
      cases server.eligible && !m.isolates server.instanceId <;> rfl

/-- **The first server to be probed ends the screening; else all that are eligible and not
    isolated are available.** -/
theorem screen_fst (h : m.tracker.Apart) (i : Invocation) (servers : List Instance) :
    (m.screen i servers).1 = m.screening servers := by
  induction servers generalizing m with
  | nil => rfl
  | cons server rest ih =>
    have hanswer := check_answer h server.instanceId i
    have halike : (m.check server.instanceId i).1 ≠ .probe → _ := alike_check h
    have hrest := ih (apart_check h server.instanceId i)
    rw [screening_cons]
    unfold screen
    rcases hcheck : m.check server.instanceId i with ⟨a, m'⟩
    rw [hcheck] at hanswer halike hrest
    cases heligible : server.eligible with
    | false => exact ih h
    | true =>
      cases hprobes : m.probes server.instanceId with
      | true =>
        rw [hprobes] at hanswer
        cases hanswer
        simp
      | false =>
        cases hisolates : m.isolates server.instanceId with
        | true =>
          rw [hprobes, hisolates] at hanswer
          cases hanswer
          simpa [hcheck] using hrest.trans ((halike (by simp)).screening rest)
        | false =>
          rw [hprobes, hisolates] at hanswer
          cases hanswer
          have hscreen := congrArg (Screening.cons server)
            (hrest.trans ((halike (by simp)).screening rest))
          simpa [hcheck] using hscreen

end Monitor

/-! ### Whose turn it is -/

namespace Rule

variable {α : Type} {servers : List α} {r : Rule}

/-- Every rule picks the server at some position, unless there is none. -/
theorem exists_next (servers : List α) (r : Rule) :
    servers = [] ∧ (r.next servers).1 = none ∨
      ∃ k < servers.length, (r.next servers).1 = servers[k]? := by
  cases servers with
  | nil => cases r <;> exact .inl ⟨rfl, rfl⟩
  | cons s rest =>
    cases r with
    | roundRobin r => exact .inr ⟨_, Nat.mod_lt _ (Nat.zero_lt_succ _), rfl⟩
    | random d => exact .inr ⟨_, (d.draw 0 rest.length).isLt, rfl⟩

theorem mem_of_next {s : α} (h : (r.next servers).1 = some s) : s ∈ servers := by
  rcases r.exists_next servers with ⟨-, hnone⟩ | ⟨k, -, hk⟩
  · rw [hnone] at h
    cases h
  · exact List.mem_of_getElem? (hk.symm.trans h)

theorem next_eq_none_iff : (r.next servers).1 = none ↔ servers = [] := by
  rcases r.exists_next servers with ⟨hnil, hnone⟩ | ⟨k, hlt, hk⟩
  · exact iff_of_true hnone hnil
  · rw [hk, List.getElem?_eq_some_iff.mpr ⟨hlt, rfl⟩]
    simp [List.ne_nil_of_length_pos (Nat.zero_lt_of_lt hlt)]

end Rule

/-! ### Choices -/

/-- What a selection says of a server that was chosen among `servers` for `i`, by what the
    monitor knew. -/
structure Selection.Fits (m : Monitor) (servers : List Instance) (i : Invocation)
    (s : Selection) : Prop where
  listed : s.server ∈ servers
  eligible : s.server.eligible = true
  endpoint : s.server.endpoints.head? = some s.endpoint
  invocation : s.invocation = i
  /-- A probe is of a server that is isolated, and any other selection of one that is not. -/
  isolated : m.isolates s.server.instanceId = s.probe
  probe : s.probe = true → m.quiet s.server.instanceId = true ∧ m.holder = none

/-- No server can be chosen: all that are eligible are isolated, and either none has been left
    alone for long enough or the permit is held. -/
structure Monitor.Excludes (m : Monitor) (servers : List Instance) : Prop where
  isolated : ∀ s ∈ servers, s.eligible = true → m.isolates s.instanceId = true
  unprobed : (∀ s ∈ servers, s.eligible = true → m.quiet s.instanceId = false) ∨ m.holder ≠ none

theorem Selection.endpoint_of {server : Instance} (h : server.eligible = true) (i : Invocation)
    (probe : Bool) : server.endpoints.head? = some (Selection.of server i probe).endpoint := by
  unfold Instance.eligible at h
  unfold Selection.of
  cases hends : server.endpoints with
  | nil => simp [hends] at h
  | cons e rest => rfl

theorem Selection.Fits.not_excludes {m : Monitor} {servers : List Instance} {i : Invocation}
    {s : Selection} (h : s.Fits m servers i) : ¬ m.Excludes servers := by
  intro hex
  have hprobe : s.probe = true := h.isolated ▸ hex.isolated _ h.listed h.eligible
  obtain ⟨hquiet, hfree⟩ := h.probe hprobe
  rcases hex.unprobed with hnone | hheld
  · cases (hnone _ h.listed h.eligible).symm.trans hquiet
  · exact hheld hfree

namespace Balancer

variable {b : Balancer} {servers : List Instance} {i : Invocation}

/-- **A choice selects a server that fits, or there is none to be chosen.** -/
theorem choose_cases (h : b.monitor.tracker.Apart) (servers : List Instance) (i : Invocation) :
    (∃ s, (b.choose servers i).1 = some s ∧ s.Fits b.monitor servers i) ∨
      (b.choose servers i).1 = none ∧ b.monitor.Excludes servers := by
  have hscreen := Monitor.screen_fst h i servers
  unfold Monitor.screening at hscreen
  unfold choose
  cases hfind : servers.find? fun s => s.eligible && b.monitor.probes s.instanceId with
  | some server =>
    rw [hfind] at hscreen
    have hfits := List.find?_some hfind
    simp only [Monitor.probes, Bool.and_eq_true] at hfits
    obtain ⟨heligible, ⟨hisolated, hquiet⟩, hfree⟩ := hfits
    refine .inl ⟨.of server i true, ?_, List.mem_of_find?_eq_some hfind, heligible,
      Selection.endpoint_of heligible i true, rfl, hisolated,
      fun _ => ⟨hquiet, Permit.holder_eq_none_iff.mpr hfree⟩⟩
    split
    · rename_i server' monitor heq
      rw [heq] at hscreen
      cases hscreen
      rfl
    · rename_i candidates monitor heq
      rw [heq] at hscreen
      cases hscreen
  | none =>
    rw [hfind] at hscreen
    split
    · rename_i server' monitor heq
      rw [heq] at hscreen
      cases hscreen
    · rename_i candidates monitor heq
      rw [heq] at hscreen
      cases hscreen
      dsimp only
      cases hnext : (b.rule.next
        (servers.filter fun s => s.eligible && !b.monitor.isolates s.instanceId)).1 with
      | some server =>
        obtain ⟨hlisted, hfits⟩ := List.mem_filter.mp (Rule.mem_of_next hnext)
        simp only [Bool.and_eq_true, Bool.not_eq_true'] at hfits
        exact .inl ⟨.of server i false, rfl, hlisted, hfits.1,
          Selection.endpoint_of hfits.1 i false, rfl, hfits.2, nofun⟩
      | none =>
        have hempty := List.filter_eq_nil_iff.mp (Rule.next_eq_none_iff.mp hnext)
        have hisolated : ∀ s ∈ servers, s.eligible = true →
            b.monitor.isolates s.instanceId = true := by
          intro s hs heligible
          simpa [heligible] using hempty s hs
        refine .inr ⟨rfl, hisolated, ?_⟩
        by_cases hfree : b.monitor.holder = none
        · refine .inl ?_
          intro s hs heligible
          have hprobes := List.find?_eq_none.mp hfind s hs
          have hpermit : b.monitor.permit.isFree b.monitor.now = true :=
            Permit.holder_eq_none_iff.mp hfree
          simpa [heligible, Monitor.probes, hisolated s hs heligible, hpermit] using hprobes
        · exact .inr hfree

/-- A selection for a probe holds the permit, for as long as permits last. -/
theorem permit_choose {s : Selection} (h : (b.choose servers i).1 = some s)
    (hprobe : s.probe = true) :
    (b.choose servers i).2.monitor.permit =
      { b.monitor.permit with token := some ⟨i, b.monitor.now, b.monitor.permit.ttl⟩ } := by
  have hlent := b.lent_choose servers i
  simp only [h, Option.any_some, hprobe] at hlent
  cases hlent with
  | probe happly => exact (Permit.apply_eq_granted_iff.mp happly).2.symm

end Balancer

end ServiceFinder
