/-
  ServiceFinder/Proofs/Health/Probe.lean
  ======================================
  **What the end of a probe does to its server.**

  A server is judged by the window of statistics at hand, and the report of a probe is first
  of all one more outcome.  If it still belongs to the window that the server was isolated
  in, a failure keeps the server isolated, but a success frees it from the rule for failures
  in a row only.  If it starts a window, or the server was forgotten, it counts alone.
-/
import ServiceFinder.Proofs.Health.Monitor

namespace ServiceFinder

theorem IsolationPolicy.check_eq_probe_iff {p : IsolationPolicy} {now : Millis} {i : Invocation}
    {s : ServerStats} {permit : Permit} :
    (p.check now i s permit).2.1 = .probe ↔
      p.isIsolated s = true ∧ p.isQuiet now s = true ∧ permit.isFree now = true := by
  unfold check Permit.apply
  cases p.isIsolated s <;> cases p.isQuiet now s <;> cases permit.isFree now <;> simp

namespace Monitor

variable {m : Monitor} {server : String} {i : Invocation} {s : ServerStats}

/-! ### Probes and reports -/

/-- A check judges a server by its statistics, or by fresh ones if it has none. -/
theorem check_fst (h : m.tracker.Apart) :
    (m.check server i).1 =
      (m.policy.check m.now i ((m.tracker.get? server).getD (.startingAt m.now)) m.permit).2.1 := by
  rw [← h.statsFor_fst]
  rfl

/-- A probe is of a server that has statistics, which isolate it, and takes the permit. -/
theorem check_eq_probe_iff (h : m.tracker.Apart) :
    (m.check server i).1 = .probe ↔ ∃ s, m.tracker.get? server = some s ∧
      m.policy.isIsolated s = true ∧ m.policy.isQuiet m.now s = true ∧
      m.permit.isFree m.now = true := by
  rw [check_fst h, IsolationPolicy.check_eq_probe_iff]
  cases m.tracker.get? server with
  | none => simp [m.policy.isIsolated_startingAt m.now]
  | some s => simp

theorem get?_check (h : m.tracker.Apart) (hs : m.tracker.get? server = some s) :
    (m.check server i).2.tracker.get? server = some s := by
  rw [(m.check_rest server i).2.1, h.get?_observe, if_pos rfl, hs, Option.getD_some]

theorem isolates_finish (h : m.tracker.Apart) (server : String) (success : Bool)
    (i : Invocation) :
    (m.finish server success i).isolates server = m.policy.isIsolated
      (((m.tracker.get? server).getD (.startingAt m.now)).mark success m.window m.now) := by
  have hget : (m.finish server success i).tracker.get? server =
      some (((m.tracker.get? server).getD (.startingAt m.now)).mark success m.window m.now) := by
    have hmark := h.get?_mark success m.window m.now server server
    rwa [if_pos rfl] at hmark
  unfold isolates
  rw [hget, Option.any_some]
  rfl

/-- A report that follows its probe at once. -/
theorem isolates_finish_check (h : m.tracker.Apart) (hs : m.tracker.get? server = some s)
    (success : Bool) (i : Invocation) :
    ((m.performAll [.check server i]).finish server success i).isolates server =
      m.policy.isIsolated (s.mark success m.window m.now) := by
  have hchecked : (m.perform (.check server i)).tracker.get? server = some s := get?_check h hs
  have hnow : (m.perform (.check server i)).now = m.now :=
    congrArg Clock.now (m.check_rest server i).1
  obtain ⟨hwindow, hpolicy⟩ := m.settings_perform (.check server i)
  show ((m.perform (.check server i)).finish server success i).isolates server = _
  rw [isolates_finish (apart_perform h _), hchecked, hwindow, hpolicy, hnow, Option.getD_some]

theorem Fresh.opens (h : m.Fresh server) (width now : Millis) :
    ((m.tracker.get? server).getD (.startingAt m.now)).Opens width now := by
  cases hget : m.tracker.get? server with
  | none => exact ServerStats.opens_startingAt _ _ _
  | some s =>
    obtain ⟨t, rfl⟩ := h s hget
    exact ServerStats.opens_startingAt _ _ _

/-- What is known of a server that is to be probed, after `n` outcomes of it. -/
structure Suspect (c : Config) (m : Monitor) (server : String) (n : Nat) (s : ServerStats) :
    Prop where
  known : m.tracker.get? server = some s
  isolated : c.isolation.isIsolated s = true
  tallied : s.Tallied n

theorem Serves.exists_suspect {c : Config} {qs : List Request} (h : Serves c qs m)
    (probes : (m.check server i).1 = .probe) :
    ∃ s, Suspect c m server (outcomes server qs) s := by
  obtain ⟨s, hs, hisolated, -⟩ := (check_eq_probe_iff h.apart).mp probes
  rw [h.policy] at hisolated
  exact ⟨s, hs, hisolated, h.tallied hs⟩

/-- **Between a probe and its report the statistics of the server stay as they are, unless
    the server is forgotten.** -/
theorem probed (c : Config) (now : Millis) {earlier later : List Request}
    (probes : (((c.monitor now).performAll earlier).check server i).1 = .probe)
    (next : ∀ q ∈ later, q.outcomeOf? ≠ some server) :
    ∃ s, Suspect c ((c.monitor now).performAll earlier) server
        (outcomes server earlier) s ∧
      let m := (c.monitor now).performAll (earlier ++ .check server i :: later)
      ((∀ q ∈ later, q.drops server = false) ∧ m.tracker.get? server = some s ∨
        (¬ ∀ q ∈ later, q.drops server = false) ∧ m.Fresh server) := by
  have hbefore := (serves_monitor c now).performAll earlier
  obtain ⟨s, suspect⟩ := hbefore.exists_suspect probes
  refine ⟨s, suspect, ?_⟩
  rw [performAll_append]
  exact kept_or_fresh (apart_perform hbefore.apart (.check server i))
    (get?_check hbefore.apart suspect.known) next

/-! ### A probe that fails -/

/-- **A failed probe leaves its server isolated just when it still belongs to the window that
    the server was isolated in, or when one failure alone isolates a server.** -/
theorem failed_probe_isolates_iff (c : Config) (now : Millis) (earlier later : List Request)
    (server : String) (i : Invocation)
    (probes : (((c.monitor now).performAll earlier).check server i).1 = .probe)
    (next : ∀ q ∈ later, q.outcomeOf? ≠ some server)
    (few : 100 * (outcomes server earlier + 1) < UInt64.size) :
    ∃ s, ((c.monitor now).performAll earlier).tracker.get? server = some s ∧
      let m := (c.monitor now).performAll (earlier ++ .check server i :: later)
      ((m.finish server false i).isolates server = true ↔
        (∀ q ∈ later, q.drops server = false) ∧ elapsed s.windowStart m.now ≤ c.statsWindow ∨
          c.isolation.isolatesAtOnce = true) := by
  obtain ⟨s, suspect, hlater⟩ := probed c now probes next
  have hserves := (serves_monitor c now).performAll (earlier ++ .check server i :: later)
  refine ⟨s, suspect.known, ?_⟩
  intro m
  rw [isolates_finish hserves.apart, hserves.policy, hserves.window]
  rcases hlater with ⟨hnone, hkept⟩ | ⟨hsome, hfresh⟩
  · rw [hkept, Option.getD_some]
    by_cases within : elapsed s.windowStart m.now ≤ c.statsWindow
    · have hstays :=
        IsolationPolicy.isIsolated_markFailure suspect.isolated suspect.tallied within few
      exact iff_of_true hstays (.inl ⟨hnone, within⟩)
    · have hopens : s.Opens c.statsWindow m.now := .inl (UInt64.not_le.mp within)
      have halone := c.isolation.isIsolated_first_failure hopens
      simp [ServerStats.mark, m, halone, within]
  · have halone := c.isolation.isIsolated_first_failure (hfresh.opens c.statsWindow m.now)
    simp [ServerStats.mark, m, halone, hsome]

/-! ### Failed probes that free their servers -/

/-- The statistics of a server that has failed `n` times, and all at one moment. -/
def failedAt (t : Millis) (n : UInt64) : ServerStats :=
  { ServerStats.startingAt t with total := n, failed := n, continuous := n }

theorem mark_failedAt (width t : Millis) (n : UInt64) :
    (failedAt t n).mark false width t = failedAt t (n + 1) := by
  have within : elapsed t t ≤ width := by simp [elapsed]
  have hvisit : max t t = t := ite_self t
  show ServerStats.markFailure width t (failedAt t n) = failedAt t (n + 1)
  rw [ServerStats.markFailure, ServerStats.rolled_of_le within]
  simp [failedAt, ServerStats.startingAt, hvisit]

theorem performAll_failures {k : UInt64} (h : m.tracker.Apart)
    (hget : m.tracker.get? server = some (failedAt m.now k)) (n : Nat) :
    let m' := m.performAll (List.replicate n (.mark false server))
    m'.now = m.now ∧ m'.permit = m.permit ∧
      m'.tracker.get? server = some (failedAt m.now (k + UInt64.ofNat n)) := by
  induction n generalizing m k with
  | zero =>
    refine ⟨rfl, rfl, hget.trans ?_⟩
    rw [show UInt64.ofNat 0 = 0 from rfl, UInt64.add_zero]
  | succ n ih =>
    have hmark := h.get?_mark false m.window m.now server server
    rw [if_pos rfl, hget, Option.getD_some, mark_failedAt] at hmark
    have hsucc : k + 1 + UInt64.ofNat n = k + UInt64.ofNat (n + 1) := by
      rw [UInt64.add_assoc, UInt64.ofNat_add, UInt64.add_comm 1]
      rfl
    rw [← hsucc]
    exact ih (m := m.mark false server) (h.mark false m.window m.now server) hmark

/-- A probe of the server `a` fails, and the server is no longer isolated. -/
def FreesByFailure (c : Config) (earlier later : List Request) : Prop :=
  c.Valid ∧ (((c.monitor 0).performAll earlier).check "a" "p").1 = .probe ∧
    (∀ q ∈ later, q.outcomeOf? ≠ some "a") ∧
    (((c.monitor 0).performAll (earlier ++ .check "a" "p" :: later)).finish
      "a" false "p").isolates "a" = false

instance (c : Config) (earlier later : List Request) :
    Decidable (FreesByFailure c earlier later) := by
  unfold FreesByFailure
  infer_instance

namespace Probed

/-- The server `a` fails so often at once, and is left alone for a while. -/
def failures (n : Nat) (wait : Millis) : List Request :=
  .observe "a" :: (List.replicate n (.mark false "a") ++ [.advanceClock wait])

/-- Windows are long, and probes come soon. -/
def lasting : Config := { statsWindow := 600000, isolation := { singleTestTime := 1000 } }

/-- Only a server that always fails is isolated. -/
def lenient : Config :=
  { lasting with
    isolation := { errorThreshold := 100, continuousThreshold := 0, singleTestTime := 1000 } }

/-- The last number of failures that can be taken a hundredfold in 64 bits. -/
def many : Nat := 184467440737095516

theorem get?_failures (c : Config) (n : Nat) (wait : Millis) :
    let m := (c.monitor 0).performAll (failures n wait)
    m.now = wait ∧ m.permit.token = none ∧
      m.tracker.get? "a" = some (failedAt 0 (UInt64.ofNat n)) := by
  have hobserve := Tracker.apart_empty.get?_observe 0 "a" "a"
  obtain ⟨hnow, hpermit, hget⟩ :=
    performAll_failures (m := (c.monitor 0).perform (.observe "a")) (k := 0)
      (Tracker.apart_empty.observe 0 "a") hobserve n
  intro m
  have hm : m = (((c.monitor 0).perform (.observe "a")).performAll
      (List.replicate n (.mark false "a"))).perform (.advanceClock wait) := by
    simp only [m, failures, performAll, List.foldl_cons, List.foldl_append, List.foldl_nil]
  rw [UInt64.zero_add] at hget
  rw [hm]
  exact ⟨(congrArg (· + wait) hnow).trans (UInt64.zero_add wait), congrArg Permit.token hpermit,
    hget⟩

theorem freesByFailure_many : FreesByFailure lenient (failures many 1001) [] := by
  have hserves := (serves_monitor lenient 0).performAll (failures many 1001)
  obtain ⟨hnow, hpermit, hget⟩ := get?_failures lenient many 1001
  have hfree : ((lenient.monitor 0).performAll (failures many 1001)).permit.isFree 1001 =
      true := by
    rw [Permit.isFree, hpermit, Option.all_none]
  refine ⟨by decide +kernel, ?_, fun q hq => absurd hq List.not_mem_nil, ?_⟩
  · rw [check_eq_probe_iff hserves.apart, hserves.policy, hnow]
    exact ⟨_, hget, by decide +kernel, by decide, hfree⟩
  · have hreport := isolates_finish_check hserves.apart hget false "p"
    rw [hserves.policy, hserves.window, hnow] at hreport
    rw [performAll_append, hreport]
    decide +kernel

end Probed

/-- **A failed probe can put its server back into rotation: when its report comes after the
    window has run out, as it does with all settings at their defaults; when the server was
    forgotten meanwhile; and when its failures are too many for a percentage.** -/
theorem failed_probe_frees_server :
    FreesByFailure {} (Probed.failures 5 60001) [] ∧
      FreesByFailure Probed.lasting (Probed.failures 5 1001) [.retain []] ∧
        FreesByFailure Probed.lenient (Probed.failures Probed.many 1001) [] :=
  ⟨by decide, by decide, Probed.freesByFailure_many⟩

/-- What happens until a report, without an outcome of the server `a`. -/
def Probed.meanwhile : List Request := [.mark true "b", .advanceClock 500, .check "a" "q"]

/-- A server stays isolated when its probe fails within the window. -/
theorem failed_probe_within_window :
    let earlier := Probed.failures 5 1001
    let m := (Probed.lasting.monitor 0).performAll
      (earlier ++ .check "a" "p" :: Probed.meanwhile)
    ((((Probed.lasting.monitor 0).performAll earlier).check "a" "p").1 = .probe ∧
        (∀ q ∈ Probed.meanwhile, q.outcomeOf? ≠ some "a") ∧
        100 * (outcomes "a" earlier + 1) < UInt64.size) ∧
      (m.finish "a" false "p").isolates "a" = true := by
  intro earlier m
  have probes : (((Probed.lasting.monitor 0).performAll earlier).check "a" "p").1 =
      .probe := by decide
  have next : ∀ q ∈ Probed.meanwhile, q.outcomeOf? ≠ some "a" := by decide
  have few : 100 * (outcomes "a" earlier + 1) < UInt64.size := by decide
  obtain ⟨s, hs, hiff⟩ := failed_probe_isolates_iff Probed.lasting 0 earlier Probed.meanwhile
    "a" "p" probes next few
  cases hs.symm.trans (Probed.get?_failures Probed.lasting 5 1001).2.2
  exact ⟨⟨probes, next, few⟩, hiff.mpr (.inl ⟨by decide, by decide⟩)⟩

/-! ### A probe that succeeds -/

/-- **A successful probe leaves its server isolated just when it still belongs to the window
    that the server was isolated in and the share of failures there is still too large; in any
    case it gives the permit back.** -/
theorem successful_probe_isolates_iff (c : Config) (now : Millis) (earlier later : List Request)
    (server : String) (i : Invocation)
    (probes : (((c.monitor now).performAll earlier).check server i).1 = .probe)
    (next : ∀ q ∈ later, q.outcomeOf? ≠ some server) :
    ∃ s, ((c.monitor now).performAll earlier).tracker.get? server = some s ∧
      let m := (c.monitor now).performAll (earlier ++ .check server i :: later)
      ((m.finish server true i).isolates server = true ↔
        (∀ q ∈ later, q.drops server = false) ∧ elapsed s.windowStart m.now ≤ c.statsWindow ∧
          c.isolation.tooLargeAShare { s with total := s.total + 1 } = true) ∧
      (m.finish server true i).permit.token.all (·.invocation != i) = true := by
  obtain ⟨s, suspect, hlater⟩ := probed c now probes next
  have hserves := (serves_monitor c now).performAll (earlier ++ .check server i :: later)
  refine ⟨s, suspect.known, ?_⟩
  intro m
  refine ⟨?_, Permit.token_checkAndRelease _ i⟩
  rw [isolates_finish hserves.apart, hserves.policy, hserves.window]
  rcases hlater with ⟨hnone, hkept⟩ | ⟨hsome, hfresh⟩
  · rw [hkept, Option.getD_some]
    by_cases within : elapsed s.windowStart m.now ≤ c.statsWindow
    · have hshare := IsolationPolicy.isIsolated_markSuccess suspect.isolated within
      rw [← hshare]
      exact ⟨fun hstays => ⟨hnone, within, hstays⟩, fun h => h.2.2⟩
    · have hopens : s.Opens c.statsWindow m.now := .inl (UInt64.not_le.mp within)
      have halone := c.isolation.isIsolated_first_success hopens
      simp [ServerStats.mark, m, halone, within]
  · have halone := c.isolation.isIsolated_first_success (hfresh.opens c.statsWindow m.now)
    simp [ServerStats.mark, m, halone, hsome]

/-- Half of the outcomes may not fail. -/
def Probed.strict : Config :=
  { statsWindow := 600000,
    isolation :=
      { errorThreshold := 50, continuousThreshold := 0, minRequests := 4,
        singleTestTime := 1000 } }

/-- **A server that is isolated for its share of failures can stay isolated when its probe
    succeeds.** -/
theorem successful_probe_leaves_isolated :
    Probed.strict.Valid ∧
      (((Probed.strict.monitor 0).performAll (Probed.failures 5 1001)).check
        "a" "p").1 = .probe ∧
      (((Probed.strict.monitor 0).performAll
        (Probed.failures 5 1001 ++ [.check "a" "p"])).finish "a" true "p").isolates "a" = true := by
  decide

/-- A server that is isolated for its failures in a row is free when its probe succeeds. -/
theorem successful_probe_ends_row :
    let earlier := Probed.failures 5 1001
    let m := (Probed.lasting.monitor 0).performAll
      (earlier ++ .check "a" "p" :: Probed.meanwhile)
    ((((Probed.lasting.monitor 0).performAll earlier).check "a" "p").1 = .probe ∧
        ∀ q ∈ Probed.meanwhile, q.outcomeOf? ≠ some "a") ∧
      (m.finish "a" true "p").isolates "a" = false ∧
      (m.finish "a" true "p").permit.token.all (·.invocation != "p") = true := by
  intro earlier m
  have probes : (((Probed.lasting.monitor 0).performAll earlier).check "a" "p").1 =
      .probe := by decide
  have next : ∀ q ∈ Probed.meanwhile, q.outcomeOf? ≠ some "a" := by decide
  obtain ⟨s, -, hiff, hpermit⟩ := successful_probe_isolates_iff Probed.lasting 0 earlier
    Probed.meanwhile "a" "p" probes next
  refine ⟨⟨probes, next⟩, ?_, hpermit⟩
  rw [← Bool.not_eq_true, hiff]
  rintro ⟨-, -, hshare⟩
  rw [IsolationPolicy.tooLargeAShare_iff] at hshare
  exact absurd hshare.1 (by decide)

end Monitor

end ServiceFinder
