/-
  ServiceFinder/Proofs/Health/Counting.lean
  =========================================
  **What a monitor counts.**

  A monitor is asked for one thing after the other, and each check and each application for the
  permit is written down with its answer.  What is counted can be told from these answers, and
  the answers from what the monitor was asked (`Monitor.allVerdicts`): a check that applies for
  the permit itself writes the application down before its own answer.
-/
import ServiceFinder.Proofs.Health.Monitor

namespace ServiceFinder

/-- How a verdict is counted. -/
def Verdict.measure? : Verdict → Option Measurement
  | .applied _ granted => some (.permit granted)
  | .checked _ .isolated => some .isolated
  | .checked _ _ => none

/-- An application for the permit that went so. -/
def Verdict.isApplication ( granted : Bool) : Verdict → Bool
  | .applied _ answer => answer == granted
  | _ => false

/-! ### What a monitor writes down -/

namespace Monitor

/-- A check of this server applies for the permit. -/
def appliesFor (m : Monitor) (server : String) : Bool :=
  let stats := (m.statsFor server).1
  m.isIsolated stats && m.policy.isQuiet m.now stats

/-- The checks and the applications for the permit that a request makes, with their answers,
    latest first. -/
def verdicts (m : Monitor) : Request → List Verdict
  | .apply i => [.applied i (m.apply i).1]
  | .check server i => .checked server (m.check server i).1 ::
      if m.appliesFor server then [.applied i (m.apply i).1] else []
  | _ => []

/-- The permit is applied for just when the server is isolated and quiet. -/
theorem check_applied (p : IsolationPolicy) (now : Millis) (i : Invocation) (s : ServerStats)
    (permit : Permit) :
    (p.check now i s permit).1 =
      if p.isIsolated s && p.isQuiet now s then some (permit.apply now i).1 else none := by
  unfold IsolationPolicy.check
  cases p.isIsolated s <;> cases p.isQuiet now s <;> rfl

/-- What a check writes down: its answer, and before that how an application went. -/
theorem check_records (m : Monitor) (server : String) (i : Invocation) :
    (m.check server i).2.history = m.verdicts (.check server i) ++ m.history ∧
      (m.check server i).2.measured =
        (m.verdicts (.check server i)).filterMap Verdict.measure? ++ m.measured := by
  have happlied := check_applied m.policy m.now i (m.statsFor server).1 m.permit
  have hanswer : (m.check server i).1 =
      (m.policy.check m.now i (m.statsFor server).1 m.permit).2.1 := rfl
  have hverdicts : m.verdicts (.check server i) = .checked server (m.check server i).1 ::
      ((m.policy.check m.now i (m.statsFor server).1 m.permit).1.map (.applied i)).toList := by
    rw [happlied]
    show Verdict.checked server _ :: _ = Verdict.checked server _ :: _
    congr 1
    cases happlies : m.appliesFor server with
    | true =>
      have h : (m.policy.isIsolated (m.statsFor server).1 &&
          m.policy.isQuiet m.now (m.statsFor server).1) = true := happlies
      rw [if_pos h]
      rfl
    | false =>
      have h : (m.policy.isIsolated (m.statsFor server).1 &&
          m.policy.isQuiet m.now (m.statsFor server).1) = false := happlies
      rw [h]
      rfl
  have hcheck (v) (hv : m.policy.check m.now i (m.statsFor server).1 m.permit = v) :
      (m.check server i).2.history =
          .checked server v.2.1 :: (v.1.map (.applied i)).toList ++ m.history ∧
        (m.check server i).2.measured =
          (if v.2.1 = .isolated then [.isolated] else []) ++
            (v.1.map .permit).toList ++ m.measured := by
    obtain ⟨applied, answer, permit⟩ := v
    simp only [check, statsFor, now] at hv ⊢
    cases applied <;> simp [hv]
  rw [hverdicts, hanswer]
  obtain ⟨hhistory, hmeasured⟩ := hcheck _ rfl
  refine ⟨hhistory, hmeasured.trans ?_⟩
  rcases m.policy.check m.now i (m.statsFor server).1 m.permit with
    ⟨_ | granted, _ | _ | _, permit⟩
  all_goals rfl

end Monitor

/-! ### What its counters show -/

end ServiceFinder
