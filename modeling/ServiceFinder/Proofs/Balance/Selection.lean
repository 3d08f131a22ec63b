/-
  ServiceFinder/Proofs/Balance/Selection.lean
  ===========================================
  **Choosing a server takes the permit for a probe, and for nothing else.**

  Each check of a server may apply for the permit, but the first application that is granted
  ends the choice: its server is probed.
-/
import ServiceFinder.Balance.Selection
import ServiceFinder.Proofs.Health.Permit

namespace ServiceFinder

/-- Whether a server is to be probed. -/
def Screening.isProbe : Screening → Bool
  | probe _ => true
  | available _ => false

theorem Screening.isProbe_cons (server : Instance) (s : Screening) :
    (s.cons server).isProbe = s.isProbe := by
  cases s <;> rfl

namespace Monitor

theorem clock_screen (servers : List Instance) (i : Invocation) (m : Monitor) :
    (m.screen i servers).2.clock = m.clock := by
  induction servers generalizing m with
  | nil => rfl
  | cons server rest ih =>
    have hclock := (m.check_rest server.instanceId i).1
    rcases hcheck : m.check server.instanceId i with ⟨a, m'⟩
    rw [hcheck] at hclock
    unfold screen
    split
    · rw [hcheck]
      cases a with
      | probe => exact hclock
      | available | isolated => exact (ih m').trans hclock
    · exact ih m

/-- The permit is lent to the screening that ends with a probe. -/
theorem lent_screen (servers : List Instance) (i : Invocation) (m : Monitor) :
    m.permit.Lent m.now i (m.screen i servers).1.isProbe (m.screen i servers).2.permit := by
  induction servers generalizing m with
  | nil => exact .plain
  | cons server rest ih =>
    have hclock := (m.check_rest server.instanceId i).1
    have hlent := m.lent_check server.instanceId i
    rcases hcheck : m.check server.instanceId i with ⟨a, m'⟩
    rw [hcheck] at hclock hlent
    have hrest (ha : a ≠ .probe) :
        m.permit.Lent m.now i (m'.screen i rest).1.isProbe (m'.screen i rest).2.permit := by
      have hsame : m'.permit = m.permit := by
        cases a with
        | probe => exact absurd rfl ha
        | available | isolated => exact hlent.eq_of_plain
      have hnow : m'.now = m.now := congrArg Clock.now hclock
      rw [← hsame, ← hnow]
      exact ih m'
    unfold screen
    split
    · rw [hcheck]
      cases a with
      | probe => exact hlent
      | available =>
        show m.permit.Lent m.now i ((m'.screen i rest).1.cons server).isProbe _
        rw [Screening.isProbe_cons]
        exact hrest (by simp)
      | isolated => exact hrest (by simp)
    · exact ih m

end Monitor

namespace Balancer

variable {servers : List Instance} {i : Invocation} {b : Balancer}

theorem clock_choose (servers : List Instance) (i : Invocation) (b : Balancer) :
    (b.choose servers i).2.monitor.clock = b.monitor.clock := by
  have hclock := b.monitor.clock_screen servers i
  unfold choose
  split
  all_goals
    rename_i hscreen
    rw [hscreen] at hclock
    exact hclock

/-- **A choice takes the permit exactly when its selection is a probe.** -/
theorem lent_choose (servers : List Instance) (i : Invocation) (b : Balancer) :
    b.monitor.permit.Lent b.monitor.now i ((b.choose servers i).1.any (·.probe))
      (b.choose servers i).2.monitor.permit := by
  have hlent := b.monitor.lent_screen servers i
  unfold choose
  split
  · rename_i hscreen
    rw [hscreen] at hlent
    exact hlent
  · rename_i candidates monitor hscreen
    rw [hscreen] at hlent
    dsimp only
    cases (b.rule.next candidates).1 <;> exact hlent

theorem invocation_choose {s : Selection} (h : (b.choose servers i).1 = some s) :
    s.invocation = i := by
  unfold choose at h
  split at h
  · cases h
    rfl
  · rename_i candidates monitor hscreen
    dsimp only at h
    obtain ⟨server, -, rfl⟩ := Option.map_eq_some_iff.mp h
    rfl

end Balancer

end ServiceFinder
