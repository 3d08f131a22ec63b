/-
  ServiceFinder/Proofs/Health/Permit.lean
  =======================================
  **Who holds the permit.**

  An application is granted only while the permit is free, and a report gives back no permit
  but that of its own invocation.  The check of a server takes the permit if it answers that
  the server is to be probed, and leaves it alone otherwise.
-/
import ServiceFinder.Health.Monitor

namespace ServiceFinder

namespace Permit

variable {p p' : Permit} {i : Invocation} {now : Millis}

theorem apply_eq_granted_iff :
    p.apply now i = (true, p') ↔
      p.isFree now = true ∧ { p with token := some ⟨i, now, p.ttl⟩ } = p' := by
  unfold apply
  split
  · rename_i h
    simp [h]
  · rename_i h
    simp [h]

theorem apply_eq_refused_iff : p.apply now i = (false, p') ↔ p.isFree now = false ∧ p = p' := by
  unfold apply
  split
  · rename_i h
    simp [h]
  · rename_i h
    simp [h]

theorem checkAndRelease_snd (p : Permit) (i : Invocation) :
    (p.checkAndRelease i).2 = { p with token := p.token.filter (·.invocation != i) } := by
  obtain ⟨ttl, token⟩ := p
  unfold checkAndRelease release
  cases token with
  | none => rfl
  | some t => by_cases hi : t.invocation = i <;> simp [Option.filter, hi]

/-- Whoever gives the permit back does not hold it. -/
theorem token_checkAndRelease (p : Permit) (i : Invocation) :
    (p.checkAndRelease i).2.token.all (·.invocation != i) = true := by
  rw [checkAndRelease_snd]
  cases p.token with
  | none => rfl
  | some t => by_cases hi : t.invocation = i <;> simp [Option.filter, hi]

end Permit

/-! ### Checks -/

/-- The invocation `i` was granted the permit if it probes, and left it alone otherwise. -/
inductive Permit.Lent (now : Millis) (i : Invocation) (p : Permit) : Bool → Permit → Prop where
  | probe {p' : Permit} (h : p.apply now i = (true, p')) : Lent now i p true p'
  | plain : Lent now i p false p

theorem Permit.Lent.eq_of_plain {now : Millis} {i : Invocation} {p p' : Permit}
    (h : p.Lent now i false p') : p' = p := by
  cases h
  rfl

theorem IsolationPolicy.lent_check (policy : IsolationPolicy) (now : Millis) (i : Invocation)
    (s : ServerStats) (p : Permit) :
    p.Lent now i ((policy.check now i s p).2.1 == .probe) (policy.check now i s p).2.2 := by
  unfold check
  split
  · split
    · rcases happly : p.apply now i with ⟨granted, p'⟩
      cases granted with
      | true => exact .probe happly
      | false =>
        obtain ⟨-, rfl⟩ := Permit.apply_eq_refused_iff.mp happly
        exact .plain
    · exact .plain
  · exact .plain

namespace Monitor

/-- What a check leaves alone, apart from observing its server. -/
theorem check_rest (server : String) (i : Invocation) (m : Monitor) :
    (m.check server i).2.clock = m.clock ∧
      (m.check server i).2.tracker = (m.tracker.observe m.now server).2 ∧
      (m.check server i).2.window = m.window ∧ (m.check server i).2.policy = m.policy := by
  unfold check
  dsimp only
  split <;> exact ⟨rfl, rfl, rfl, rfl⟩

theorem lent_check (server : String) (i : Invocation) (m : Monitor) :
    m.permit.Lent m.now i ((m.check server i).1 == .probe) (m.check server i).2.permit := by
  have hcheck := m.policy.lent_check m.now i (m.statsFor server).1 m.permit
  unfold check
  dsimp only
  split <;> exact hcheck

end Monitor

end ServiceFinder
