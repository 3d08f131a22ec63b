/-
  ServiceFinder/Proofs/Health/Times.lean
  ======================================
  **The times that a monitor has on record.**

  The settings of a monitor stay as they are, and so does the time that a permit lasts.  While
  the clock does not go back, no time on record lies in the future: whatever is stamped is
  stamped with the time at hand.
-/
import ServiceFinder.Proofs.Health.Monitor

namespace ServiceFinder

/-! ### Statistics and permits -/

theorem ServerStats.lastVisit_mark (s : ServerStats) (success : Bool) (width now : Millis) :
    (s.mark success width now).lastVisit = max s.lastVisit now := by
  have hrolled : (s.rolled width now).lastVisit = s.lastVisit := by
    unfold rolled
    split <;> rfl
  cases success <;> exact congrArg (max · now) hrolled

/-- `p'` is `p`, perhaps given back or granted at `now`. -/
structure Permit.Later (now : Millis) (p p' : Permit) : Prop where
  ttl : p'.ttl = p.ttl
  token : ∀ t, p'.token = some t → p.token = some t ∨ t.grantedAt = now ∧ t.ttl = p.ttl

namespace Permit

variable {p p' : Permit} {now : Millis}

theorem Later.refl (now : Millis) (p : Permit) : p.Later now p := ⟨rfl, fun _ => .inl⟩

theorem later_apply (p : Permit) (now : Millis) (i : Invocation) :
    p.Later now (p.apply now i).2 := by
  unfold apply
  split
  · refine ⟨rfl, ?_⟩
    intro t ht
    cases ht
    exact .inr ⟨rfl, rfl⟩
  · exact .refl now p

theorem later_checkAndRelease (p : Permit) (now : Millis) (i : Invocation) :
    p.Later now (p.checkAndRelease i).2 := by
  rw [checkAndRelease_snd]
  exact ⟨rfl, fun t ht => .inl (Option.filter_eq_some_iff.mp ht).1⟩

theorem Lent.later {i : Invocation} {probe : Bool} (h : p.Lent now i probe p') :
    p.Later now p' := by
  cases h with
  | probe happly =>
    have hlater := p.later_apply now i
    rwa [happly] at hlater
  | plain => exact .refl now p

end Permit

namespace Monitor

variable {c : Config} {m : Monitor} {q : Request}

theorem later_perform (m : Monitor) (q : Request) :
    m.permit.Later m.now (m.perform q).permit := by
  cases q with
  | apply i => exact m.permit.later_apply m.now i
  | check server i => exact (m.lent_check server i).later
  | checkAndRelease i => exact m.permit.later_checkAndRelease m.now i
  | finish server success i => exact m.permit.later_checkAndRelease m.now i
  | release => exact ⟨rfl, nofun⟩
  | _ => exact .refl _ _

/-! ### Settings -/

/-- A monitor with the settings of `c`. -/
structure Obeys (c : Config) (m : Monitor) : Prop where
  policy : m.policy = c.isolation
  ttl : m.permit.ttl = c.permitTtl
  lasts : ∀ t, m.permit.token = some t → t.ttl = c.permitTtl
  apart : m.tracker.Apart

theorem obeys_monitor (c : Config) (now : Millis) : Obeys c (c.monitor now) where
  policy := rfl
  ttl := rfl
  lasts := nofun
  apart := Tracker.apart_empty

theorem Obeys.perform (h : Obeys c m) (q : Request) : Obeys c (m.perform q) where
  policy := (m.settings_perform q).2.trans h.policy
  ttl := (m.later_perform q).ttl.trans h.ttl
  lasts := by
    intro t ht
    rcases (m.later_perform q).token t ht with hold | ⟨-, hnew⟩
    · exact h.lasts t hold
    · exact hnew.trans h.ttl
  apart := apart_perform h.apart q

/-! ### Times -/

/-- No time on record lies in the future. -/
structure Past (m : Monitor) : Prop where
  granted : ∀ t, m.permit.token = some t → t.grantedAt ≤ m.now
  visited : ∀ {a s}, m.tracker.get? a = some s → s.lastVisit ≤ m.now

theorem past_monitor (c : Config) (now : Millis) : Past (c.monitor now) where
  granted := nofun
  visited h := by cases h

theorem Past.perform (h : m.Past) (apart : m.tracker.Apart)
    (forward : m.now ≤ (m.perform q).now) : (m.perform q).Past where
  granted := by
    intro t ht
    rcases (m.later_perform q).token t ht with hold | ⟨hnew, -⟩
    · exact UInt64.le_trans (h.granted t hold) forward
    · rw [hnew]
      exact forward
  visited := by
    intro a s hs
    have fate := fate_perform apart q a
    rw [hs] at fate
    refine UInt64.le_trans ?_ forward
    cases fate with
    | recorded success hout =>
      have hvisited : ((m.tracker.get? a).getD (.startingAt m.now)).lastVisit ≤ m.now := by
        cases hget : m.tracker.get? a with
        | none => exact UInt64.le_refl _
        | some s => exact h.visited hget
      rw [ServerStats.lastVisit_mark, UInt64.le_iff_toNat_le, UInt64.toNat_max]
      exact Nat.max_le.mpr ⟨UInt64.le_iff_toNat_le.mp hvisited, Nat.le_refl _⟩
    | observed => exact UInt64.le_refl _
    | kept _ _ hold => exact h.visited hold

end Monitor

end ServiceFinder
