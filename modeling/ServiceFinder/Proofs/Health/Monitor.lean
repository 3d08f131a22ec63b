/-
  ServiceFinder/Proofs/Health/Monitor.lean
  ========================================
  **What becomes of a server's statistics, whatever a monitor is asked.**

  `Request` lists all that a monitor can be asked, and a history of a monitor is a list of
  requests.  For one server a request does one of three things (`Fate`): it records
  an outcome, it forgets the server, or it leaves what is known of the server alone, apart
  from observing it for the first time.  Everything below goes through these three cases.
-/
import ServiceFinder.Node.Assembly
import ServiceFinder.Proofs.Health.Permit
import ServiceFinder.Proofs.Health.ServerStats
import ServiceFinder.Proofs.Health.Tracker

namespace ServiceFinder

namespace Monitor

/-! ### Histories -/

/-- What a monitor can be asked. -/
inductive Request where
  | setClock (now : Millis)
  | advanceClock (d : Millis)
  | apply (i : Invocation)
  | release
  | checkAndRelease (i : Invocation)
  | observe (server : String)
  | check (server : String) (i : Invocation)
  | mark (success : Bool) (server : String)
  | finish (server : String) (success : Bool) (i : Invocation)
  | retain (live : List String)
deriving DecidableEq, Repr

namespace Request

/-- The server that an outcome is recorded of. -/
def outcomeOf? : Request → Option String
  | mark _ server | finish server _ _ => some server
  | _ => none

/-- Whether a server is forgotten. -/
def drops (server : String) : Request → Bool
  | retain live => !live.contains server
  | _ => false

end Request

def perform (m : Monitor) : Request → Monitor
  | .setClock now => m.setClock now
  | .advanceClock d => m.advanceClock d
  | .apply i => (m.apply i).2
  | .release => m.release
  | .checkAndRelease i => (m.checkAndRelease i).2
  | .observe server => (m.statsFor server).2
  | .check server i => (m.check server i).2
  | .mark success server => m.mark success server
  | .finish server success i => m.finish server success i
  | .retain live => m.retain live

def performAll (m : Monitor) (qs : List Request) : Monitor := qs.foldl perform m

theorem performAll_append (m : Monitor) (qs qs' : List Request) :
    m.performAll (qs ++ qs') = (m.performAll qs).performAll qs' :=
  List.foldl_append

/-- How many outcomes of a server were recorded. -/
def outcomes (server : String) (qs : List Request) : Nat :=
  qs.countP (·.outcomeOf? == some server)

/-- Whether a server is isolated, by what is known of it. -/
def isolates (server : String) (m : Monitor) : Bool := (m.tracker.get? server).any m.isIsolated

/-! ### One request -/

variable {m : Monitor} {a : String} {s : ServerStats}

theorem settings_perform (m : Monitor) (q : Request) :
    (m.perform q).window = m.window ∧ (m.perform q).policy = m.policy := by
  cases q with
  | check server i =>
    obtain ⟨-, -, hwindow, hpolicy⟩ := m.check_rest server i
    exact ⟨hwindow, hpolicy⟩
  | _ => exact ⟨rfl, rfl⟩

theorem apart_perform (h : m.tracker.Apart) (q : Request) : (m.perform q).tracker.Apart := by
  cases q with
  | observe server => exact h.observe m.now server
  | check server i =>
    show (m.check server i).2.tracker.Apart
    rw [(m.check_rest server i).2.1]
    exact h.observe m.now server
  | mark success server => exact h.mark success m.window m.now server
  | finish server success i => exact h.mark success m.window m.now server
  | retain live => exact h.retain live
  | _ => exact h

/-- What a request makes of what is known of the server `a`. -/
inductive Fate (m : Monitor) (q : Request) (a : String) : Option ServerStats → Prop where
  | recorded (success : Bool) (h : q.outcomeOf? = some a) :
      Fate m q a (some (((m.tracker.get? a).getD (.startingAt m.now)).mark success m.window m.now))
  | dropped (h : q.outcomeOf? ≠ some a) (hdrops : q.drops a = true) : Fate m q a none
  | observed (h : q.outcomeOf? ≠ some a) (hdrops : q.drops a = false)
      (hnew : m.tracker.get? a = none) : Fate m q a (some (.startingAt m.now))
  | kept {known} (h : q.outcomeOf? ≠ some a) (hdrops : q.drops a = false)
      (hold : m.tracker.get? a = known) : Fate m q a known

theorem Fate.of_observe (h : m.tracker.Apart) {q : Request} (hout : q.outcomeOf? ≠ some a)
    (hdrops : q.drops a = false) (server : String) :
    Fate m q a ((m.tracker.observe m.now server).2.get? a) := by
  rw [h.get?_observe]
  split
  · rename_i ha
    subst ha
    cases hget : m.tracker.get? a with
    | none => exact .observed hout hdrops hget
    | some s =>
      exact .kept hout hdrops hget
  · exact .kept hout hdrops rfl

theorem Fate.of_mark (h : m.tracker.Apart) {q : Request} {server : String} (success : Bool)
    (hout : q.outcomeOf? = some server) (hdrops : q.drops a = false) :
    Fate m q a ((m.tracker.mark success m.window m.now server).get? a) := by
  rw [h.get?_mark]
  split
  · rename_i ha
    subst ha
    exact .recorded success hout
  · rename_i ha
    refine .kept ?_ hdrops rfl
    rw [hout]
    intro heq
    exact ha (Option.some.inj heq).symm

theorem fate_perform (h : m.tracker.Apart) (q : Request) (a : String) :
    Fate m q a ((m.perform q).tracker.get? a) := by
  cases q with
  | observe server => exact .of_observe h (by simp [Request.outcomeOf?]) rfl server
  | check server i =>
    show Fate m (.check server i) a ((m.check server i).2.tracker.get? a)
    rw [(m.check_rest server i).2.1]
    exact .of_observe h (by simp [Request.outcomeOf?]) rfl server
  | mark success server => exact .of_mark h success rfl rfl
  | finish server success i => exact .of_mark h success rfl rfl
  | retain live =>
    show Fate m (.retain live) a ((m.tracker.retain live).get? a)
    rw [Tracker.get?_retain]
    split
    · rename_i hlive
      refine .kept (by simp [Request.outcomeOf?]) ?_ rfl
      rw [Request.drops, hlive]
      rfl
    · rename_i hlive
      refine .dropped (by simp [Request.outcomeOf?]) ?_
      rw [Request.drops, Bool.eq_false_iff.mpr hlive]
      rfl
  | setClock | advanceClock | apply | release | checkAndRelease =>
    exact .kept (by simp [Request.outcomeOf?]) rfl rfl

/-! ### Whole histories -/

/-- A monitor with the settings of `c` that was asked `qs`. -/
structure Serves (c : Config) (qs : List Request) (m : Monitor) : Prop where
  window : m.window = c.statsWindow
  policy : m.policy = c.isolation
  apart : m.tracker.Apart
  tallied : ∀ {a s}, m.tracker.get? a = some s → s.Tallied (outcomes a qs)

variable {c : Config} {qs : List Request}

theorem serves_monitor (c : Config) (now : Millis) : Serves c [] (c.monitor now) where
  window := rfl
  policy := rfl
  apart := Tracker.apart_empty
  tallied h := by cases h

theorem outcomes_concat (a : String) (qs : List Request) (q : Request) :
    outcomes a (qs ++ [q]) = outcomes a qs + if q.outcomeOf? = some a then 1 else 0 := by
  simp [outcomes, List.countP_append, List.countP_cons]

theorem Serves.perform (h : Serves c qs m) (q : Request) : Serves c (qs ++ [q]) (m.perform q) where
  window := (m.settings_perform q).1.trans h.window
  policy := (m.settings_perform q).2.trans h.policy
  apart := apart_perform h.apart q
  tallied := by
    intro a s hs
    have fate := fate_perform h.apart q a
    rw [hs] at fate
    rw [outcomes_concat]
    cases fate with
    | recorded success hout =>
      rw [if_pos hout]
      cases hget : m.tracker.get? a with
      | none => exact (ServerStats.tallied_startingAt _ _).mark success m.window m.now
      | some s => exact (h.tallied hget).mark success m.window m.now
    | observed hout hdrops hnew => exact ServerStats.tallied_startingAt _ _
    | kept hout hdrops hold =>
      rw [if_neg hout]
      exact h.tallied hold

theorem Serves.performAll (h : Serves c qs m) (qs' : List Request) :
    Serves c (qs ++ qs') (m.performAll qs') := by
  induction qs' generalizing qs m with
  | nil =>
    rw [List.append_nil]
    exact h
  | cons q qs' ih =>
    have hrest := ih (h.perform q)
    rw [List.append_assoc] at hrest
    exact hrest

/-- Nothing is known of the server but when it was first observed. -/
def Fresh (a : String) (m : Monitor) : Prop :=
  ∀ s, m.tracker.get? a = some s → ∃ t, s = .startingAt t

theorem Fresh.perform (h : m.Fresh a) (hm : m.tracker.Apart) {q : Request}
    (hq : q.outcomeOf? ≠ some a) : (m.perform q).Fresh a := by
  intro s hs
  have fate := fate_perform hm q a
  rw [hs] at fate
  cases fate with
  | recorded success hout => exact absurd hout hq
  | observed => exact ⟨m.now, rfl⟩
  | kept _ _ hold => exact h s hold

theorem Fresh.performAll (h : m.Fresh a) (hm : m.tracker.Apart)
    (hqs : ∀ q ∈ qs, q.outcomeOf? ≠ some a) : (m.performAll qs).Fresh a := by
  induction qs generalizing m with
  | nil => exact h
  | cons q qs ih =>
    have hq := hqs q List.mem_cons_self
    have hrest : ∀ q ∈ qs, q.outcomeOf? ≠ some a := fun q hq => hqs q (List.mem_cons_of_mem _ hq)
    exact ih (h.perform hm hq) (apart_perform hm q) hrest

/-- **While no outcome of a server is recorded, its statistics stay as they are, until the
    server is forgotten and starts over.** -/
theorem kept_or_fresh (hm : m.tracker.Apart) (hs : m.tracker.get? a = some s)
    (hqs : ∀ q ∈ qs, q.outcomeOf? ≠ some a) :
    (∀ q ∈ qs, q.drops a = false) ∧ (m.performAll qs).tracker.get? a = some s ∨
      (¬ ∀ q ∈ qs, q.drops a = false) ∧ (m.performAll qs).Fresh a := by
  induction qs generalizing m with
  | nil => exact .inl ⟨fun q hq => absurd hq List.not_mem_nil, hs⟩
  | cons q qs ih =>
    have hq := hqs q List.mem_cons_self
    have hrest : ∀ q ∈ qs, q.outcomeOf? ≠ some a := fun q hq => hqs q (List.mem_cons_of_mem _ hq)
    have hm' := apart_perform hm q
    have fate := fate_perform hm q a
    simp only [List.forall_mem_cons]
    generalize hget : (m.perform q).tracker.get? a = got at fate
    cases fate with
    | recorded success hout => exact absurd hout hq
    | dropped _ hdrops =>
      -- from here on the server has no statistics but those it is observed with
      have hfresh : (m.perform q).Fresh a := by
        intro s hs
        rw [hget] at hs
        cases hs
      refine .inr ⟨?_, hfresh.performAll hm' hrest⟩
      intro hnone
      rw [hdrops] at hnone
      cases hnone.1
    | observed _ _ hnew =>
      rw [hs] at hnew
      cases hnew
    | kept _ hdrops hold =>
      rcases ih hm' (hget.trans (hold.symm.trans hs)) hrest with ⟨hnone, hkept⟩ | ⟨hsome, hfresh⟩
      · exact .inl ⟨⟨hdrops, hnone⟩, hkept⟩
      · refine .inr ⟨?_, hfresh⟩
        intro hnone
        exact hsome hnone.2

end Monitor

end ServiceFinder
