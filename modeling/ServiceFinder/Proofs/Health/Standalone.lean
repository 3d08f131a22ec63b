/-
  ServiceFinder/Proofs/Health/Standalone.lean
  ===========================================
  **Every server's statistics are its own.**

  A tracker holds the statistics of all servers, makes them when a server is first named and
  forgets them when it is not among those to retain.  Seen from one server, each request is one
  step of a small machine (`feed`) that knows nothing of the others, and the tracker is the
  product of these machines.  Run over a whole history, the machine is what the statistics are
  said to be: made at the first request that names the server since it was last forgotten, and
  fed the outcomes reported of it since (`standalone`).
-/
import Mathlib.Data.List.DropRight
import ServiceFinder.Proofs.Health.Monitor

namespace ServiceFinder

namespace Monitor

/-! ### Requests as one server sees them -/

namespace Request

/-- The server that a request names. -/
def server? : Request → Option String
  | observe server | check server _ | mark _ server | finish server _ _ => some server
  | _ => none

/-- The outcome that a request reports. -/
def success? : Request → Option Bool
  | mark success _ | finish _ success _ => some success
  | _ => none

/-- The clock after a request. -/
def tick (c : Clock) : Request → Clock
  | setClock now => c.set now
  | advanceClock d => c.advance d
  | _ => c

end Request

/-- Each request with the time at which it is served. -/
def timed (c : Clock) : List Request → List (Millis × Request)
  | [] => []
  | q :: qs => (c.now, q) :: timed (q.tick c) qs

/-- What a request makes of the statistics of the server `a`, served at its time. -/
def feed (width : Millis) (a : String) (known : Option ServerStats)
    (entry : Millis × Request) : Option ServerStats :=
  if entry.2.drops a then none
  else if entry.2.server? = some a then
    let s := known.getD (.startingAt entry.1)
    some ((entry.2.success?.map (s.mark · width entry.1)).getD s)
  else known

/-- What a log holds from the last time on that the server was forgotten. -/
def sinceForgotten (a : String) (log : List (Millis × Request)) : List (Millis × Request) :=
  log.rtakeWhile fun entry => !entry.2.drops a

/-- The part of a log that names the server. -/
def naming (a : String) (log : List (Millis × Request)) : List (Millis × Request) :=
  log.filter fun entry => entry.2.server? = some a

/-- The outcomes that a log reports, with their times. -/
def reported (log : List (Millis × Request)) : List (Millis × Bool) :=
  log.filterMap fun entry => entry.2.success?.map ((entry.1, ·))

/-- Statistics that are made at the first request of a log that names the server, and fed the
    outcomes that the log reports of it. -/
def standalone (width : Millis) (a : String) (log : List (Millis × Request)) :
    Option ServerStats :=
  (naming a log).head?.map fun first =>
    (reported (naming a log)).foldl (fun s outcome => s.mark outcome.2 width outcome.1)
      (.startingAt first.1)

/-! ### One request -/

variable {m : Monitor} {a server : String} {q : Request}

theorem clock_eq_tick (m : Monitor) (q : Request) : (m.perform q).clock = q.tick m.clock := by
  cases q with
  | check server i => exact (m.check_rest server i).1
  | _ => rfl

theorem get?_observe_eq_feed (h : m.tracker.Apart) (a : String) (hdrops : q.drops a = false)
    (hserver : q.server? = some server) (hsuccess : q.success? = none) :
    (m.tracker.observe m.now server).2.get? a =
      feed m.window a (m.tracker.get? a) (m.now, q) := by
  rw [h.get?_observe, feed, hdrops, hserver, hsuccess]
  by_cases ha : a = server
  · subst ha
    simp
  · have hne : some server ≠ some a := fun heq => ha (Option.some.inj heq).symm
    simp [ha, hne]

theorem get?_mark_eq_feed (h : m.tracker.Apart) (a : String) {success : Bool}
    (hdrops : q.drops a = false) (hserver : q.server? = some server)
    (hsuccess : q.success? = some success) :
    (m.tracker.mark success m.window m.now server).get? a =
      feed m.window a (m.tracker.get? a) (m.now, q) := by
  rw [h.get?_mark, feed, hdrops, hserver, hsuccess]
  by_cases ha : a = server
  · subst ha
    simp
  · have hne : some server ≠ some a := fun heq => ha (Option.some.inj heq).symm
    simp [ha, hne]

/-- One request is one step for every server. -/
theorem get?_perform (h : m.tracker.Apart) (q : Request) (a : String) :
    (m.perform q).tracker.get? a = feed m.window a (m.tracker.get? a) (m.now, q) := by
  cases q with
  | observe server => exact get?_observe_eq_feed h a rfl rfl rfl
  | check server i =>
    show (m.check server i).2.tracker.get? a = _
    rw [(m.check_rest server i).2.1]
    exact get?_observe_eq_feed h a rfl rfl rfl
  | mark success server => exact get?_mark_eq_feed h a rfl rfl rfl
  | finish server success i => exact get?_mark_eq_feed h a rfl rfl rfl
  | retain live =>
    show (m.tracker.retain live).get? a = _
    rw [Tracker.get?_retain]
    cases hlive : live.contains a <;>
      simp [feed, Request.drops, Request.server?, -List.contains_eq_mem, hlive]
  | setClock | advanceClock | apply | release | checkAndRelease => rfl

/-- A request that names another server, or retains this one, does not touch its record. -/
theorem recordOf?_perform (m : Monitor) (hserver : q.server? ≠ some a)
    (hdrops : q.drops a = false) :
    (m.perform q).tracker.recordOf? a = m.tracker.recordOf? a := by
  have hobserve {server : String} (hne : some server ≠ some a) :
      (m.tracker.observe m.now server).2.recordOf? a = m.tracker.recordOf? a := by
    rw [Tracker.recordOf?_observe, if_neg]
    intro heq
    exact hne (congrArg some heq.symm)
  cases q with
  | observe server => exact hobserve hserver
  | check server i =>
    show (m.check server i).2.tracker.recordOf? a = _
    rw [(m.check_rest server i).2.1]
    exact hobserve hserver
  | mark success server => exact hobserve hserver
  | finish server success i => exact hobserve hserver
  | retain live =>
    show (m.tracker.retain live).recordOf? a = _
    have hlive : live.contains a = true := by
      rw [← Bool.not_eq_false']
      exact hdrops
    rw [Tracker.recordOf?_retain, if_pos hlive]
  | setClock | advanceClock | apply | release | checkAndRelease => rfl

theorem feed_of_ne {width now : Millis} {known : Option ServerStats}
    (hserver : q.server? ≠ some a) (hdrops : q.drops a = false) :
    feed width a known (now, q) = known := by
  rw [feed, hdrops, if_neg hserver]
  rfl

/-! ### Whole histories -/

/-- What is known of a server is a run of its own machine. -/
theorem get?_performAll (h : m.tracker.Apart) (qs : List Request) (a : String) :
    (m.performAll qs).tracker.get? a =
      (timed m.clock qs).foldl (feed m.window a) (m.tracker.get? a) := by
  induction qs generalizing m with
  | nil => rfl
  | cons q qs ih =>
    have hrest := ih (apart_perform h q)
    rw [clock_eq_tick, (m.settings_perform q).1, get?_perform h] at hrest
    exact hrest

theorem naming_concat (a : String) (log : List (Millis × Request)) (now : Millis)
    (q : Request) :
    naming a (log ++ [(now, q)]) =
      if q.server? = some a then naming a log ++ [(now, q)] else naming a log := by
  rw [naming, List.filter_append]
  split <;> simp [naming, *]

theorem reported_concat (log : List (Millis × Request)) (now : Millis) (q : Request) :
    reported (log ++ [(now, q)]) = reported log ++ (q.success?.map ((now, ·))).toList := by
  rw [reported, List.filterMap_append]
  cases hq : q.success? <;> simp [reported, hq]

theorem standalone_concat (width : Millis) (a : String) (log : List (Millis × Request))
    (now : Millis) (hdrops : q.drops a = false) :
    standalone width a (log ++ [(now, q)]) =
      feed width a (standalone width a log) (now, q) := by
  rw [feed, hdrops, standalone, standalone, naming_concat]
  by_cases hserver : q.server? = some a
  · rw [if_pos hserver, if_pos hserver, reported_concat]
    -- either the request is the first that names its server, or one more
    cases naming a log with
    | nil => cases q.success? <;> rfl
    | cons first own => cases q.success? <;> simp
  · rw [if_neg hserver, if_neg hserver]
    rfl

/-- Whatever came before the server was last forgotten does not matter to its machine. -/
theorem foldl_feed (width : Millis) (a : String) (log : List (Millis × Request)) :
    log.foldl (feed width a) none = standalone width a (sinceForgotten a log) := by
  induction log using List.reverseRecOn with
  | nil => rfl
  | append_singleton log entry ih =>
    obtain ⟨now, q⟩ := entry
    rw [List.foldl_concat, ih, sinceForgotten, sinceForgotten, List.rtakeWhile_concat]
    cases hdrops : q.drops a with
    | true =>
      rw [feed, hdrops]
      rfl
    | false => exact (standalone_concat width a _ now hdrops).symm

/-- **The statistics of a server are those of a machine of its own**, whatever the tracker is
    asked: made at the time of the first request that names the server since it was last
    forgotten, and fed the outcomes reported of it since, each at its time.  Asking for them
    gives the same.  Requests that name other servers, or retain this one, leave its record and
    what the record says as they are. -/
theorem statistics_are_standalone (c : Config) (now : Millis) (qs : List Request) (a : String) :
    let m := (c.monitor now).performAll qs
    m.tracker.get? a = standalone c.statsWindow a (sinceForgotten a (timed ⟨now⟩ qs)) ∧
      some (m.statsFor a).1 =
        standalone c.statsWindow a (sinceForgotten a (timed ⟨now⟩ (qs ++ [.observe a]))) ∧
      ∀ q : Request, q.server? ≠ some a → q.drops a = false →
        (m.perform q).tracker.recordOf? a = m.tracker.recordOf? a ∧
          (m.perform q).tracker.get? a = m.tracker.get? a := by
  intro m
  have hget (qs : List Request) : ((c.monitor now).performAll qs).tracker.get? a =
      standalone c.statsWindow a (sinceForgotten a (timed ⟨now⟩ qs)) := by
    rw [get?_performAll Tracker.apart_empty]
    exact foldl_feed c.statsWindow a _
  have hapart : m.tracker.Apart := ((serves_monitor c now).performAll qs).apart
  refine ⟨hget qs, ?_, ?_⟩
  · have hobserved : (m.perform (.observe a)).tracker.get? a = some (m.statsFor a).1 := by
      refine (hapart.get?_observe m.now a a).trans ?_
      rw [if_pos rfl, ← hapart.statsFor_fst]
      rfl
    rw [← hget, performAll_append]
    exact hobserved.symm
  · intro q hserver hdrops
    refine ⟨m.recordOf?_perform hserver hdrops, ?_⟩
    rw [get?_perform hapart, feed_of_ne hserver hdrops]

/-- A server that was forgotten starts over when it comes back, and another server's outcome
    does not count. -/
theorem statistics_start_over :
    let m := (({} : Config).monitor 0).performAll
      [.mark false "a", .retain ["b"], .advanceClock 7, .observe "b", .mark false "a"]
    (m.perform (.mark true "b")).tracker.get? "a" =
      some { total := 1, failed := 1, continuous := 1,
             windowStart := 7, lastVisit := 7, lastActive := 7 } := by
  intro m
  obtain ⟨hget, -, hother⟩ := statistics_are_standalone {} 0
    [.mark false "a", .retain ["b"], .advanceClock 7, .observe "b", .mark false "a"] "a"
  exact ((hother (.mark true "b") (by decide) (by decide)).2.trans hget).trans (by decide)

end Monitor

end ServiceFinder
