/-
  ServiceFinder/Proofs/Health/Windows.lean
  ========================================
  **The statistics of a server, read off the row of its outcomes.**

  The outcomes of a server fall into windows.  The first window begins when the server is first
  heard of; each later one is begun by the first outcome that comes more than the width after
  the beginning of the window before it.  There is one way to split a row of outcomes like this
  (`Windows.unique`), and the statistics are what the last window tells: when it began, how many
  outcomes it holds, how many failures, and how many failures at its end.  The two times that
  are kept beside the counts do not care for windows.
-/
import Mathlib.Data.List.DropRight
import ServiceFinder.Proofs.Health.Times

namespace ServiceFinder

namespace ServerStats

/-! ### Outcomes and clock moves -/

/-- What may happen: an outcome of the server, or a change of the clock. -/
inductive Event where
  | mark (success : Bool)
  | setClock (now : Millis)
  | advanceClock (d : Millis)
deriving DecidableEq, Repr

/-- The clock after an event. -/
def Event.tick (c : Clock) : Event → Clock
  | mark _ => c
  | setClock now => c.set now
  | advanceClock d => c.advance d

/-- The statistics after an event. -/
def Event.feed (width : Millis) (c : Clock) (s : ServerStats) : Event → ServerStats
  | mark success => s.mark success width c.now
  | _ => s

/-- The statistics after a row of events, the first of them at the clock `c`. -/
def run (width : Millis) : Clock → ServerStats → List Event → ServerStats
  | _, s, [] => s
  | c, s, e :: es => run width (e.tick c) (e.feed width c s) es

/-- No event sets the clock back. -/
def Forward : Clock → List Event → Prop
  | _, [] => True
  | c, e :: es => c.now ≤ (e.tick c).now ∧ Forward (e.tick c) es

instance : ∀ (c : Clock) (es : List Event), Decidable (Forward c es)
  | _, [] => inferInstanceAs (Decidable True)
  | c, e :: es =>
    have := instDecidableForward (e.tick c) es
    inferInstanceAs (Decidable (c.now ≤ (e.tick c).now ∧ Forward (e.tick c) es))

/-- An outcome and its time. -/
structure Mark where
  time : Millis
  success : Bool
deriving DecidableEq, Repr

def Mark.failure (m : Mark) : Bool := !m.success

@[simp] theorem Mark.failure_eq (m : Mark) : m.failure = !m.success := rfl

def Mark.isBy (time : Nat) (m : Mark) : Bool := m.time.toNat ≤ time

/-- The outcomes of a row of events, in order. -/
def marks : Clock → List Event → List Mark
  | _, [] => []
  | c, .mark success :: es => ⟨c.now, success⟩ :: marks c es
  | c, e :: es => marks (e.tick c) es

/-- The statistics that a row of outcomes makes of a server first heard of at `t₀`. -/
def tally (width t₀ : Millis) (ms : List Mark) : ServerStats :=
  ms.foldl (fun s m => s.mark m.success width m.time) (startingAt t₀)

variable {width t₀ : Millis} {c : Clock} {s : ServerStats} {m : Mark} {ms : List Mark}

theorem run_eq_foldl (width : Millis) (c : Clock) (s : ServerStats) (es : List Event) :
    run width c s es = (marks c es).foldl (fun s m => s.mark m.success width m.time) s := by
  induction es generalizing c s with
  | nil => rfl
  | cons e es ih => cases e <;> exact ih _ _

theorem tally_concat (width t₀ : Millis) (ms : List Mark) (m : Mark) :
    tally width t₀ (ms ++ [m]) = (tally width t₀ ms).mark m.success width m.time := by
  simp [tally]

/-- The outcomes come in the order of their times, none before `t₀`. -/
structure InOrder (t₀ : Millis) (ms : List Mark) : Prop where
  since : ∀ m ∈ ms, t₀.toNat ≤ m.time.toNat
  sorted : ms.Pairwise fun m m' => m.time.toNat ≤ m'.time.toNat

theorem Forward.inOrder {es : List Event} (h : Forward c es) : InOrder c.now (marks c es) := by
  induction es generalizing c with
  | nil => exact ⟨by simp [marks], by simp [marks]⟩
  | cons e es ih =>
    have hrest := ih h.2
    have hclock : c.now.toNat ≤ (e.tick c).now.toNat := UInt64.le_iff_toNat_le.mp h.1
    cases e with
    | mark success =>
      refine ⟨?_, List.pairwise_cons.mpr ⟨hrest.since, hrest.sorted⟩⟩
      intro m hm
      rcases List.mem_cons.mp hm with rfl | hm
      · exact Nat.le_refl _
      · exact hrest.since m hm
    | setClock | advanceClock =>
      exact ⟨fun m hm => Nat.le_trans hclock (hrest.since m hm), hrest.sorted⟩

theorem inOrder_concat :
    InOrder t₀ (ms ++ [m]) ↔ InOrder t₀ ms ∧ t₀.toNat ≤ m.time.toNat ∧
      ∀ a ∈ ms, a.time.toNat ≤ m.time.toNat := by
  constructor
  · intro h
    obtain ⟨hsorted, -, hlast⟩ := List.pairwise_append.mp h.sorted
    exact ⟨⟨fun a ha => h.since a (by simp [ha]), hsorted⟩, h.since m (by simp),
      fun a ha => hlast a ha m (by simp)⟩
  · rintro ⟨h, hfirst, hlast⟩
    constructor
    · intro a ha
      rcases List.mem_append.mp ha with ha | ha
      · exact h.since a ha
      · rwa [List.mem_singleton.mp ha]
    · simpa [List.pairwise_append, h.sorted] using hlast

/-! ### Windows -/

/-- A stretch of time and the outcomes counted in it. -/
structure Window where
  start : Millis
  marks : List Mark
deriving DecidableEq, Repr

/-- A window takes outcomes from its start to its width later, both ends included. -/
def Window.Covers (width : Millis) (w : Window) (m : Mark) : Prop :=
  w.start.toNat ≤ m.time.toNat ∧ m.time.toNat ≤ w.start.toNat + width.toNat

instance (width : Millis) (w : Window) (m : Mark) : Decidable (w.Covers width m) :=
  inferInstanceAs (Decidable (_ ∧ _))

/-- The outcomes `ms` of a server first heard of at `t₀`, split into windows. -/
structure Windows (width t₀ : Millis) (ms : List Mark) (ws : List Window) : Prop where
  /-- Each outcome is in one window, and in one only. -/
  whole : ws.flatMap Window.marks = ms
  first : ws.head?.map Window.start = some t₀
  /-- A later window is begun by an outcome, which it counts. -/
  begun : ∀ w ∈ ws.tail, w.marks.head?.map Mark.time = some w.start
  covered : ∀ w ∈ ws, ∀ m ∈ w.marks, w.Covers width m
  /-- A window begins when the one before it has run out. -/
  apart : ws.Pairwise fun w w' => w.start.toNat + width.toNat < w'.start.toNat

namespace Windows

variable {w : Window} {ws ws' : List Window}

theorem of_nil (width t₀ : Millis) : Windows width t₀ [] [⟨t₀, []⟩] where
  whole := by simp
  first := by simp
  begun := by simp
  covered := by simp
  apart := by simp

/-- An outcome that the last window covers goes into it. -/
theorem extend (h : Windows width t₀ ms (ws ++ [w])) (hm : w.Covers width m) :
    Windows width t₀ (ms ++ [m]) (ws ++ [{ w with marks := w.marks ++ [m] }]) where
  whole := by
    rw [← h.whole]
    simp
  first := by
    have hfirst := h.first
    cases ws with
    | nil => simpa using hfirst
    | cons w₀ ws => simpa using hfirst
  begun := by
    intro v hv
    have hbegun := h.begun
    cases ws with
    | nil => simp at hv
    | cons w₀ ws =>
      simp only [List.cons_append, List.tail_cons, List.mem_append, List.mem_singleton] at hv hbegun
      rcases hv with hv | rfl
      · exact hbegun v (.inl hv)
      · have hlast := hbegun w (.inr rfl)
        cases hmarks : w.marks with
        | nil => simp [hmarks] at hlast
        | cons a as => simpa [hmarks] using hlast
  covered := by
    intro v hv a ha
    rcases List.mem_append.mp hv with hv | hv
    · exact h.covered v (by simp [hv]) a ha
    · cases List.mem_singleton.mp hv
      rcases List.mem_append.mp ha with ha | ha
      · exact h.covered w (by simp) a ha
      · rwa [List.mem_singleton.mp ha]
  apart := by
    have hapart := h.apart
    simp only [List.pairwise_append, List.pairwise_cons, List.mem_singleton] at hapart ⊢
    exact ⟨hapart.1, by simp, fun v hv _ heq => heq ▸ hapart.2.2 v hv w rfl⟩

/-- A later outcome begins a window. -/
theorem next (h : Windows width t₀ ms (ws ++ [w]))
    (late : w.start.toNat + width.toNat < m.time.toNat) :
    Windows width t₀ (ms ++ [m]) (ws ++ [w] ++ [⟨m.time, [m]⟩]) where
  whole := by
    rw [← h.whole]
    simp
  first := by
    have hfirst := h.first
    cases ws with
    | nil => simpa using hfirst
    | cons w₀ ws => simpa using hfirst
  begun := by
    intro v hv
    rw [List.tail_append_of_ne_nil (by simp)] at hv
    rcases List.mem_append.mp hv with hv | hv
    · exact h.begun v hv
    · cases List.mem_singleton.mp hv
      simp
  covered := by
    intro v hv a ha
    rcases List.mem_append.mp hv with hv | hv
    · exact h.covered v hv a ha
    · cases List.mem_singleton.mp hv
      cases List.mem_singleton.mp ha
      exact ⟨Nat.le_refl _, Nat.le_add_right _ _⟩
  apart := by
    refine List.pairwise_append.mpr ⟨h.apart, by simp, ?_⟩
    intro v hv v' hv'
    cases List.mem_singleton.mp hv'
    -- whatever has run out before `w` began has run out now
    rcases List.mem_append.mp hv with hv | hv
    · have hbefore := (List.pairwise_append.mp h.apart).2.2 v hv w (by simp)
      show v.start.toNat + width.toNat < m.time.toNat
      omega
    · rwa [List.mem_singleton.mp hv]

/-- The first window holds the outcomes up to its end; the windows after it, if there are any,
    are the windows of the outcomes left over. -/
theorem cons (h : Windows width t₀ ms (w :: ws)) :
    w = ⟨t₀, ms.takeWhile (·.isBy (t₀.toNat + width.toNat))⟩ ∧
      match ms.dropWhile (·.isBy (t₀.toNat + width.toNat)) with
      | [] => ws = []
      | m :: rest => Windows width m.time (m :: rest) ws := by
  obtain ⟨rfl, first, begun, covered, apart⟩ := h
  have hstart : w.start = t₀ := by simpa using first
  have hheld : ∀ m ∈ w.marks, m.isBy (t₀.toNat + width.toNat) = true := by
    intro m hm
    have hcovered := (covered w (by simp) m hm).2
    rw [hstart] at hcovered
    exact decide_eq_true hcovered
  rw [List.flatMap_cons, List.takeWhile_append_of_pos hheld, List.dropWhile_append_of_pos hheld]
  cases ws with
  | nil => simp [← hstart]
  | cons w' ws =>
    obtain ⟨hlate, hapart⟩ := List.pairwise_cons.mp apart
    obtain ⟨m, hhead, htime⟩ := Option.map_eq_some_iff.mp (begun w' (by simp))
    obtain ⟨rest, hmarks⟩ := List.head?_eq_some_iff.mp hhead
    have hm : ¬ m.isBy (t₀.toNat + width.toNat) = true := by
      have hafter := hlate w' (by simp)
      rw [hstart, ← htime] at hafter
      simpa [Mark.isBy] using hafter
    have hrest : (w' :: ws).flatMap Window.marks = m :: (rest ++ ws.flatMap Window.marks) := by
      simp [hmarks]
    rw [hrest, List.takeWhile_cons_of_neg hm, List.dropWhile_cons_of_neg hm, List.append_nil]
    refine ⟨by rw [← hstart], hrest, by simp [htime], ?_, ?_, hapart⟩
    · intro v hv
      exact begun v (List.mem_cons_of_mem w' hv)
    · intro v hv
      exact covered v (List.mem_cons_of_mem w hv)

/-- **There is one way to split outcomes into windows.** -/
theorem unique (h : Windows width t₀ ms ws) (h' : Windows width t₀ ms ws') : ws = ws' := by
  induction ws generalizing t₀ ms ws' with
  | nil => simpa using h.first
  | cons w ws ih =>
    cases ws' with
    | nil => simpa using h'.first
    | cons w' ws' =>
      obtain ⟨hw, hrest⟩ := h.cons
      obtain ⟨hw', hrest'⟩ := h'.cons
      rw [hw, hw']
      split at hrest
      · rename_i hdrop
        rw [hdrop] at hrest'
        rw [hrest, hrest']
      · rename_i hdrop
        rw [hdrop] at hrest'
        rw [ih hrest hrest']

/-- The last window holds the outcomes since it began. -/
theorem marks_last (h : Windows width t₀ ms (ws ++ [w])) :
    w.marks = ms.filter fun m => w.start.toNat ≤ m.time.toNat := by
  have hbefore : ∀ m ∈ ws.flatMap Window.marks, ¬ w.start.toNat ≤ m.time.toNat := by
    intro m hm
    obtain ⟨v, hv, hm⟩ := List.mem_flatMap.mp hm
    have hcovered := h.covered v (by simp [hv]) m hm
    have hlate := (List.pairwise_append.mp h.apart).2.2 v hv w (by simp)
    have hend := hcovered.2
    omega
  have hsince : ∀ m ∈ w.marks, w.start.toNat ≤ m.time.toNat :=
    fun m hm => (h.covered w (by simp) m hm).1
  rw [← h.whole, List.flatMap_append, List.filter_append,
    List.filter_eq_nil_iff.mpr (by simpa using hbefore)]
  symm
  simpa using hsince

/-- The last window began when the server was first heard of, or with an outcome. -/
theorem start_last (h : Windows width t₀ ms (ws ++ [w])) :
    w.start = t₀ ∨ ∃ m ∈ ms, m.time = w.start := by
  cases ws with
  | nil => exact .inl (by simpa using h.first)
  | cons w₀ ws =>
    obtain ⟨m, hm, htime⟩ := Option.map_eq_some_iff.mp (h.begun w (by simp))
    refine .inr ⟨m, ?_, htime⟩
    rw [← h.whole]
    exact List.mem_flatMap.mpr ⟨w, by simp, List.mem_of_head? hm⟩

end Windows

/-! ### One more outcome -/

/-- The counters of a window: its outcomes, its failures, and the failures at its end.  They come
    round at 2⁶⁴. -/
structure Counts (ms : List Mark) (s : ServerStats) : Prop where
  total : s.total = UInt64.ofNat ms.length
  failed : s.failed = UInt64.ofNat (ms.countP Mark.failure)
  continuous : s.continuous = UInt64.ofNat (ms.rtakeWhile Mark.failure).length

theorem Counts.mark {ms : List Mark} (h : Counts ms s) (m : Mark)
    (within : elapsed s.windowStart m.time ≤ width) :
    Counts (ms ++ [m]) (s.mark m.success width m.time) := by
  obtain ⟨time, success⟩ := m
  have hrolled := rolled_of_le within
  cases success with
  | true =>
    refine ⟨?_, ?_, ?_⟩
    · simp [ServerStats.mark, markSuccess, hrolled, h.total, UInt64.ofNat_add]
    · simp [ServerStats.mark, markSuccess, hrolled, h.failed]
    · simp [ServerStats.mark, markSuccess]
  | false =>
    refine ⟨?_, ?_, ?_⟩
    · simp [ServerStats.mark, markFailure, hrolled, h.total, UInt64.ofNat_add]
    · simp [ServerStats.mark, markFailure, hrolled, h.failed, UInt64.ofNat_add]
    · simp [ServerStats.mark, markFailure, hrolled, h.continuous, UInt64.ofNat_add]

/-- As long as the counters have not come round, they are ordered. -/
theorem Counts.toNat {ms : List Mark} (h : Counts ms s) (few : ms.length < UInt64.size) :
    s.total.toNat = ms.length ∧ s.failed.toNat = ms.countP Mark.failure ∧
      s.continuous.toNat = (ms.rtakeWhile Mark.failure).length ∧
      s.continuous ≤ s.failed ∧ s.failed ≤ s.total := by
  have hfailed : ms.countP Mark.failure ≤ ms.length := List.countP_le_length
  have hcontinuous : (ms.rtakeWhile Mark.failure).length ≤ ms.countP Mark.failure := by
    have hall : (ms.rtakeWhile Mark.failure).countP Mark.failure =
        (ms.rtakeWhile Mark.failure).length :=
      List.countP_eq_length.mpr fun _ hm => List.mem_rtakeWhile_imp hm
    rw [← hall]
    exact (List.rtakeWhile_suffix Mark.failure ms).sublist.countP_le
  have htotal' : s.total.toNat = ms.length := by
    rw [h.total, UInt64.toNat_ofNat_of_lt' few]
  have hfailed' : s.failed.toNat = ms.countP Mark.failure := by
    rw [h.failed, UInt64.toNat_ofNat_of_lt' (Nat.lt_of_le_of_lt hfailed few)]
  have hcontinuous' : s.continuous.toNat = (ms.rtakeWhile Mark.failure).length := by
    rw [h.continuous, UInt64.toNat_ofNat_of_lt' (by omega)]
  refine ⟨htotal', hfailed', hcontinuous', ?_, ?_⟩
  · rwa [UInt64.le_iff_toNat_le, hcontinuous', hfailed']
  · rwa [UInt64.le_iff_toNat_le, hfailed', htotal']

theorem counts_first (m : Mark) (late : width < elapsed s.windowStart m.time) :
    Counts [m] (s.mark m.success width m.time) := by
  obtain ⟨time, success⟩ := m
  have hrolled := rolled_of_lt late
  cases success with
  | true =>
    constructor <;> simp [ServerStats.mark, markSuccess, hrolled, List.rtakeWhile]
  | false =>
    constructor <;> simp [ServerStats.mark, markFailure, hrolled, List.rtakeWhile]

theorem windowStart_mark (s : ServerStats) (success : Bool) (width now : Millis) :
    (s.mark success width now).windowStart =
      if width < elapsed s.windowStart now then now else s.windowStart := by
  have hrolled : (s.rolled width now).windowStart =
      if width < elapsed s.windowStart now then now else s.windowStart := by
    unfold rolled
    split <;> rfl
  cases success <;> exact hrolled

theorem lastActive_mark (s : ServerStats) (success : Bool) (width now : Millis) :
    (s.mark success width now).lastActive =
      if success then max s.lastActive now else s.lastActive := by
  have hrolled : (s.rolled width now).lastActive = s.lastActive := by
    unfold rolled
    split <;> rfl
  cases success with
  | true => exact congrArg (max · now) hrolled
  | false => exact hrolled

/-- The time of the last of some outcomes, `t₀` if there is none. -/
def lastTime (t₀ : Millis) (ms : List Mark) : Millis := (ms.getLast?.map Mark.time).getD t₀

theorem lastTime_concat (t₀ : Millis) (ms : List Mark) (m : Mark) :
    lastTime t₀ (ms ++ [m]) = m.time := by
  simp [lastTime]

theorem lastTime_le {t : Millis} (hfirst : t₀.toNat ≤ t.toNat)
    (hlast : ∀ m ∈ ms, m.time.toNat ≤ t.toNat) : lastTime t₀ ms ≤ t := by
  rw [UInt64.le_iff_toNat_le]
  unfold lastTime
  cases hget : ms.getLast? with
  | none => simpa using hfirst
  | some m => simpa using hlast m (List.mem_of_getLast? hget)

theorem max_of_le {a b : Millis} (h : a ≤ b) : max a b = b := by
  rw [← UInt64.toNat_inj, UInt64.toNat_max]
  exact Nat.max_eq_right (UInt64.le_iff_toNat_le.mp h)

/-- `s` is what the last window of the outcomes `ms` tells, with the times of the last outcome and
    of the last success. -/
structure Reflects (width t₀ : Millis) (ms : List Mark) (s : ServerStats) : Prop where
  window : ∃ ws w, Windows width t₀ ms (ws ++ [w]) ∧ s.windowStart = w.start ∧ Counts w.marks s
  lastVisit : s.lastVisit = lastTime t₀ ms
  lastActive : s.lastActive = lastTime t₀ (ms.filter Mark.success)

theorem reflects_startingAt (width t₀ : Millis) : Reflects width t₀ [] (startingAt t₀) where
  window := ⟨[], ⟨t₀, []⟩, .of_nil width t₀, rfl, rfl, rfl, rfl⟩
  lastVisit := rfl
  lastActive := rfl

/-- One more outcome goes into the last window if this covers it, and begins a new one if not. -/
theorem Reflects.mark (h : Reflects width t₀ ms s) (hfirst : t₀.toNat ≤ m.time.toNat)
    (hlast : ∀ a ∈ ms, a.time.toNat ≤ m.time.toNat) :
    Reflects width t₀ (ms ++ [m]) (s.mark m.success width m.time) where
  window := by
    obtain ⟨ws, w, hwindows, hstart, hcounts⟩ := h.window
    by_cases hlate : width < elapsed s.windowStart m.time
    · refine ⟨ws ++ [w], ⟨m.time, [m]⟩, hwindows.next ?_, ?_, counts_first m hlate⟩
      · rw [UInt64.lt_iff_toNat_lt, elapsed_toNat, hstart] at hlate
        omega
      · rw [windowStart_mark, if_pos hlate]
    · have hwithin := UInt64.not_lt.mp hlate
      refine ⟨ws, { w with marks := w.marks ++ [m] }, hwindows.extend ⟨?_, ?_⟩, ?_,
        hcounts.mark m hwithin⟩
      · rcases hwindows.start_last with heq | ⟨a, ha, heq⟩
        · rwa [heq]
        · rw [← heq]
          exact hlast a ha
      · rw [UInt64.le_iff_toNat_le, elapsed_toNat, hstart] at hwithin
        omega
      · rw [windowStart_mark, if_neg hlate, hstart]
  lastVisit := by
    rw [lastVisit_mark, h.lastVisit, lastTime_concat, max_of_le (lastTime_le hfirst hlast)]
  lastActive := by
    rw [lastActive_mark, h.lastActive]
    cases hsuccess : m.success with
    | false => simp [hsuccess]
    | true =>
      have hle : lastTime t₀ (ms.filter Mark.success) ≤ m.time :=
        lastTime_le hfirst fun a ha => hlast a (List.mem_filter.mp ha).1
      simp [hsuccess, lastTime_concat, max_of_le hle]

theorem reflects_tally (h : InOrder t₀ ms) : Reflects width t₀ ms (tally width t₀ ms) := by
  induction ms using List.reverseRecOn with
  | nil => exact reflects_startingAt width t₀
  | append_singleton ms m ih =>
    obtain ⟨hbefore, hfirst, hlast⟩ := inOrder_concat.mp h
    rw [tally_concat]
    exact (ih hbefore).mark hfirst hlast

/-- **The statistics of a server are what the last window of its outcomes tells.**  While the
    clock does not go back, its outcomes fall into windows in one way only.  The window on record
    is the last of these and holds the outcomes since it began; the counts are its outcomes, its
    failures and the failures at its end, unless it has more outcomes than 64 bits can count. -/
theorem run_reads_last_window (width t₀ : Millis) (es : List Event) (forward : Forward ⟨t₀⟩ es) :
    let s := run width ⟨t₀⟩ (startingAt t₀) es
    let ms := marks ⟨t₀⟩ es
    (∃ ws w, Windows width t₀ ms (ws ++ [w]) ∧ (∀ ws', Windows width t₀ ms ws' → ws' = ws ++ [w]) ∧
      s.windowStart = w.start ∧ (s.windowStart = t₀ ∨ ∃ m ∈ ms, m.time = s.windowStart) ∧
      w.marks = ms.filter (fun m => s.windowStart.toNat ≤ m.time.toNat) ∧
      (∀ m ∈ w.marks, s.windowStart.toNat ≤ m.time.toNat ∧
        m.time.toNat ≤ s.windowStart.toNat + width.toNat) ∧
      (w.marks.length < UInt64.size →
        s.total.toNat = w.marks.length ∧
        s.failed.toNat = w.marks.countP Mark.failure ∧
        s.continuous.toNat = (w.marks.rtakeWhile Mark.failure).length ∧
        s.continuous ≤ s.failed ∧ s.failed ≤ s.total)) ∧
    s.lastVisit = lastTime t₀ ms ∧ s.lastActive = lastTime t₀ (ms.filter Mark.success) := by
  intro s ms
  have hreflects : Reflects width t₀ ms s := by
    have hs : s = tally width t₀ ms := run_eq_foldl width ⟨t₀⟩ (startingAt t₀) es
    rw [hs]
    exact reflects_tally forward.inOrder
  obtain ⟨⟨ws, w, hwindows, hstart, hcounts⟩, hvisit, hactive⟩ := hreflects
  refine ⟨⟨ws, w, hwindows, fun ws' h' => h'.unique hwindows, hstart, ?_, ?_, ?_, ?_⟩,
    hvisit, hactive⟩
  · rw [hstart]
    exact hwindows.start_last
  · rw [hstart]
    exact hwindows.marks_last
  · rw [hstart]
    exact hwindows.covered w (by simp)
  · exact hcounts.toNat

/-- A success, a failure at the very end of the window, and two failures a moment later. -/
def overTheEdge : List Event :=
  [.mark true, .advanceClock 10, .mark false, .setClock 111, .mark false, .mark false]

theorem run_reads_last_window_over_the_edge :
    Forward ⟨100⟩ overTheEdge ∧
      ∃ ws w, Windows 10 100 (marks ⟨100⟩ overTheEdge) (ws ++ [w]) ∧
        w.marks = [⟨111, false⟩, ⟨111, false⟩] ∧
        (run 10 ⟨100⟩ (startingAt 100) overTheEdge).total.toNat = w.marks.length ∧
        (run 10 ⟨100⟩ (startingAt 100) overTheEdge).lastActive = 100 := by
  have hforward : Forward ⟨100⟩ overTheEdge := by decide
  obtain ⟨⟨ws, w, hwindows, -, -, -, hmarks, -, hcounts⟩, -, hactive⟩ :=
    run_reads_last_window 10 100 overTheEdge hforward
  have hlast : w.marks = [⟨111, false⟩, ⟨111, false⟩] := by
    rw [hmarks]
    decide
  refine ⟨hforward, ws, w, hwindows, hlast, (hcounts ?_).1, ?_⟩
  · rw [hlast]
    decide
  · rw [hactive]
    decide

end ServerStats

end ServiceFinder
