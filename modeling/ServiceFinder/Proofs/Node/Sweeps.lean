/-
  ServiceFinder/Proofs/Node/Sweeps.lean
  =====================================
  **Sweeps take turns, and only a periodic one ever gives up.**

  A periodic sweep that finds the sweep lock taken answers at once and leaves everything as it
  was.  Any other sweep stands in line until it makes its pass, and answers when the pass is over
  (`Stint`).  What its pass was can be read off the journal: when it ended, the journal told of
  one refresh for each view that was listed when it began.
-/
import ServiceFinder.Proofs.Node.Lookups
import ServiceFinder.Proofs.Node.SweepTurns

namespace ServiceFinder

variable {σ : Type}

/-! ### How far a sweep has come -/

/-- What a sweep answers that has made its pass. -/
def Reply.ofSweep (forced : Bool) : Reply := if forced then .done else .swept true

/-- The pass of `c` is over. -/
def Node.Ended (n : Node σ) (c : CallId) : Prop :=
  ∃ l ∈ n.journal, ∃ changed, l.what = .sweepEnded c changed

/-- The call `c` is a sweep that does not give up. -/
inductive Stint (c : CallId) (forced : Bool) (s : Midturn σ) : Prop where
  | waiting (rests : (c, .awaitingSweep) ∈ s.node.calls) (waits : forced = true)
  | sweeping (run : s.running = some (c, .sweeping forced))
  | resting {members} (rests : (c, .pass forced members) ∈ s.node.calls)
  | closing {members} (run : s.running = some (c, .closing forced members))
  | replying (run : s.running = some (c, .replying (.ofSweep forced))) (ended : s.node.Ended c)
  | answered {r : Replied} (mem : r ∈ s.node.replies) (call : r.call = c)
      (reply : r.reply = .ofSweep forced) (ended : s.node.Ended c)

theorem Node.Ended.mono {n n' : Node σ} {c : CallId} (h : n.Ended c)
    (hjournal : n.journal <:+ n'.journal) : n'.Ended c := by
  obtain ⟨l, hl, hended⟩ := h
  exact ⟨l, hjournal.subset hl, hended⟩

/-- **A sweep goes on with every move until it answers.** -/
theorem Stint.move [Registry σ] {c : CallId} {forced : Bool} {s s' : Midturn σ}
    (h : Stint c forced s) (ho : Orderly s) (m : Move s s') : Stint c forced s' := by
  cases h with
  | waiting rests waits =>
    rcases m.rests_or_wakes rests ho (by simp) (by simp) with hrests | ⟨-, rfl⟩
    · exact .waiting hrests waits
    · subst waits
      exact .sweeping rfl
  | resting rests =>
    obtain ⟨members, -, hrests | hrun⟩ := (m.stroke ho).of_pass ho rests
    · exact .resting hrests
    · exact .closing hrun
  | sweeping run =>
    rcases s with ⟨n, r, k⟩
    cases run
    cases m with
    | quiet q =>
      cases q with
      | turn hturn => cases hturn
      | sweepNone hnone => exact .closing rfl
    | sweepSome hsome => exact .resting (Node.mem_rest_self ..)
  | closing run =>
    rcases s with ⟨n, r, k⟩
    cases run
    cases m with
    | quiet q =>
      cases q with
      | turn hturn => cases hturn
      | close => exact .replying rfl ⟨_, List.mem_cons_self, _, rfl⟩
  | replying run ended =>
    rcases s with ⟨n, r, k⟩
    cases run
    rw [m.of_replying]
    exact .answered List.mem_cons_self rfl rfl ended
  | answered mem call reply ended =>
    exact .answered (m.replies_subset mem) call reply (ended.mono (m.journal_suffix ho))

/-! ### Sweeps that give up -/

/-- A pass begins when a call runs with the sweep lock. -/
theorem Stroke.began [Registry σ] {s s' : Midturn σ} (t : Stroke s s') {l : JournalLine}
    (hl : l ∈ s'.node.journal) {c : CallId} {views : List EntryId}
    (hwhat : l.what = .sweepBegan c views) :
    l ∈ s.node.journal ∨ ∃ forced, s.running = some (c, .sweeping forced) := by
  have old {lines before : List JournalLine} (hl : l ∈ lines ++ before)
      (hlines : ∀ l ∈ lines, l.what.sweep? = none) : l ∈ before := by
    rcases List.mem_append.mp hl with hl | hl
    · cases (hwhat ▸ hlines l hl : (Happening.sweepBegan c views).sweep? = none)
    · exact hl
  cases t with
  | aloof ha =>
    obtain ⟨lines, hj, hlines⟩ := ha.journal
    exact .inl (old (hj ▸ hl) hlines)
  | ask hp hjournal | hear hp hjournal =>
    rw [hjournal] at hl
    rcases List.mem_cons.mp hl with rfl | hl
    · cases hwhat
    · exact .inl hl
  | close n c' k forced members =>
    obtain ⟨lines, hj, hlines⟩ := (n.unswept_publish c' (Node.changedMembers members)).journal
    rcases List.mem_cons.mp hl with rfl | hl
    · cases hwhat
    · exact .inl (old (hj ▸ hl) hlines)
  | beginNone | beginSome =>
    rcases List.mem_cons.mp hl with rfl | hl
    · cases hwhat
      exact .inr ⟨_, rfl⟩
    · exact .inl hl
  | _ => exact .inl hl

/-- The call `c` has answered without a pass. -/
structure Spent (c : CallId) (s : Midturn σ) : Prop where
  answered : ∃ r ∈ s.node.replies, r.call = c
  unbegun : ∀ l ∈ s.node.journal, ∀ views, l.what ≠ .sweepBegan c views

theorem Spent.move [Registry σ] {c : CallId} {s s' : Midturn σ} (h : Spent c s) (ho : Orderly s)
    (m : Move s s') : Spent c s' := by
  obtain ⟨r, hr, hcall⟩ := h.answered
  constructor
  · exact ⟨r, m.replies_subset hr, hcall⟩
  · intro l hl views hwhat
    rcases (m.stroke ho).began hl hwhat with hold | ⟨forced, hrun⟩
    · exact h.unbegun l hold views hwhat
    · exact ho.notMem_replies hrun hr hcall

/-! ### The sweep lock between two turns -/

/-- A sweep holds the sweep lock or has been handed it. -/
def Node.SweepTaken (n : Node σ) : Prop :=
  ∃ c, n.sweeps c = true ∧
    ((∃ forced members, (c, .pass forced members) ∈ n.calls) ∨ (c, .awaitingSweep) ∈ n.calls)

theorem SweepLine.taken_iff {n : Node σ} (h : SweepLine (⟨n, none, none⟩ : Midturn σ)) :
    n.SweepTaken ↔ n.directory.sweepers ≠ [] := by
  constructor
  · rintro ⟨c, hfirst, -⟩ hnil
    simp [Node.sweeps, hnil] at hfirst
  · intro hne
    obtain ⟨c, rest, hline⟩ := List.exists_cons_of_ne_nil hne
    have hin : c ∈ n.directory.sweepers := by simp [hline]
    refine ⟨c, by simp [Node.sweeps, hline], ?_⟩
    rcases h.present.mp hin with ⟨st, hst, hsweep⟩ | ⟨p, hrun, -⟩
    · cases st with
      | awaitingSweep => exact .inr hst
      | pass forced members => exact .inl ⟨forced, members, hst⟩
      | _ => cases hsweep
    · cases hrun

/-- Passes follow each other. -/
structure Node.SweepsApart (n : Node σ) : Prop where
  /-- No two calls make a pass. -/
  single : ∀ {c c' forced forced' members members'}, (c, .pass forced members) ∈ n.calls →
    (c', .pass forced' members') ∈ n.calls → c = c'
  /-- Who makes a pass is who has begun one and not ended it. -/
  current : ∀ {c views}, openPass n.journal = some (c, views) ↔
    ∃ forced members, (c, .pass forced members) ∈ n.calls ∧ members.map (·.entry) = views
  /-- Nor did any two passes that the journal tells of overlap. -/
  swept : Swept n.journal
  /-- The views that the journal lists are those that are cached and initialized. -/
  listed : ∀ e, Listed e n.journal ↔ e ∈ n.directory.initialized

theorem Sweeping.apart {n : Node σ} (h : Sweeping (⟨n, none, none⟩ : Midturn σ))
    (hr : Regular (⟨n, none, none⟩ : Midturn σ)) : n.SweepsApart := by
  constructor
  · intro c c' forced forced' members members' hc hc'
    exact h.only (.resting hc) (.resting hc')
  · intro c views
    constructor
    · intro hopen
      obtain ⟨members, all, hpass⟩ := h.made hopen
      have hbegun := (h.passing hpass).begun
      cases hpass with
      | @resting forced rests =>
        rw [hopen] at hbegun
        cases hbegun
        exact ⟨forced, members, rests, rfl⟩
      | closing run => cases run
    · rintro ⟨forced, members, rests, rfl⟩
      exact (h.passing (.resting rests)).begun
  · exact h.swept
  · intro e
    exact (hr.mem_initialized nofun e).symm

/-! ### The beginning of a sweep -/

/-- The periodic sweep `c` gave up: it answered at once, asked for nothing, changed no view and
    told nobody, and it never makes a pass. -/
structure Dropped [Registry σ] (n n' : Node σ) (c : CallId) : Prop where
  reply : n'.replies = ⟨c, n.time, .swept false⟩ :: n.replies
  directory : n'.directory = n.directory
  registry : n'.registry = n.registry
  journal : n'.journal = ⟨n.time, .sweepDropped c⟩ :: n.journal
  later : ∀ {m}, n'.Course m → passesOf c m.journal = 0 ∧ ∀ e, asksFor c e m.journal = 0

/-- Whenever the sweep `c` answers, it answers `reply` after the one pass of its own; and until it
    has answered it is bound to, if time only passes when nobody can take a turn. -/
structure MakesPass [Registry σ] (start n' : Node σ) (c : CallId) (reply : Reply) : Prop where
  answer : ∀ {m}, n'.Course m → ∀ r ∈ m.replies, r.call = c →
    r.reply = reply ∧ ∃ views, ToldPass c views m.journal
  pending : ∀ {m}, n'.Course m → start.Reachable m → (∀ r ∈ m.replies, r.call ≠ c) →
    m.Inevitable fun k => ∃ r ∈ k.replies, r.call = c

section Beginning

variable [Registry σ] {start n n' m : Node σ} {c : CallId} {forced : Bool} {op : Operation σ}

theorem Begins.unbegun (h : Begins op c n n') (ho : Orderly (⟨n, none, none⟩ : Midturn σ))
    (hs : Sweeping (⟨n, none, none⟩ : Midturn σ)) :
    ∀ l ∈ n.journal, ∀ views, l.what ≠ .sweepBegan c views := by
  intro l hl views hwhat
  -- whoever has begun a pass is in flight or has answered, and a new call has done neither
  have hknown : c ∈ n.ids := by
    rcases hs.begun l hl c views hwhat with ⟨members, all, rests | run⟩ | ⟨r, hr, hcall⟩ | ⟨r, hrun⟩
    · exact List.mem_append_left _ (List.mem_map_of_mem rests)
    · cases run
    · exact List.mem_append_right _ (List.mem_map.mpr ⟨r, hr, hcall⟩)
    · cases hrun
  cases h with
  | now h =>
    subst h
    exact Nat.lt_irrefl _ (ho.below _ hknown)
  | later rests _ =>
    have hrests := Node.mem_of_stage? rests
    rcases hs.begun l hl c views hwhat with ⟨members, all, rests' | run⟩ | ⟨r, hr, hcall⟩ | ⟨r, hrun⟩
    · cases ho.stage_unique hrests rests'
    · cases run
    · exact ho.not_answered hrests hr hcall
    · cases hrun

theorem Begins.dropped (h : Begins .sweep c n n') (untouched : start.Untouched)
    (empty : start.directory.entries = []) (course : start.Course n)
    (taken : n.directory.sweepers ≠ []) : Dropped n n' c := by
  obtain ⟨hr, hs⟩ := course.sweeping untouched empty
  have hunbegun := h.unbegun hr.sound.orderly hs
  have hcourse := h.course
  obtain ⟨k, hviews, hregistry, hjournal, hreplies, htime, -, rfl⟩ := h.moves
  have hsweep : k.start c .sweep =
      ((k.note (.sweepDropped c)).measure .sweepDropped).answer c (.swept false) := by
    have hbusy : k.directory.sweepers.isEmpty = false := by
      rw [hviews]
      exact List.isEmpty_eq_false_iff.mpr taken
    simp [Node.start, Node.sweep, hbusy]
  have hj : (k.start c .sweep).journal = ⟨n.time, .sweepDropped c⟩ :: n.journal := by
    rw [hsweep, ← htime, ← hjournal]
    rfl
  have hreply : (k.start c .sweep).replies = ⟨c, n.time, .swept false⟩ :: n.replies := by
    rw [hsweep, ← htime, ← hreplies]
    rfl
  have hspent : Spent c (⟨k.start c .sweep, none, none⟩ : Midturn σ) := by
    constructor
    · exact ⟨_, hreply ▸ List.mem_cons_self, rfl⟩
    · intro l hl views hwhat
      replace hl : l ∈ (k.start c .sweep).journal := hl
      rw [hj] at hl
      rcases List.mem_cons.mp hl with rfl | hl
      · cases hwhat
      · exact hunbegun l hl views hwhat
  refine ⟨hreply, ?_, ?_, hj, ?_⟩
  · rw [hsweep, ← hviews]
    rfl
  · rw [hsweep, ← hregistry]
    rfl
  · intro m hm
    have reached := (course.trans hcourse).trans hm
    have hsound := (course.trans hcourse).sound untouched
    obtain ⟨-, hspent'⟩ := hm.keeps_of_sound (I := Spent c) hsound
      (fun hs h mv => h.move hs.orderly mv) (fun _ h => ⟨h.answered, h.unbegun⟩) hspent
    have hswept := (reached.sweeping untouched empty).2.swept
    exact ⟨passesOf_eq_zero.mpr hspent'.unbegun, fun e =>
      (hswept.of_unbegun hspent'.unbegun).1⟩

/-- What is under way goes on. -/
theorem Stint.makesPass (untouched : start.Untouched) (empty : start.directory.entries = [])
    (course : start.Course n') (h : Stint c forced (⟨n', none, none⟩ : Midturn σ)) :
    MakesPass start n' c (.ofSweep forced) := by
  have hsound := course.sound untouched
  have later {m : Node σ} (hm : n'.Course m) :
      Sound (⟨m, none, none⟩ : Midturn σ) ∧ Stint c forced (⟨m, none, none⟩ : Midturn σ) := by
    refine hm.keeps_of_sound (I := Stint c forced) hsound (fun hs h mv => h.move hs.orderly mv) ?_ h
    intro n time _ h
    cases h with
    | waiting rests waits => exact .waiting rests waits
    | resting rests => exact .resting rests
    | answered mem call reply ended => exact .answered mem call reply ended
    | sweeping run => cases run
    | closing run => cases run
    | replying run => cases run
  constructor
  · intro m hm r hr hcall
    obtain ⟨hs, hstint⟩ := later hm
    cases hstint with
    | waiting rests => exact absurd hcall (hs.orderly.not_answered rests hr)
    | resting rests => exact absurd hcall (hs.orderly.not_answered rests hr)
    | sweeping run => cases run
    | closing run => cases run
    | replying run => cases run
    | answered mem call reply ended =>
      rw [hs.orderly.reply_unique hr mem (hcall.trans call.symm)]
      obtain ⟨l, hl, changed, hwhat⟩ := ended
      have hswept := ((course.trans hm).sweeping untouched empty).2.swept
      exact ⟨reply, hswept.toldPass hl hwhat⟩
  · intro m hm reach hnone
    obtain ⟨-, hstint⟩ := later hm
    have hbrisk := Brisk.of_reachable untouched empty reach
    apply hbrisk.inevitable
    have hline := hbrisk.sweeping.line
    cases hstint with
    | waiting rests => exact hline.present.mpr (.inl ⟨_, rests, rfl⟩)
    | resting rests => exact hline.present.mpr (.inl ⟨_, rests, rfl⟩)
    | answered mem call => exact absurd call (hnone _ mem)
    | sweeping run => cases run
    | closing run => cases run
    | replying run => cases run

/-- With the sweep lock in hand, a sweep is under way. -/
theorem stint_of_beginPass
    (ho : Orderly (⟨n, some (c, .sweeping forced), none⟩ : Midturn σ)) :
    Stint c forced (⟨n.beginPass c forced, none, none⟩ : Midturn σ) :=
  ((moves_sweeping n c forced).moves.keeps (I := fun s => Orderly s ∧ Stint c forced s)
    (fun hs m => ⟨hs.1.move m, hs.2.move hs.1 m⟩) ⟨ho, .sweeping rfl⟩).2

theorem Begins.stint_sweep (h : Begins .sweep c n n')
    (ho : Orderly (⟨n, none, none⟩ : Midturn σ)) (free : n.directory.sweepers = []) :
    Stint c false (⟨n', none, none⟩ : Midturn σ) := by
  obtain ⟨m, hviews, -, -, -, -, hstart, rfl⟩ := h.moves
  have hfree : m.directory.sweepers = [] := by rw [hviews, free]
  have hsweep : m.start c .sweep = (m.queueSweeper c).beginPass c false := by
    simp [Node.start, Node.sweep, hfree]
  rw [hsweep]
  exact stint_of_beginPass ((ho.move hstart).move (.quiet (.sweepFree hfree)))

theorem Begins.stint_forceSweep (h : Begins .forceSweep c n n')
    (ho : Orderly (⟨n, none, none⟩ : Midturn σ)) :
    Stint c true (⟨n', none, none⟩ : Midturn σ) := by
  obtain ⟨m, -, -, -, -, -, hstart, rfl⟩ := h.moves
  by_cases hfree : (m.queueSweeper c).sweeps c = true
  · have hsweep : m.start c .forceSweep = (m.queueSweeper c).beginPass c true := by
      simp [Node.start, Node.forceSweep, hfree]
    rw [hsweep]
    exact stint_of_beginPass ((ho.move hstart).move (.quiet (.forceFree hfree)))
  · have hsweep : m.start c .forceSweep = (m.queueSweeper c).rest c .awaitingSweep := by
      simp [Node.start, Node.forceSweep, hfree]
    rw [hsweep]
    exact .waiting (Node.mem_rest_self ..) rfl

end Beginning

/-! ### Every sweep -/

/-- **Passes never overlap.  A periodic sweep is dropped exactly while another sweep holds the
    sweep lock or has been handed it, and every other sweep makes one pass, with one refresh for
    each view that is cached and initialized when the pass begins.** -/
theorem sweeps_take_turns [Registry σ] {start n : Node σ} (untouched : start.Untouched)
    (empty : start.directory.entries = []) (course : start.Course n) :
    n.SweepsApart ∧ ∀ {c n'},
      (Begins .sweep c n n' →
        (n.SweepTaken → Dropped n n' c) ∧
        (¬ n.SweepTaken → MakesPass start n' c (.swept true))) ∧
      (Begins .forceSweep c n n' → MakesPass start n' c .done) := by
  obtain ⟨hr, hs⟩ := course.sweeping untouched empty
  have ho := hr.sound.orderly
  refine ⟨hs.apart hr, ?_⟩
  intro c n'
  constructor
  · intro begins
    constructor
    · intro taken
      exact begins.dropped untouched empty course (hs.line.taken_iff.mp taken)
    · intro free
      have hfree := not_not.mp (mt hs.line.taken_iff.mpr free)
      exact (begins.stint_sweep ho hfree).makesPass untouched empty (course.trans begins.course)
  · intro begins
    exact (begins.stint_forceSweep ho).makesPass untouched empty (course.trans begins.course)

/-! ### Three sweeps at once -/

namespace Crowded

def key : ServiceKey := ⟨"shop", "store", "orders", everyVersion⟩

def found : Answer := .found ⟨[Drift.server], some "1"⟩

/-- The first answer comes at once and the others take 50 milliseconds. -/
def start : Node Script := .caching ⟨[(key, [⟨found, 0⟩, ⟨found, 50⟩])]⟩ {} .retainNonEmpty

/-- A view is cached, and a sweep waits for the registry. -/
def busy : Node Script := start.follow [.call (.find key), .call .forceSweep]

/-- A periodic sweep has been called for. -/
def dropped : Node Script := (busy.call .sweep).2

/-- And then one that waits its turn. -/
def queued : Node Script := (dropped.call .forceSweep).2

def settled : Node Script :=
  queued.follow [.pass 50, .resume 2, .resume 4, .pass 50, .resume 5]

theorem taken : busy.SweepTaken :=
  ⟨1, by decide, .inl ⟨true, [⟨0, none⟩], Node.mem_of_stage? rfl⟩⟩

end Crowded

/-- The periodic sweep gives up, and the other one makes its pass after the one before it. -/
theorem crowded_sweeps_take_turns :
    (Crowded.start.Untouched ∧ Crowded.start.directory.entries = [] ∧
      Crowded.start.Course Crowded.busy ∧ Crowded.busy.SweepTaken ∧
      Begins .sweep 3 Crowded.busy Crowded.dropped ∧
      Begins .forceSweep 4 Crowded.dropped Crowded.queued ∧
      Crowded.queued.Course Crowded.settled) ∧
    (Dropped Crowded.busy Crowded.dropped 3 ∧ ∃ views, ToldPass 4 views Crowded.settled.journal) ∧
    Crowded.settled.replies.map (fun r => (r.call, r.time)) = [(4, 100), (1, 50), (3, 0), (0, 0)] ∧
    asksFor 1 0 Crowded.settled.journal = 1 ∧ asksFor 4 0 Crowded.settled.journal = 1 := by
  have untouched : Crowded.start.Untouched := Node.untouched_caching ..
  have course : Crowded.start.Course Crowded.busy := Node.course_follow ..
  have sweep : Begins .sweep 3 Crowded.busy Crowded.dropped := .now _ (by decide)
  have force : Begins .forceSweep 4 Crowded.dropped Crowded.queued := .now _ (by decide)
  have later : Crowded.queued.Course Crowded.settled := Node.course_follow ..
  have hdropped := ((sweeps_take_turns untouched rfl course).2.1 sweep).1 Crowded.taken
  have hpass := (sweeps_take_turns untouched rfl (course.trans sweep.course)).2.2 force
  have hreply : ⟨4, 100, .done⟩ ∈ Crowded.settled.replies := by decide
  exact ⟨⟨untouched, rfl, course, Crowded.taken, sweep, force, later⟩,
    ⟨hdropped, (hpass.answer later _ hreply rfl).2⟩, by decide, by decide, by decide⟩

end ServiceFinder
