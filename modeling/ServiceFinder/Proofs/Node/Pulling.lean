/-
  ServiceFinder/Proofs/Node/Pulling.lean
  ======================================
  **The puller keeps its cadence.**

  A puller that was set for every `p` milliseconds from `s` on and has pulled `k` times is set
  for `s + (k + 1) * p` (`Pulling.timer`).  No turn of another call moves this moment, however
  long its sweep takes (`Node.Unpulled`), and time does not go past it.  Each pull is a call that
  begins at once, before time goes on; until it has begun it is `waiting`.  Where the puller is
  stopped between two of its moments, it has made one pull for each period that went by, and none
  is left waiting.
-/
import ServiceFinder.Proofs.Node.Dropping

namespace ServiceFinder

variable {σ : Type}

/-! ### Pulls -/

/-- A call that the puller made, and when. -/
structure Pull where
  time : Nat
  call : CallId
deriving DecidableEq, Repr

def Happening.pull? : Happening → Option CallId
  | .pulled c => some c
  | _ => none

/-- The pulls that the journal tells of, in their order. -/
def pullsOf (journal : List JournalLine) : List Pull :=
  journal.reverse.filterMap fun l => l.what.pull?.map (⟨l.time, ·⟩)

theorem pullsOf_cons (l : JournalLine) (journal : List JournalLine) :
    pullsOf (l :: journal) = pullsOf journal ++ (l.what.pull?.map (⟨l.time, ·⟩)).toList := by
  rw [pullsOf, List.reverse_cons, List.filterMap_append]
  cases h : l.what.pull? <;> simp [pullsOf, h]

@[simp] theorem pullsOf_cons_of_none {l : JournalLine} {journal : List JournalLine}
    (h : l.what.pull? = none) : pullsOf (l :: journal) = pullsOf journal := by
  simp [pullsOf_cons, h]

/-- The moments of a puller that was set for every `p` milliseconds from `s` on. -/
def ticks (s p count : Nat) : List Nat := (List.range count).map fun k => s + (k + 1) * p

theorem ticks_succ (s p count : Nat) :
    ticks s p (count + 1) = ticks s p count ++ [s + (count + 1) * p] := by
  simp [ticks, List.range_succ]

/-! ### Who sets the puller -/

def Operation.startsPuller : Operation σ → Bool
  | .startPuller _ => true
  | _ => false

/-- Whether an operation starts or stops the puller. -/
def Operation.setsPuller : Operation σ → Bool
  | .startPuller _ | .stopPuller => true
  | _ => false

/-- Whether the puller is started or stopped here, or ticks. -/
def Point.setsPuller : Point σ → Bool
  | .starting op => op.setsPuller
  | .ticking _ _ => true
  | _ => false

/-- Whether something begins when the wait is over. -/
def Stage.begins : Stage σ → Bool
  | .scheduled _ _ | .pulling _ _ => true
  | _ => false

@[simp] theorem Job.setsPuller_point (e : EntryId) (job : Job) :
    (job.point e : Point σ).setsPuller = false := by
  cases job <;> rfl

@[simp] theorem Job.begins_stage (e : EntryId) (job : Job) :
    (job.stage e : Stage σ).begins = false := by
  cases job <;> rfl

theorem Stage.setsPuller_point {st : Stage σ} (h : st.begins = false) :
    st.point.setsPuller = false := by
  cases st with
  | scheduled | pulling => cases h
  | _ => rfl

theorem Node.setsPuller_of_turnsTo {n : Node σ} {p p' : Point σ} (h : n.turnsTo p = some p') :
    p'.setsPuller = false := by
  unfold turnsTo at h
  split at h
  all_goals first
    | (cases h; rfl)
    | (split at h <;> cases h <;> rfl)
    | cases h

theorem Quiet.setsPuller {c : CallId} {n n' : Node σ} {p p' : Point σ} (q : Quiet c n p n' p') :
    p'.setsPuller = false := by
  cases q with
  | turn h => exact Node.setsPuller_of_turnsTo h
  | _ => rfl

namespace Node

/-! ### What leaves the puller alone -/

/-- From `n` to `n'` the puller was left alone, and nothing that is to begin was added or taken
    away. -/
structure Unpulled (n n' : Node σ) : Prop where
  time : n'.time = n.time
  nextCall : n.nextCall ≤ n'.nextCall
  pulls : pullsOf n'.journal = pullsOf n.journal
  begins : ∀ {c st}, st.begins = true → ((c, st) ∈ n'.calls ↔ (c, st) ∈ n.calls)

namespace Unpulled

variable {n n' n'' : Node σ}

theorem refl (n : Node σ) : n.Unpulled n := ⟨rfl, Nat.le_refl _, rfl, fun _ => .rfl⟩

theorem trans (h : n.Unpulled n') (h' : n'.Unpulled n'') : n.Unpulled n'' where
  time := h'.time.trans h.time
  nextCall := Nat.le_trans h.nextCall h'.nextCall
  pulls := h'.pulls.trans h.pulls
  begins hst := (h'.begins hst).trans (h.begins hst)

theorem of_eq (time : n'.time = n.time) (nextCall : n.nextCall ≤ n'.nextCall)
    (calls : n'.calls = n.calls) (pulls : pullsOf n'.journal = pullsOf n.journal) :
    n.Unpulled n' :=
  ⟨time, nextCall, pulls, fun _ => by rw [calls]⟩

theorem rest (h : n.Unpulled n') {c : CallId} {st : Stage σ} (hst : st.begins = false) :
    n.Unpulled (n'.rest c st) where
  time := h.time
  nextCall := h.nextCall
  pulls := h.pulls
  begins hst' := by
    rw [mem_rest, ← h.begins hst', or_iff_left]
    rintro ⟨-, rfl⟩
    cases hst.symm.trans hst'

theorem unrest (ho : (n.calls.map (·.1)).Nodup) {c : CallId} {st : Stage σ}
    (rests : n.stage? c = some st) (hst : st.begins = false) : n.Unpulled (n.unrest c) where
  time := rfl
  nextCall := Nat.le_refl _
  pulls := rfl
  begins {c' st'} hst' := by
    rw [mem_unrest, and_iff_left_iff_imp]
    rintro hc rfl
    cases List.inj_on_of_nodup_map ho hc (mem_of_stage? rests) rfl
    cases hst.symm.trans hst'

end Unpulled

theorem unpulled_evictIfGone (n : Node σ) (e : EntryId) : n.Unpulled (n.evictIfGone e) := by
  unfold evictIfGone evict
  split
  · split
    · exact .of_eq rfl (Nat.le_refl _) rfl (pullsOf_cons_of_none rfl)
    · exact .refl n
  · exact .refl n

theorem unpulled_publish (n : Node σ) (c : CallId) (changed : List EntryId) :
    n.Unpulled (n.publish c changed) := by
  have hevicted (views : List EntryId) : n.Unpulled (views.foldl evictIfGone n) := by
    induction views generalizing n with
    | nil => exact .refl n
    | cons e views ih => exact (n.unpulled_evictIfGone e).trans (ih _)
  have hnotified (m : Node σ) : m.Unpulled (m.notify c changed) := by
    unfold notify
    split
    · exact .refl m
    · exact .refl m
    · split <;> exact .of_eq rfl (Nat.le_refl _) rfl (pullsOf_cons_of_none rfl)
  exact (hevicted changed).trans (hnotified _)

end Node

theorem Quiet.unpulled {c : CallId} {n n' : Node σ} {p p' : Point σ} (q : Quiet c n p n' p') :
    n.Unpulled n' := by
  have hstill := q.still
  refine .of_eq hstill.time (Nat.le_of_eq hstill.nextCall.symm) hstill.calls ?_
  cases q with
  | turn | find | sweepFree | forceFree => rfl
  | aside h =>
    obtain ⟨-, -, -, -, -, hjournal⟩ := Node.rest_of_aside h
    rw [hjournal]
  | view e => exact (n.unpulled_evictIfGone e).pulls
  | choose e i =>
    obtain ⟨-, -, -, -, -, hjournal⟩ := Node.rest_of_choice (n.evictIfGone e) e i
    rw [hjournal]
    exact (n.unpulled_evictIfGone e).pulls
  | sweepTaken | sweepNone => exact pullsOf_cons_of_none rfl
  | close forced members =>
    exact (pullsOf_cons_of_none rfl).trans (n.unpulled_publish c _).pulls
  | publish change changed => exact (n.unpulled_publish c changed).pulls

/-- **Within a turn that does not set the puller, nothing touches it.** -/
theorem Move.unpulled [Registry σ] {s s' : Midturn σ} (m : Move s s') (busy : s.busy = true)
    (ho : Orderly s) (hrun : ∀ {c p}, s.running = some (c, p) → p.setsPuller = false) :
    s.node.Unpulled s'.node ∧ ∀ {c p}, s'.running = some (c, p) → p.setsPuller = false := by
  have hle (n : Node σ) : n.nextCall ≤ n.nextCall := Nat.le_refl _
  cases m with
  | call | callAfter | wake => cases busy
  | startPuller | stopPuller | tick => cases hrun rfl
  | quiet q => exact ⟨q.unpulled, fun h => by cases h; exact q.setsPuller⟩
  | answer n | stray | enlisted => exact ⟨.of_eq rfl (hle _) rfl rfl, nofun⟩
  | protect | protectView | beginFirst | endFirst =>
    exact ⟨.of_eq rfl (hle _) rfl rfl, fun h => by cases h; rfl⟩
  | forget | create | askNow | hear | apply | applyNext =>
    exact ⟨.of_eq rfl (hle _) rfl (pullsOf_cons_of_none rfl), fun h => by cases h; rfl⟩
  | lock => exact ⟨.of_eq rfl (hle _) rfl rfl, fun h => by cases h; exact Job.setsPuller_point ..⟩
  | enlist n => exact ⟨.of_eq rfl (Nat.le_succ _) rfl rfl, fun h => by cases h; rfl⟩
  | sleep n | @awaitFirst n => exact ⟨(Node.Unpulled.refl n).rest rfl, nofun⟩
  | @forceWait n c =>
    have hlined : n.Unpulled (n.queueSweeper c) := .of_eq rfl (hle n) rfl rfl
    exact ⟨hlined.rest rfl, nofun⟩
  | @wait n c k e job =>
    have hlined : n.Unpulled (n.queueWriter c e) := .of_eq rfl (hle n) rfl rfl
    exact ⟨hlined.rest (Job.begins_stage e job), nofun⟩
  | @ask n c k e next =>
    have hasked : n.Unpulled (n.asked c e next) :=
      .of_eq rfl (hle n) rfl (pullsOf_cons_of_none rfl)
    exact ⟨hasked.rest rfl, nofun⟩
  | @sweepSome n c =>
    have hbegan : n.Unpulled (n.note (.sweepBegan c n.directory.initialized)) :=
      .of_eq rfl (hle n) rfl (pullsOf_cons_of_none rfl)
    exact ⟨hbegan.rest rfl, nofun⟩
  | member rests =>
    exact ⟨(Node.Unpulled.unrest ho.nodup_calls rests rfl).rest rfl, nofun⟩
  | lastMember rests => exact ⟨.unrest ho.nodup_calls rests rfl, fun h => by cases h; rfl⟩

theorem Onward.unpulled [Registry σ] {s s' : Midturn σ} (onward : Onward s s') (ho : Orderly s)
    (hrun : ∀ {c p}, s.running = some (c, p) → p.setsPuller = false) :
    s.node.Unpulled s'.node := by
  refine (onward.keeps (I := fun s' => Orderly s' ∧ s.node.Unpulled s'.node ∧
    ∀ {c p}, s'.running = some (c, p) → p.setsPuller = false) ?_
    ⟨ho, .refl _, hrun⟩).2.1
  rintro t t' busy ⟨hot, hunpulled, hrunt⟩ m
  obtain ⟨hstep, hrunt'⟩ := m.unpulled busy hot hrunt
  exact ⟨hot.move m, hunpulled.trans hstep, hrunt'⟩

namespace Node

/-! ### Sweeps that the puller asked for -/

section Begun

/-- The sweep that begins in a turn, if one of these calls was asked for it. -/
def pullBegun (n : Node σ) (asked : List CallId) (a : Act σ) : List Pull :=
  ((n.sweepBegun a).filter (· ∈ asked)).map (⟨n.time, ·⟩)

variable {n : Node σ} {a : Act σ} {c : CallId} {op : Operation σ} {asked : List CallId}

theorem begins?_of_beginner? (h : n.beginner? a = some (c, op)) : n.begins? a = some op := by
  obtain ⟨op', hop, heq⟩ := Option.map_eq_some_iff.mp h
  cases heq
  exact hop

theorem pullBegun_eq_nil (h : ∀ {c op}, n.beginner? a = some (c, op) → c ∉ asked) :
    n.pullBegun asked a = [] := by
  rw [pullBegun, List.filter_eq_nil_iff.mpr, List.map_nil]
  intro c hc
  simpa using h (mem_sweepBegun.mp hc)

theorem pullBegun_of_unbegun (h : n.beginner? a = none) : n.pullBegun asked a = [] :=
  pullBegun_eq_nil (by rw [h]; nofun)

theorem pullBegun_of_other (h : n.begins? a = some op) (hop : op ≠ .sweep) :
    n.pullBegun asked a = [] := by
  have hnone : n.sweepBegun a = [] := by
    refine List.eq_nil_iff_forall_not_mem.mpr ?_
    intro c hc
    cases h.symm.trans (begins?_of_beginner? (mem_sweepBegun.mp hc))
    exact hop rfl
  rw [pullBegun, hnone, List.filter_nil, List.map_nil]

theorem pullBegun_of_mem (h : n.beginner? a = some (c, .sweep)) (hc : c ∈ asked) :
    n.pullBegun asked a = [⟨n.time, c⟩] := by
  simp [pullBegun, sweepBegun, h, hc]

theorem pullBegun_append {more : List CallId}
    (h : ∀ {c op}, n.beginner? a = some (c, op) → c ∉ more) :
    n.pullBegun (asked ++ more) a = n.pullBegun asked a := by
  rw [pullBegun, pullBegun]
  congr 1
  refine List.filter_congr ?_
  intro c hc
  simp [h (mem_sweepBegun.mp hc)]

variable [Registry σ]

/-- The sweeps of these calls that begin in these turns. -/
def pullsBegun (n : Node σ) (asked : List CallId) : List (Act σ) → List Pull
  | [] => []
  | a :: acts => n.pullBegun asked a ++ (n.act a).pullsBegun asked acts

theorem pullsBegun_append (n : Node σ) (asked : List CallId) (acts later : List (Act σ)) :
    n.pullsBegun asked (acts ++ later) =
      n.pullsBegun asked acts ++ (n.follow acts).pullsBegun asked later := by
  induction acts generalizing n with
  | nil => rfl
  | cons a acts ih =>
    rw [List.cons_append, pullsBegun, pullsBegun, ih, List.append_assoc]
    rfl

theorem mem_pullsBegun {acts : List (Act σ)} {x : Pull}
    (h : x ∈ n.pullsBegun asked acts) : ∃ before a after, acts = before ++ a :: after ∧
      (n.follow before).beginner? a = some (x.call, .sweep) ∧
        (n.follow before).time = x.time := by
  induction acts generalizing n with
  | nil => cases h
  | cons a acts ih =>
    rcases List.mem_append.mp h with h | h
    · obtain ⟨c, hc, rfl⟩ := List.mem_map.mp h
      exact ⟨[], a, acts, rfl, mem_sweepBegun.mp (List.mem_filter.mp hc).1, rfl⟩
    · obtain ⟨before, a', after, rfl, hbegins, htime⟩ := ih h
      exact ⟨a :: before, a', after, rfl, hbegins, htime⟩

end Begun

/-! ### Cadence -/

theorem mem_callAfter {n : Node σ} {c : CallId} {st : Stage σ} {wait : Nat} {op : Operation σ} :
    (c, st) ∈ (n.callAfter wait op).2.calls ↔
      (c, st) ∈ n.calls ∨ c = n.nextCall ∧ st = .scheduled (n.time + Timer.run wait) op :=
  mem_rest

theorem mem_tick {n : Node σ} {c x : CallId} {st : Stage σ} {due interval : Nat} :
    (x, st) ∈ (n.tick c due interval).calls ↔
      ((x, st) ∈ n.calls ∨ x = c ∧ st = .pulling (due + Timer.run interval) interval) ∨
        x = n.nextCall ∧ st = .scheduled n.time .sweep :=
  mem_rest.trans (or_congr_left mem_rest)

/-- The puller was set for every `p` milliseconds from `s` on and has pulled these times, and of
    its calls only `waiting` has yet to begin. -/
structure Pulling (s p : Nat) (pulls : List Pull) (waiting : Option Pull) (n : Node σ) :
    Prop where
  cadence : pulls.map (·.time) = ticks s p pulls.length
  reached : s + pulls.length * p ≤ n.time
  ahead : n.time ≤ s + (pulls.length + 1) * p
  /-- One call is the puller, and it is set for its next moment. -/
  timer : ∃ c, ∀ {x due interval}, (x, .pulling due interval) ∈ n.calls ↔
    x = c ∧ due = s + (pulls.length + 1) * p ∧ interval = p
  waits : ∀ {x}, waiting = some x → x ∈ pulls ∧ x.time = n.time ∧
    n.time = s + pulls.length * p ∧ (x.call, .scheduled n.time .sweep) ∈ n.calls
  begun : ∀ {x due op}, x ∈ pulls → (x.call, .scheduled due op) ∈ n.calls → waiting = some x
  known : ∀ {x}, x ∈ pulls → x.call < n.nextCall

/-- From `n` to `m` the puller went on: it made the `new` pulls, and those in `begun` began. -/
structure PullsOn (s p : Nat) (pulls new : List Pull) (waiting waiting' : Option Pull)
    (n m : Node σ) (begun : List Pull) : Prop where
  pulling : m.Pulling s p (pulls ++ new) waiting'
  journal : pullsOf m.journal = pullsOf n.journal ++ new
  nextCall : n.nextCall ≤ m.nextCall
  fresh : ∀ x ∈ new, n.nextCall ≤ x.call
  begun : waiting.toList ++ new = begun ++ waiting'.toList

section Cadence

variable {s p : Nat} {pulls new new' : List Pull} {waiting waiting' waiting'' : Option Pull}
  {n m k : Node σ} {begun begun' : List Pull} {c : CallId} {a : Act σ}
  {op : Operation σ}

theorem PullsOn.trans (h : PullsOn s p pulls new waiting waiting' n m begun)
    (h' : PullsOn s p (pulls ++ new) new' waiting' waiting'' m k begun') :
    PullsOn s p pulls (new ++ new') waiting waiting'' n k (begun ++ begun') where
  pulling := by
    rw [← List.append_assoc]
    exact h'.pulling
  journal := by rw [h'.journal, h.journal, List.append_assoc]
  nextCall := Nat.le_trans h.nextCall h'.nextCall
  fresh x hx := by
    rcases List.mem_append.mp hx with hx | hx
    · exact h.fresh x hx
    · exact Nat.le_trans h.nextCall (h'.fresh x hx)
  begun := by rw [← List.append_assoc, h.begun, List.append_assoc, h'.begun, List.append_assoc]

/-- The puller makes no pull. -/
theorem PullsOn.of_none (h : m.Pulling s p pulls waiting')
    (journal : pullsOf m.journal = pullsOf n.journal) (nextCall : n.nextCall ≤ m.nextCall)
    (hbegun : waiting.toList = begun ++ waiting'.toList) :
    PullsOn s p pulls [] waiting waiting' n m begun where
  pulling := by rwa [List.append_nil]
  journal := by rw [journal, List.append_nil]
  nextCall := nextCall
  fresh := by simp
  begun := by rwa [List.append_nil]

namespace Pulling

theorem unpulled (h : n.Pulling s p pulls waiting) (unpulled : n.Unpulled m) :
    m.Pulling s p pulls waiting where
  cadence := h.cadence
  reached := unpulled.time ▸ h.reached
  ahead := unpulled.time ▸ h.ahead
  timer := by
    obtain ⟨c, hc⟩ := h.timer
    exact ⟨c, (unpulled.begins rfl).trans hc⟩
  waits hx := by
    rw [unpulled.time, unpulled.begins rfl]
    exact h.waits hx
  begun hx hmem := h.begun hx ((unpulled.begins rfl).mp hmem)
  known hx := Nat.lt_of_lt_of_le (h.known hx) unpulled.nextCall

/-- Between two moments of the puller none of its calls waits, and it has pulled once for each
    period that went by. -/
theorem between (h : n.Pulling s p pulls waiting) (apart : ¬ p ∣ n.time - s) :
    waiting = none ∧ (n.time - s) / p = pulls.length := by
  constructor
  · refine Option.eq_none_iff_forall_ne_some.mpr ?_
    intro x hx
    obtain ⟨-, -, hnow, -⟩ := h.waits hx
    exact apart ⟨pulls.length, by rw [hnow, Nat.add_sub_cancel_left, Nat.mul_comm]⟩
  · have hne : n.time ≠ s + (pulls.length + 1) * p := by
      intro hnow
      exact apart ⟨pulls.length + 1, by rw [hnow, Nat.add_sub_cancel_left, Nat.mul_comm]⟩
    have hreached := h.reached
    have hahead := Nat.lt_of_le_of_ne h.ahead hne
    exact Nat.div_eq_of_lt_le (by omega) (by omega)

/-- Of the calls that the puller made only the one that waits can begin. -/
theorem waits_of_begins (h : n.Pulling s p pulls waiting)
    (ho : Orderly (⟨n, none, none⟩ : Midturn σ)) {x : Pull} (hx : x ∈ pulls)
    (begins : n.beginner? a = some (x.call, op)) : waiting = some x ∧ op = .sweep := by
  rcases beginner?_cases begins with ⟨-, hcall⟩ | ⟨-, due, rests, -⟩
  · exact absurd hcall (Nat.ne_of_lt (h.known hx))
  · have hmem := mem_of_stage? rests
    have hwaits := h.begun hx hmem
    obtain ⟨-, -, -, hrests⟩ := h.waits hwaits
    cases ho.stage_unique hmem hrests
    exact ⟨hwaits, rfl⟩

theorem filter_waiting (h : ∀ x, waiting = some x → x.call ≠ c) :
    waiting.filter (·.call ≠ c) = waiting := by
  cases waiting with
  | none => rfl
  | some x => exact Option.filter_eq_some_iff.mpr ⟨rfl, decide_eq_true (h x rfl)⟩

theorem toList_waiting (h : n.Pulling s p pulls waiting)
    (ho : Orderly (⟨n, none, none⟩ : Midturn σ)) (begins : n.beginner? a = some (c, op)) :
    waiting.toList =
      n.pullBegun (pulls.map (·.call)) a ++ (waiting.filter (·.call ≠ c)).toList := by
  by_cases hwaits : ∃ x, waiting = some x ∧ x.call = c
  · obtain ⟨x, rfl, rfl⟩ := hwaits
    obtain ⟨hx, htime, -, -⟩ := h.waits rfl
    obtain ⟨-, rfl⟩ := h.waits_of_begins ho hx begins
    rw [pullBegun_of_mem begins (List.mem_map_of_mem hx), ← htime]
    simp
  · have hkeep := filter_waiting fun x hx hcall => hwaits ⟨x, hx, hcall⟩
    rw [hkeep, pullBegun_eq_nil, List.nil_append]
    intro c' op' begins' hasked
    cases begins.symm.trans begins'
    obtain ⟨x, hx, rfl⟩ := List.mem_map.mp hasked
    exact hwaits ⟨x, (h.waits_of_begins ho hx begins).1, rfl⟩

/-- A call other than the puller leaves its stage. -/
theorem unrest (h : n.Pulling s p pulls waiting)
    (hother : ∀ {due interval}, (c, .pulling due interval) ∉ n.calls) :
    (n.unrest c).Pulling s p pulls (waiting.filter (·.call ≠ c)) where
  cadence := h.cadence
  reached := h.reached
  ahead := h.ahead
  timer := by
    obtain ⟨t, ht⟩ := h.timer
    refine ⟨t, fun {x due interval} => ?_⟩
    rw [mem_unrest, and_iff_left_of_imp, ht]
    rintro hmem rfl
    exact hother hmem
  waits hx := by
    obtain ⟨hwaiting, hne⟩ := Option.filter_eq_some_iff.mp hx
    obtain ⟨hmem, htime, hnow, hrests⟩ := h.waits hwaiting
    exact ⟨hmem, htime, hnow, mem_unrest.mpr ⟨hrests, of_decide_eq_true hne⟩⟩
  begun hx hmem := by
    obtain ⟨hmem, hne⟩ := mem_unrest.mp hmem
    exact Option.filter_eq_some_iff.mpr ⟨h.begun hx hmem, decide_eq_true hne⟩
  known := h.known

/-- Another call is to begin later. -/
theorem callAfter (h : n.Pulling s p pulls waiting) (wait : Nat) (op : Operation σ) :
    (n.callAfter wait op).2.Pulling s p pulls waiting where
  cadence := h.cadence
  reached := h.reached
  ahead := h.ahead
  timer := by
    obtain ⟨t, ht⟩ := h.timer
    exact ⟨t, (mem_callAfter.trans (or_iff_left (by simp))).trans ht⟩
  waits hx := by
    obtain ⟨hmem, htime, hnow, hrests⟩ := h.waits hx
    exact ⟨hmem, htime, hnow, mem_rest.mpr (.inl hrests)⟩
  begun hx hmem := by
    rcases mem_rest.mp hmem with hmem | ⟨hcall, -⟩
    · exact h.begun hx hmem
    · exact absurd hcall (Nat.ne_of_lt (h.known hx))
  known hx := Nat.lt_succ_of_lt (h.known hx)

/-- Time does not pass while a pull waits to begin, nor beyond the puller's next moment. -/
theorem pass (h : n.Pulling s p pulls waiting) (ho : Orderly (⟨n, none, none⟩ : Midturn σ))
    {ms : Nat} (idle : n.nextAwake = none) (hdue : ∀ due ∈ n.nextDue, n.time + ms ≤ due) :
    Pulling s p pulls waiting { n with time := n.time + ms } where
  cadence := h.cadence
  reached := Nat.le_add_right_of_le h.reached
  ahead := by
    obtain ⟨t, ht⟩ := h.timer
    obtain ⟨due, hnext, hle⟩ := exists_nextDue_le (ht.mpr ⟨rfl, rfl, rfl⟩) rfl
    exact Nat.le_trans (hdue due hnext) hle
  timer := h.timer
  waits {x} hx := by
    obtain ⟨-, -, -, hrests⟩ := h.waits hx
    have hasleep := not_awake_of_idle idle (ho.stage?_eq hrests)
    simp [awake] at hasleep
  begun := h.begun
  known := h.known

/-- **The puller pulls at its moment, and is set for the next one.** -/
theorem tick (h : n.Pulling s p pulls waiting) (positive : 0 < p) (periodic : Timer.run p = p)
    {due interval : Nat} (rests : (c, .pulling due interval) ∈ n.calls) (hdue : due ≤ n.time) :
    PullsOn s p pulls [⟨n.time, n.nextCall⟩] waiting (some ⟨n.time, n.nextCall⟩) n
      ((n.unrest c).tick c due interval) [] := by
  obtain ⟨t, ht⟩ := h.timer
  obtain ⟨rfl, rfl, rfl⟩ := ht.mp rests
  have hnow : n.time = s + (pulls.length + 1) * interval := Nat.le_antisymm h.ahead hdue
  have hnext : s + (pulls.length + 1) * interval + interval =
      s + (pulls.length + 1 + 1) * interval := by rw [Nat.succ_mul (pulls.length + 1), Nat.add_assoc]
  have hnone : waiting = none := by
    refine Option.eq_none_iff_forall_ne_some.mpr ?_
    intro x hx
    obtain ⟨-, -, hbefore, -⟩ := h.waits hx
    rw [hbefore, Nat.succ_mul] at hnow
    omega
  subst hnone
  have hlength : (pulls ++ [⟨n.time, n.nextCall⟩] : List Pull).length = pulls.length + 1 := by
    rw [List.length_append, List.length_singleton]
  refine ⟨?_, ?_, Nat.le_succ _, by simp, rfl⟩
  · constructor
    · rw [hlength, ticks_succ, List.map_append, h.cadence, List.map_singleton, ← hnow]
    · rw [hlength]
      exact Nat.le_of_eq hnow.symm
    · rw [hlength]
      exact Nat.le_trans (Nat.le_of_eq hnow) (hnext ▸ Nat.le_add_right ..)
    · refine ⟨c, ?_⟩
      intro x due' interval'
      have hgone : (x, .pulling due' interval') ∉ (n.unrest c).calls := by
        intro hmem
        obtain ⟨hmem, hne⟩ := mem_unrest.mp hmem
        exact hne (ht.mp hmem).1
      rw [hlength, ← hnext, mem_tick, periodic]
      simp [hgone]
    · rintro x ⟨⟩
      refine ⟨by simp, rfl, ?_, mem_rest_self ..⟩
      rw [hlength]
      exact hnow
    · intro x due' op hx hmem
      rcases List.mem_append.mp hx with hx | hx
      · rcases mem_tick.mp hmem with (hmem | ⟨-, heq⟩) | ⟨hcall, -⟩
        · cases h.begun hx (mem_unrest.mp hmem).1
        · cases heq
        · exact absurd hcall (Nat.ne_of_lt (h.known hx))
      · exact congrArg some (List.mem_singleton.mp hx).symm
    · intro x hx
      rcases List.mem_append.mp hx with hx | hx
      · exact Nat.lt_succ_of_lt (h.known hx)
      · cases List.mem_singleton.mp hx
        exact Nat.lt_succ_self _
  · exact (pullsOf_cons ..).trans rfl

end Pulling

/-- The puller has been stopped, and all of its calls have begun. -/
structure Stopped (pulls : List Pull) (n : Node σ) : Prop where
  idle : ∀ {x due interval}, (x, .pulling due interval) ∉ n.calls
  begun : ∀ {x due op}, x ∈ pulls → (x.call, .scheduled due op) ∉ n.calls
  known : ∀ {x}, x ∈ pulls → x.call < n.nextCall

theorem Stopped.mono (h : n.Stopped pulls) (nextCall : n.nextCall ≤ m.nextCall)
    (hcalls : ∀ {x st}, st.begins = true → (x, st) ∈ m.calls → (x, st) ∈ n.calls) :
    m.Stopped pulls where
  idle hmem := h.idle (hcalls rfl hmem)
  begun hx hmem := h.begun hx (hcalls rfl hmem)
  known hx := Nat.lt_of_lt_of_le (h.known hx) nextCall

/-! ### Turns -/

variable [Registry σ]

/-- An operation that does not set the puller leaves it alone. -/
theorem unpulled_start (ho : Orderly (⟨n, some (c, .starting op), none⟩ : Midturn σ))
    (unset : op.setsPuller = false) : n.Unpulled (n.start c op) := by
  refine (moves_starting n c op).unpulled ho ?_
  rintro _ _ ⟨⟩
  exact unset

/-- What a turn is to the puller. -/
inductive PullerSees (n : Node σ) (a : Act σ) : Prop where
  | begins {x : CallId} {op : Operation σ} (begins : n.beginner? a = some (x, op))
  | later {wait : Nat} {op : Operation σ} (heq : a = .callAfter wait op)
  | passes {ms : Nat} (heq : a = .pass ms)
  | ticks {x : CallId} {due interval : Nat} (rests : (x, .pulling due interval) ∈ n.calls)
      (hdue : due ≤ n.time) (heq : n.act a = (n.unrest x).tick x due interval)
      (unbegun : n.beginner? a = none)
  | leaves (unpulled : n.Unpulled (n.act a)) (unbegun : n.beginner? a = none)

theorem pullerSees (ho : Orderly (⟨n, none, none⟩ : Midturn σ)) (a : Act σ) : n.PullerSees a := by
  cases a with
  | call op => exact .begins rfl
  | callAfter wait op => exact .later rfl
  | pass ms => exact .passes rfl
  | resume c =>
    by_cases hawake : n.isAwake c = true
    · obtain ⟨st, rests, awake, onward⟩ := moves_resume n c hawake
      have hact : n.act (.resume c) = n.resume c := if_pos hawake
      cases hst : st.begins with
      | true =>
        cases st with
        | scheduled due op => exact .begins (beginner?_of_scheduled rests (of_decide_eq_true awake))
        | pulling due interval =>
          refine .ticks (mem_of_stage? rests) (of_decide_eq_true awake) ?_ ?_
          · rw [hact, Node.resume, rests]
          · simp [beginner?, begins?, rests]
        | _ => cases hst
      | false =>
        have hunrest : n.Unpulled (n.unrest c) := .unrest ho.nodup_calls rests hst
        have honward := onward.unpulled (ho.move (.wake rests awake)) (by
          rintro _ _ ⟨⟩
          exact Stage.setsPuller_point hst)
        refine .leaves (hact ▸ hunrest.trans honward) ?_
        cases st with
        | scheduled | pulling => cases hst
        | _ => simp [beginner?, begins?, rests]
    · have hact : n.act (.resume c) = n := if_neg hawake
      exact .leaves (hact.symm ▸ .refl n) (by simp [beginner?, begins?, hawake])

namespace Pulling

/-- A call begins: the one that waits, or another. -/
theorem begin (h : n.Pulling s p pulls waiting) (ho : Orderly (⟨n, none, none⟩ : Midturn σ))
    (begins : n.beginner? a = some (c, op)) (unset : op.setsPuller = false) :
    PullsOn s p pulls [] waiting (waiting.filter (·.call ≠ c)) n (n.act a)
      (n.pullBegun (pulls.map (·.call)) a) := by
  have hbegun := h.toList_waiting ho begins
  rcases beginner?_cases begins with ⟨rfl, rfl⟩ | ⟨rfl, due, rests, hdue⟩
  · have hnew : n.Unpulled n.newCall.2 := ⟨rfl, Nat.le_succ _, rfl, fun _ => .rfl⟩
    have hstart := hnew.trans (unpulled_start (ho.move (.call n op)) unset)
    have hkeep : waiting.filter (·.call ≠ n.nextCall) = waiting :=
      filter_waiting fun x hx => Nat.ne_of_lt (h.known (h.waits hx).1)
    exact .of_none (hkeep.symm ▸ h.unpulled hstart) hstart.pulls hstart.nextCall hbegun
  · have hact : n.act (.resume c) = (n.unrest c).start c op := by
      rw [act, if_pos (isAwake_of_scheduled rests hdue), Node.resume, rests]
    have hother {due interval : Nat} (hc : (c, .pulling due interval) ∈ n.calls) : False := by
      cases ho.stage_unique (mem_of_stage? rests) hc
    have hstart := unpulled_start (ho.move (.wake rests (decide_eq_true hdue))) unset
    rw [hact]
    exact .of_none ((h.unrest hother).unpulled hstart) hstart.pulls hstart.nextCall hbegun

/-- **A turn in which nothing sets the puller.** -/
theorem act (h : n.Pulling s p pulls waiting) (ho : Orderly (⟨n, none, none⟩ : Midturn σ))
    (positive : 0 < p) (periodic : Timer.run p = p)
    (unset : (n.begins? a).any Operation.setsPuller = false)
    (unhurried : ∀ ms, a = .pass ms → n.nextAwake = none ∧ ∀ due ∈ n.nextDue, n.time + ms ≤ due) :
    ∃ new waiting', PullsOn s p pulls new waiting waiting' n (n.act a)
      (n.pullBegun ((pulls ++ new).map (·.call)) a) := by
  cases pullerSees ho a with
  | @begins c op begins =>
    refine ⟨[], waiting.filter (·.call ≠ c), ?_⟩
    rw [List.append_nil]
    exact h.begin ho begins (by simpa [begins?_of_beginner? begins] using unset)
  | @later wait op heq =>
    subst heq
    refine ⟨[], waiting, ?_⟩
    rw [pullBegun_of_unbegun rfl]
    exact .of_none (h.callAfter wait op) rfl (Nat.le_succ _) rfl
  | @passes ms heq =>
    subst heq
    obtain ⟨idle, hdue⟩ := unhurried ms rfl
    refine ⟨[], waiting, ?_⟩
    rw [pullBegun_of_unbegun rfl]
    exact .of_none (h.pass ho idle hdue) rfl (Nat.le_refl _) rfl
  | ticks rests hdue heq unbegun =>
    refine ⟨[⟨n.time, n.nextCall⟩], some ⟨n.time, n.nextCall⟩, ?_⟩
    rw [pullBegun_of_unbegun unbegun, heq]
    exact h.tick positive periodic rests hdue
  | leaves unpulled unbegun =>
    refine ⟨[], waiting, ?_⟩
    rw [pullBegun_of_unbegun unbegun]
    exact .of_none (h.unpulled unpulled) unpulled.pulls unpulled.nextCall rfl

end Pulling

/-! ### Runs -/

/-- No operation of this kind begins in these turns. -/
def BeginsNo (kind : Operation σ → Bool) (n : Node σ) : List (Act σ) → Prop
  | [] => True
  | a :: acts => (n.begins? a).any kind = false ∧ (n.act a).BeginsNo kind acts

/-- In these turns time only passes when nobody can take one, and never past a moment that
    somebody waits for. -/
def Unhurried (n : Node σ) : List (Act σ) → Prop
  | [] => True
  | a :: acts => (∀ ms, a = .pass ms → n.nextAwake = none ∧ ∀ due ∈ n.nextDue, n.time + ms ≤ due) ∧
      (n.act a).Unhurried acts

/-- Who begins in a turn is older than whoever comes after it. -/
theorem lt_nextCall_of_begins (ho : Orderly (⟨n, none, none⟩ : Midturn σ))
    (begins : n.beginner? a = some (c, op)) (unset : op.setsPuller = false)
    (hle : n.nextCall ≤ (n.act a).nextCall) : c < (n.act a).nextCall := by
  rcases beginner?_cases begins with ⟨rfl, rfl⟩ | ⟨rfl, due, rests, -⟩
  · exact (unpulled_start (ho.move (.call n op)) unset).nextCall
  · exact Nat.lt_of_lt_of_le (ho.lt_nextCall (mem_of_stage? rests)) hle

/-- **While nothing sets the puller, it keeps its cadence.** -/
theorem Pulling.follow (h : n.Pulling s p pulls waiting)
    (ha : Audited (⟨n, none, none⟩ : Midturn σ)) (positive : 0 < p) (periodic : Timer.run p = p)
    {acts : List (Act σ)} (unset : n.BeginsNo Operation.setsPuller acts)
    (unhurried : n.Unhurried acts) :
    ∃ new waiting', PullsOn s p pulls new waiting waiting' n (n.follow acts)
      (n.pullsBegun ((pulls ++ new).map (·.call)) acts) := by
  induction acts generalizing n pulls waiting with
  | nil => exact ⟨[], waiting, .of_none h rfl (Nat.le_refl _) rfl⟩
  | cons a acts ih =>
    obtain ⟨new, waiting', hfirst⟩ := h.act ha.orderly positive periodic unset.1 unhurried.1
    obtain ⟨more, waiting'', hrest⟩ :=
      ih hfirst.pulling (ha.course (n.course_act a)) unset.2 unhurried.2
    refine ⟨new ++ more, waiting'', ?_⟩
    -- whoever begins now is none of those that are yet to be called
    have hbegun : n.pullBegun ((pulls ++ new ++ more).map (·.call)) a =
        n.pullBegun ((pulls ++ new).map (·.call)) a := by
      rw [List.map_append, pullBegun_append]
      intro c op begins hmore
      obtain ⟨x, hx, rfl⟩ := List.mem_map.mp hmore
      have hop : op.setsPuller = false := by simpa [begins?_of_beginner? begins] using unset.1
      have hlt := lt_nextCall_of_begins ha.orderly begins hop hfirst.nextCall
      exact Nat.not_lt.mpr (hrest.fresh x hx) hlt
    rw [pullsBegun, ← List.append_assoc, hbegun]
    exact hfirst.trans hrest

/-! ### From the start of the puller to its end -/

/-- A puller that is started is set for its first moment, and whoever pulled before is gone. -/
theorem pulling_of_begins (h : Begins (.startPuller p) c n m) (positive : 0 < p) :
    m.Pulling n.time p [] none ∧ pullsOf m.journal = pullsOf n.journal := by
  obtain ⟨calls, nextCall, -, -, -, rfl⟩ := h.starts_at
  let k : Node σ := { n with calls, nextCall }
  have hstill : (k.startPuller p).time = n.time ∧ (k.startPuller p).journal = n.journal := by
    rw [k.startPuller_eq]
    exact ⟨rfl, rfl⟩
  have hnow : (k.start c (.startPuller p)).time = n.time := hstill.1
  refine ⟨⟨rfl, ?_, ?_, ⟨nextCall, ?_⟩, nofun, nofun, nofun⟩, congrArg pullsOf hstill.2⟩
  · simp [k, hnow]
  · simp [k, hnow]
  · intro x due interval
    refine (mem_startPuller (n := k)).trans ?_
    rw [mem_stopPuller]
    simp [k, Nat.ne_of_gt positive]

theorem stopped_of_begins (h : Begins .stopPuller c n m) (hp : n.Pulling s p pulls none) :
    m.Stopped pulls ∧ pullsOf m.journal = pullsOf n.journal := by
  obtain ⟨calls, nextCall, hcalls, hnext, -, rfl⟩ := h.starts_at
  refine ⟨⟨?_, ?_, fun hx => Nat.lt_of_lt_of_le (hp.known hx) hnext⟩, rfl⟩
  · intro x due interval hmem
    exact (mem_stopPuller.mp hmem).2 due interval rfl
  · intro x due op hx hmem
    cases hp.begun hx (hcalls (mem_stopPuller.mp hmem).1)

/-- **Nothing is pulled once the puller is stopped**, unless it is started anew. -/
theorem Stopped.act (h : n.Stopped pulls) (ho : Orderly (⟨n, none, none⟩ : Midturn σ))
    (unstarted : (n.begins? a).any Operation.startsPuller = false) :
    (n.act a).Stopped pulls ∧ pullsOf (n.act a).journal = pullsOf n.journal ∧
      n.pullBegun (pulls.map (·.call)) a = [] := by
  have unbegun : n.pullBegun (pulls.map (·.call)) a = [] := by
    refine pullBegun_eq_nil ?_
    intro c op begins hasked
    obtain ⟨x, hx, rfl⟩ := List.mem_map.mp hasked
    rcases beginner?_cases begins with ⟨-, hcall⟩ | ⟨-, due, rests, -⟩
    · exact Nat.ne_of_lt (h.known hx) hcall
    · exact h.begun hx (mem_of_stage? rests)
  suffices (n.act a).Stopped pulls ∧ pullsOf (n.act a).journal = pullsOf n.journal from
    ⟨this.1, this.2, unbegun⟩
  cases pullerSees ho a with
  | @begins c op begins =>
    have hop : op.startsPuller = false := by
      simpa [begins?_of_beginner? begins] using unstarted
    obtain ⟨calls, nextCall, hcalls, hnext, hmove, hact⟩ :=
      (begins_of_beginner? begins).starts_at
    have hk : Stopped pulls { n with calls, nextCall } := h.mono hnext fun _ hmem => hcalls hmem
    rw [hact]
    cases hset : op.setsPuller with
    | true =>
      cases op with
      | startPuller => cases hop
      | stopPuller => exact ⟨hk.mono (Nat.le_refl _) fun _ hmem => (mem_stopPuller.mp hmem).1, rfl⟩
      | _ => cases hset
    | false =>
      have hstart := unpulled_start (ho.move hmove) hset
      exact ⟨hk.mono hstart.nextCall fun hst => (hstart.begins hst).mp, hstart.pulls⟩
  | @later wait op heq =>
    subst heq
    refine ⟨⟨?_, ?_, fun hx => Nat.lt_succ_of_lt (h.known hx)⟩, rfl⟩
    · intro x due interval hmem
      exact h.idle (mem_callAfter.mp hmem |>.resolve_right (by simp))
    · intro x due op hx hmem
      rcases mem_callAfter.mp hmem with hmem | ⟨hcall, -⟩
      · exact h.begun hx hmem
      · exact Nat.ne_of_lt (h.known hx) hcall
  | @passes ms heq =>
    subst heq
    exact ⟨h.mono (Nat.le_refl _) fun _ hmem => hmem, rfl⟩
  | ticks rests => exact absurd rests h.idle
  | leaves unpulled =>
    exact ⟨h.mono unpulled.nextCall fun hst => (unpulled.begins hst).mp, unpulled.pulls⟩

theorem Stopped.follow (h : n.Stopped pulls) (ha : Audited (⟨n, none, none⟩ : Midturn σ))
    {acts : List (Act σ)} (unstarted : n.BeginsNo Operation.startsPuller acts) :
    pullsOf (n.follow acts).journal = pullsOf n.journal ∧
      n.pullsBegun (pulls.map (·.call)) acts = [] := by
  induction acts generalizing n with
  | nil => exact ⟨rfl, rfl⟩
  | cons a acts ih =>
    obtain ⟨hact, hjournal, hbegun⟩ := h.act ha.orderly unstarted.1
    obtain ⟨hjournal', hbegun'⟩ := ih hact (ha.course (n.course_act a)) unstarted.2
    exact ⟨hjournal'.trans hjournal, by rw [pullsBegun, hbegun, hbegun', List.append_nil]⟩

end Cadence

variable [Registry σ] {n n' : Node σ} {a : Act σ} {c : CallId} {op : Operation σ}

theorem exists_begins (h : n.begins? a = some op) : ∃ c, Begins op c n (n.act a) :=
  ⟨_, begins_of_beginner? (Option.map_eq_some_iff.mpr ⟨op, h, rfl⟩)⟩

/-- How a periodic sweep goes that begins as `c` in the turn from `n` to `n'`: it is dropped and
    counted where another sweep has the sweep lock, and makes its one pass otherwise. -/
structure GoesAsSweep (start n n' : Node σ) (c : CallId) : Prop where
  dropped : n.SweepTaken → Dropped n n' c ∧ n'.dropped = n.dropped + 1
  passes : ¬ n.SweepTaken → MakesPass start n' c (.swept true)

theorem goesAsSweep {start : Node σ} (untouched : start.Untouched)
    (empty : start.directory.entries = []) (course : start.Course n)
    (begins : Begins .sweep c n n') : GoesAsSweep start n n' c := by
  obtain ⟨hr, hs⟩ := course.sweeping untouched empty
  constructor
  · intro taken
    have hbusy := hs.line.taken_iff.mp taken
    exact ⟨begins.dropped untouched empty course hbusy, begins.dropped_of_taken hbusy⟩
  · intro free
    have hfree := not_not.mp (mt hs.line.taken_iff.mpr free)
    exact (begins.stint_sweep hr.sound.orderly hfree).makesPass untouched empty
      (course.trans begins.course)

/-- From `n` on a puller is started for every `p` milliseconds with the turn `begin`, and stopped
    with the turn `stop`.  In between nothing else sets the puller, and time passes only when
    nobody can take a turn; afterwards no puller is started. -/
structure PullsBetween (n : Node σ) (p : Nat) (begin : Act σ) (during : List (Act σ))
    (stop : Act σ) (later : List (Act σ)) : Prop where
  begins : n.begins? begin = some (.startPuller p)
  unset : (n.act begin).BeginsNo Operation.setsPuller during
  unhurried : (n.act begin).Unhurried during
  stops : ((n.act begin).follow during).begins? stop = some .stopPuller
  unstarted : (((n.act begin).follow during).act stop).BeginsNo Operation.startsPuller later

end Node

/-- **The puller keeps its cadence.**  A puller that is started for every `p` milliseconds and
    stopped between two of its moments has asked for one sweep at each moment before, and for
    none afterwards, if no timer cuts a period short.  Each of these sweeps begins once, at the
    moment of its pull, however long the sweeps before it take and whatever else goes on; it is
    dropped and counted where another sweep is under way, and makes its pass otherwise. -/
theorem puller_keeps_cadence [Registry σ] {start n : Node σ} (untouched : start.Untouched)
    (empty : start.directory.entries = []) (course : start.Course n) {p : Nat} (positive : 0 < p)
    (periodic : Timer.run p = p) {begin stop : Node.Act σ} {during later : List (Node.Act σ)}
    (run : n.PullsBetween p begin during stop later)
    (apart : ¬ p ∣ ((n.act begin).follow during).time - n.time) :
    let acts := begin :: (during ++ stop :: later)
    let count := (((n.act begin).follow during).time - n.time) / p
    ∃ pulls : List Pull, pullsOf (n.follow acts).journal = pullsOf n.journal ++ pulls ∧
      pulls.map (·.time) = ticks n.time p count ∧
      n.pullsBegun (pulls.map (·.call)) acts = pulls ∧
      ∀ x ∈ pulls, ∃ before a after, acts = before ++ a :: after ∧
        (n.follow before).beginner? a = some (x.call, .sweep) ∧
        (n.follow before).time = x.time ∧
        Node.GoesAsSweep start (n.follow before) ((n.follow before).act a) x.call := by
  intro acts count
  have ha : Audited (⟨n, none, none⟩ : Midturn σ) := course.audited untouched empty
  obtain ⟨c, hbegin⟩ := Node.exists_begins run.begins
  obtain ⟨hstarted, hnone⟩ := Node.pulling_of_begins hbegin positive
  have ha' := ha.course (n.course_act begin)
  obtain ⟨pulls, waiting, hpulls⟩ :=
    hstarted.follow ha' positive periodic run.unset run.unhurried
  obtain ⟨rfl, hcount⟩ := hpulls.pulling.between apart
  obtain ⟨c', hstop⟩ := Node.exists_begins run.stops
  obtain ⟨hstopped, hnone'⟩ := Node.stopped_of_begins hstop hpulls.pulling
  obtain ⟨hnone'', hover⟩ := hstopped.follow
    ((ha'.course (Node.course_follow _ during)).course (Node.course_act _ stop)) run.unstarted
  have hfollow : n.follow acts = (((n.act begin).follow during).act stop).follow later := by
    simp only [acts, Node.follow, List.foldl_cons, List.foldl_append]
  have hbegun : n.pullsBegun (pulls.map (·.call)) acts = pulls := by
    simp only [acts, Node.pullsBegun, Node.pullsBegun_append,
      Node.pullBegun_of_other run.begins nofun, Node.pullBegun_of_other run.stops nofun]
    rw [List.nil_append] at hover
    rw [hover]
    simpa using hpulls.begun.symm
  refine ⟨pulls, ?_, ?_, hbegun, ?_⟩
  · rw [hfollow, hnone'', hnone', hpulls.journal, hnone]
  · exact hpulls.pulling.cadence.trans (congrArg (ticks n.time p) hcount.symm)
  · intro x hx
    obtain ⟨before, a, after, hacts, hbegins, htime⟩ := Node.mem_pullsBegun (hbegun.symm ▸ hx)
    exact ⟨before, a, after, hacts, hbegins, htime, Node.goesAsSweep untouched empty
      (course.trans (Node.course_follow n before)) (Node.begins_of_beginner? hbegins)⟩

/-! ### Sweeps that take longer than a period -/

namespace Paced

def key : ServiceKey := ⟨"shop", "store", "orders", everyVersion⟩

def found : Answer := .found ⟨[], some "1"⟩

/-- The first answer comes at once and the others take 50 milliseconds. -/
def start : Node Script := .caching ⟨[(key, [⟨found, 0⟩, ⟨found, 50⟩])]⟩ {} .retainNonEmpty

def filled : Node Script := start.follow [.call (.find key)]

def begin : Node.Act Script := .call (.startPuller 20)

/-- The puller is 2, and its calls are 3, 5 and 6.  The first of them sweeps from 20 to 70, with 4
    for its only view. -/
def during : List (Node.Act Script) :=
  [.pass 20, .resume 2, .resume 3, .pass 20, .resume 2, .resume 5, .pass 20, .resume 2, .resume 6,
    .pass 5]

def stop : Node.Act Script := .call .stopPuller

def later : List (Node.Act Script) := [.pass 5, .resume 4, .pass 100]

def settled : Node Script := filled.follow (begin :: (during ++ stop :: later))

theorem unhurried : (filled.act begin).Unhurried during := by
  refine ⟨?_, nofun, nofun, ?_, nofun, nofun, ?_, nofun, nofun, ?_, trivial⟩
  all_goals
    rintro ms ⟨⟩
    exact ⟨by decide, by decide⟩

theorem pullsBetween : filled.PullsBetween 20 begin during stop later where
  begins := rfl
  unset := ⟨rfl, rfl, rfl, rfl, rfl, rfl, rfl, rfl, rfl, rfl, trivial⟩
  unhurried := unhurried
  stops := rfl
  unstarted := ⟨rfl, rfl, rfl, trivial⟩

end Paced

/-- Three moments go by, and the sweep of the first takes until after the last. -/
theorem paced_puller_pulls_thrice :
    (Paced.start.Untouched ∧ Paced.start.directory.entries = [] ∧
      Paced.start.Course Paced.filled ∧ 0 < 20 ∧ Timer.run 20 = 20 ∧
      Paced.filled.PullsBetween 20 Paced.begin Paced.during Paced.stop Paced.later ∧
      ¬ 20 ∣ ((Paced.filled.act Paced.begin).follow Paced.during).time - Paced.filled.time) ∧
    (pullsOf Paced.settled.journal).map (·.time) = [20, 40, 60] ∧
    Paced.filled.pullsBegun ((pullsOf Paced.settled.journal).map (·.call))
      (Paced.begin :: (Paced.during ++ Paced.stop :: Paced.later)) =
        pullsOf Paced.settled.journal ∧
    Paced.settled.dropped = 2 ∧
    (Paced.settled.reply? 3).map (·.time) = some 70 := by
  have untouched : Paced.start.Untouched := Node.untouched_caching ..
  have course : Paced.start.Course Paced.filled := Node.course_follow ..
  have apart : ¬ 20 ∣ ((Paced.filled.act Paced.begin).follow Paced.during).time -
      Paced.filled.time := by decide
  obtain ⟨pulls, hjournal, htimes, hbegun, -⟩ :=
    puller_keeps_cadence untouched rfl course (by decide) rfl Paced.pullsBetween apart
  have hpulls : pullsOf Paced.settled.journal = pulls := hjournal
  rw [hpulls]
  exact ⟨⟨untouched, rfl, course, by decide, rfl, Paced.pullsBetween, apart⟩, htimes, hbegun,
    by decide, by decide⟩

end ServiceFinder
