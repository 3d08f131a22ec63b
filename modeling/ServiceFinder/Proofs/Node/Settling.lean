/-
  ServiceFinder/Proofs/Node/Settling.lean
  =======================================
  **At one moment only so much can happen.**

  A call that wakes may start others, hand a lock on and rest once more, so it is not
  plain that calls ever stop waking while time stands still.  They do.  `effort` bounds
  how often the calls in flight, and those that they start, may still wake before time
  passes, and every waking uses some of it up (`effort_resume_lt`).  A sweep starts as many
  refreshes as views are cached, and views may be cached until then; so the bound looks at
  the views that there can be once every lookup in flight has made its own (`capacity`).

  What is bound to happen before long is `Inevitable`: it comes in whatever order the
  calls in flight take turns.
-/
import Mathlib.Algebra.GroupWithZero.Nat
import Mathlib.Algebra.Order.BigOperators.Group.List
import Mathlib.Algebra.Order.Group.Nat
import ServiceFinder.Proofs.Node.Punctual

namespace ServiceFinder

variable {σ : Type}

/-! ### How much calls may still do -/

namespace Operation

/-- How many views an operation may make. -/
def capacity : Operation σ → Nat
  | .find _ | .choose _ _ => 1
  | _ => 0

/-- How often calls may wake for an operation at one moment, with no more than `b` views
    cached. -/
def effort (b : Nat) : Operation σ → Nat
  | .find _ | .choose _ _ | .ensureFirst _ | .refresh _ | .forceRefresh _ => 2
  | .sweep | .forceSweep => 1 + 2 * b
  | .change _ => b
  | .changeView _ _ | .sleep _ => 1
  | _ => 0

end Operation

/-- The views that are still to be changed may each have a line. -/
def AfterChange.effort : AfterChange → Nat
  | .verdict => 0
  | .others rest _ => rest.length

namespace Stage

def capacity : Stage σ → Nat
  | .scheduled _ op => op.capacity
  | _ => 0

def effort (b now : Nat) : Stage σ → Nat
  | .scheduled _ op => 1 + op.effort b
  | .pulling due _ => if due ≤ now then 3 + 2 * b else 0
  | .refreshing _ _ => 2
  | .sleeping _ | .fetching _ _ _ _ | .awaitingFirst _ _ => 1
  | .changing _ _ next => 1 + next.effort
  | .awaitingSweep => 1 + 2 * b
  | .pass _ _ => 0

end Stage

namespace Point

def capacity : Point σ → Nat
  | .starting op => op.capacity
  | .looking _ _ => 1
  | _ => 0

def effort (b : Nat) : Point σ → Nat
  | .starting op => op.effort b
  | .looking _ _ | .ensuring _ _ | .lining _ (.refresh _) | .forgetting _ (.refresh _ _) => 2
  | .lining _ (.change _ next) => 1 + next.effort
  | .asking _ _ => 1
  | .sweeping _ => 2 * b
  | .spreading _ _ rest => rest.length
  | .applying _ _ next => next.effort
  | .ticking _ _ => 2 + 2 * b
  | _ => 0

end Point

/-- All calls at rest together. -/
def Node.total (n : Node σ) (f : Stage σ → Nat) : Nat := (n.calls.map fun x => f x.2).sum

namespace Midturn

/-- All calls at rest and the one that runs together. -/
def total (f : Stage σ → Nat) (g : Point σ → Nat) (s : Midturn σ) : Nat :=
  s.node.total f + (s.running.map fun x => g x.2).getD 0

/-- How many views may be cached before a new call starts. -/
def capacity (s : Midturn σ) : Nat :=
  s.node.directory.size + s.total Stage.capacity Point.capacity

/-- How often calls may still wake now, before a new call starts, with no more than `b`
    views cached. -/
def effort (b now : Nat) (s : Midturn σ) : Nat :=
  s.total (Stage.effort b now) (Point.effort b) +
    (s.enlisting.map fun x => 2 * x.2.2.length).getD 0

end Midturn

/-! ### Calls at rest together -/

namespace Node

theorem total_rest (n : Node σ) (f : Stage σ → Nat) (c : CallId) (st : Stage σ) :
    (n.rest c st).total f = n.total f + f st := by
  simp [total, rest]

theorem total_unrest {n : Node σ} (f : Stage σ → Nat) {c : CallId} {st : Stage σ}
    (rests : n.stage? c = some st) : (n.unrest c).total f + f st ≤ n.total f := by
  obtain ⟨before, after, heq, -⟩ := List.lookup_eq_some_iff.mp rests
  have hsub (calls : List (CallId × Stage σ)) :
      ((calls.filter (·.1 != c)).map fun x => f x.2).sum ≤ (calls.map fun x => f x.2).sum :=
    (List.filter_sublist.map _).sum_le_sum (by simp)
  have hbefore := hsub before
  have hafter := hsub after
  simp only [total, unrest, heq, List.filter_append, List.map_append, List.sum_append,
    List.map_cons, List.sum_cons, List.filter_cons, bne_self_eq_false]
  simp only [Bool.false_eq_true, if_false]
  omega

theorem total_stopPuller_le (n : Node σ) (f : Stage σ → Nat) : n.stopPuller.total f ≤ n.total f :=
  (List.filter_sublist.map _).sum_le_sum (by simp)

theorem total_startPuller_le (n : Node σ) (f : Stage σ → Nat) (interval : Nat)
    (h : interval ≠ 0 → f (.pulling (n.time + interval) interval) = 0) :
    (n.startPuller interval).total f ≤ n.total f := by
  have hstop := n.total_stopPuller_le f
  rw [startPuller_eq]
  by_cases hpositive : interval = 0
  · simpa [total, hpositive] using hstop
  · simpa [total, hpositive, h hpositive] using hstop

end Node

namespace Midturn

variable {n n' : Node σ} {f : Stage σ → Nat} {g : Point σ → Nat} {c c' : CallId} {p p' : Point σ}
  {k k' : Option (CallId × Bool × List EntryId)}

theorem total_run (hcalls : n'.total f ≤ n.total f) (hp : g p' ≤ g p) :
    total f g ⟨n', some (c', p'), k'⟩ ≤ total f g ⟨n, some (c, p), k⟩ :=
  Nat.add_le_add hcalls hp

theorem total_rest {st : Stage σ} (hcalls : n'.total f ≤ n.total f) (hp : f st ≤ g p) :
    total f g ⟨n'.rest c' st, none, k'⟩ ≤ total f g ⟨n, some (c, p), k⟩ := by
  show (n'.rest c' st).total f + 0 ≤ _
  rw [Node.total_rest, Nat.add_zero]
  exact Nat.add_le_add hcalls hp

theorem total_end (hcalls : n'.total f ≤ n.total f) :
    total f g ⟨n', none, k'⟩ ≤ total f g ⟨n, some (c, p), k⟩ :=
  Nat.add_le_add hcalls (Nat.zero_le _)

theorem capacity_le {s s' : Midturn σ} (hsize : s'.node.directory.size ≤ s.node.directory.size)
    (htotal : s'.total Stage.capacity Point.capacity ≤ s.total Stage.capacity Point.capacity) :
    s'.capacity ≤ s.capacity :=
  Nat.add_le_add hsize htotal

/-- Whoever moves, no member is enlisted. -/
theorem effort_le {b now : Nat} {r r' : Option (CallId × Point σ)}
    (h : total (Stage.effort b now) (Point.effort b) ⟨n', r', k⟩ ≤
      total (Stage.effort b now) (Point.effort b) ⟨n, r, k⟩) :
    effort b now ⟨n', r', k⟩ ≤ effort b now ⟨n, r, k⟩ :=
  Nat.add_le_add_right h _

end Midturn

/-! ### What quiet moves do to the bound -/

namespace Node

theorem size_evictIfGone_le (n : Node σ) (e : EntryId) :
    (n.evictIfGone e).directory.size ≤ n.directory.size := by
  unfold evictIfGone evict
  split
  · split
    · exact List.length_filter_le ..
    · exact Nat.le_refl _
  · exact Nat.le_refl _

theorem directory_notify (n : Node σ) (c : CallId) (changed : List EntryId) :
    (n.notify c changed).directory = n.directory := by
  unfold notify
  split
  · rfl
  · rfl
  · dsimp only
    split <;> rfl

theorem size_publish_le (n : Node σ) (c : CallId) (changed : List EntryId) :
    (n.publish c changed).directory.size ≤ n.directory.size := by
  have evicted (views : List EntryId) (n : Node σ) :
      (views.foldl evictIfGone n).directory.size ≤ n.directory.size := by
    induction views generalizing n with
    | nil => exact Nat.le_refl _
    | cons v views ih => exact (ih _).trans (n.size_evictIfGone_le v)
  rw [publish, directory_notify]
  exact evicted changed n

end Node

namespace Quiet

variable {c : CallId} {n n' : Node σ} {p p' : Point σ}

theorem size_le (h : Quiet c n p n' p') : n'.directory.size ≤ n.directory.size := by
  cases h with
  | turn | find | sweepFree | sweepTaken | forceFree | sweepNone => exact Nat.le_refl _
  | aside h => rw [(Node.rest_of_aside h).1]
  | view e => exact n.size_evictIfGone_le e
  | choose e i =>
    rw [(Node.rest_of_choice (n.evictIfGone e) e i).1]
    exact n.size_evictIfGone_le e
  | close forced members => exact n.size_publish_le c _
  | publish change changed => exact n.size_publish_le c changed

theorem capacity_le (h : Quiet c n p n' p') : p'.capacity ≤ p.capacity := by
  cases h with
  | turn h =>
    unfold Node.turnsTo at h
    split at h
    all_goals first
      | (cases h; exact Nat.le_refl _)
      | (split at h <;> cases h <;> exact Nat.zero_le _)
      | cases h
  | _ => exact Nat.zero_le _

theorem effort_le (h : Quiet c n p n' p') {b : Nat} (hb : n.directory.size ≤ b) :
    p'.effort b ≤ p.effort b := by
  have hviews : n.directory.views.length ≤ b := by
    simpa [Directory.views, Directory.size] using hb
  cases h with
  | turn h =>
    unfold Node.turnsTo at h
    split at h
    all_goals first
      | (cases h; exact Nat.le_refl _)
      | (cases h; exact hviews)
      | (split at h <;> cases h <;>
          simp [Point.effort, Operation.effort, AfterChange.effort, Nat.add_comm])
      | cases h
  | _ => simp [Point.effort, Operation.effort]

end Quiet

/-! ### What moves do to the bound -/

section Moves

variable [Registry σ] {s s' : Midturn σ}

/-- **No move makes room for more views than there was.** -/
theorem Move.capacity_le (m : Move s s') (busy : s.busy = true) : s'.capacity ≤ s.capacity := by
  cases m with
  | call | callAfter | wake => cases busy
  | quiet q =>
    refine Midturn.capacity_le q.size_le (Midturn.total_run ?_ q.capacity_le)
    rw [Node.total, q.still.calls]
    exact Nat.le_refl _
  | protect n c k on =>
    refine Midturn.capacity_le ?_ (Midturn.total_run (Nat.le_refl _) (Nat.le_refl _))
    show (n.directory.protect on).cached.length ≤ _
    rw [Directory.cached_protect]
    exact Nat.le_refl _
  | @create n c k key next valid h =>
    show (n.directory.cached ++ [(key, n.directory.entries.length)]).length +
      (n.total Stage.capacity + 0) ≤ n.directory.cached.length + (n.total Stage.capacity + 1)
    rw [List.length_append, List.length_singleton]
    omega
  | protectView | forget | beginFirst | endFirst | askNow | hear | apply | applyNext =>
    exact Midturn.capacity_le (Nat.le_refl _) (Midturn.total_run (Nat.le_refl _) (Nat.le_refl _))
  | @lock n c k e job hfree =>
    have hpoint : (job.point e : Point σ).capacity = 0 := by cases job <;> rfl
    exact Midturn.capacity_le (Nat.le_refl _)
      (Midturn.total_run (Nat.le_refl _) (Nat.le_of_eq hpoint))
  | @wait n c k e job hbusy =>
    have hstage : (job.stage e : Stage σ).capacity = 0 := by cases job <;> rfl
    exact Midturn.capacity_le (Nat.le_refl _)
      (Midturn.total_rest (Nat.le_refl _) (Nat.le_of_eq hstage))
  | sleep | awaitFirst | ask | forceWait | sweepSome =>
    exact Midturn.capacity_le (Nat.le_refl _) (Midturn.total_rest (Nat.le_refl _) (Nat.le_refl _))
  | answer | stray =>
    exact Midturn.capacity_le (Nat.le_refl _) (Midturn.total_end (Nat.le_refl _))
  | enlist => exact Nat.le_refl _
  | enlisted => exact Nat.le_refl _
  | stopPuller n c k =>
    exact Midturn.capacity_le (Nat.le_refl _)
      (Midturn.total_run (n.total_stopPuller_le _) (Nat.le_refl _))
  | startPuller n c k interval =>
    have hsize : (n.startPuller interval).directory = n.directory := by rw [n.startPuller_eq]
    have hcalls := n.total_startPuller_le Stage.capacity interval fun _ => rfl
    refine Midturn.capacity_le ?_ (Midturn.total_run hcalls (Nat.le_refl _))
    rw [hsize]
  | tick n c k due interval =>
    refine Midturn.capacity_le (Nat.le_refl _) (Midturn.total_rest ?_ (Nat.le_refl _))
    exact Nat.le_of_eq (Node.total_rest n ..)
  | member rests hmore =>
    refine Midturn.capacity_le (Nat.le_refl _) (Midturn.total_rest ?_ (Nat.le_refl _))
    exact Nat.le_of_add_right_le (Node.total_unrest _ rests)
  | lastMember rests hall =>
    refine Midturn.capacity_le (Nat.le_refl _) (Midturn.total_run ?_ (Nat.le_refl _))
    exact Nat.le_of_add_right_le (Node.total_unrest _ rests)

/-- **No move within a turn makes more to do.** -/
theorem Move.effort_le (m : Move s s') (busy : s.busy = true)
    (timely : ∀ {c p}, s.running = some (c, p) → p.Timely s.node.time) {b : Nat}
    (hb : s.node.directory.size ≤ b) : s'.effort b s.node.time ≤ s.effort b s.node.time := by
  cases m with
  | call | callAfter | wake => cases busy
  | quiet q =>
    refine Midturn.effort_le (Midturn.total_run ?_ (q.effort_le hb))
    rw [Node.total, q.still.calls]
    exact Nat.le_refl _
  | protect | create | protectView | beginFirst | endFirst | apply | applyNext | hear =>
    exact Midturn.effort_le (Midturn.total_run (Nat.le_refl _) (Nat.le_refl _))
  | forget n c k e es next =>
    refine Midturn.effort_le (Midturn.total_run (Nat.le_refl _) ?_)
    cases next <;> exact Nat.le_refl _
  | askNow =>
    exact Midturn.effort_le (Midturn.total_run (Nat.le_refl _) (Nat.zero_le _))
  | @lock n c k e job hfree =>
    refine Midturn.effort_le (Midturn.total_run (Nat.le_refl _) ?_)
    cases job with
    | refresh next => exact Nat.le_succ 1
    | change change next => exact Nat.le_add_left ..
  | @wait n c k e job hbusy =>
    refine Midturn.effort_le (Midturn.total_rest (Nat.le_refl _) ?_)
    cases job <;> exact Nat.le_refl _
  | sleep | ask | forceWait =>
    exact Midturn.effort_le (Midturn.total_rest (Nat.le_refl _) (Nat.le_refl _))
  | awaitFirst =>
    exact Midturn.effort_le (Midturn.total_rest (Nat.le_refl _) (Nat.le_succ 1))
  | @sweepSome n c forced h =>
    -- the pass itself never wakes; each of its members may, twice
    have hviews : n.directory.initialized.length ≤ b :=
      (List.length_filter_le ..).trans (by simpa [Directory.views, Directory.size] using hb)
    show (n.rest c (.pass forced _)).total (Stage.effort b n.time) + 0 +
      2 * n.directory.initialized.length ≤ n.total (Stage.effort b n.time) + 2 * b + 0
    rw [Node.total_rest]
    simp only [Stage.effort]
    omega
  | answer | stray =>
    exact Midturn.effort_le (Midturn.total_end (Nat.le_refl _))
  | enlist n sweep forced e rest =>
    show n.total (Stage.effort b n.time) + 2 + 2 * rest.length ≤
      n.total (Stage.effort b n.time) + 0 + 2 * (rest.length + 1)
    omega
  | enlisted => exact Nat.le_refl _
  | stopPuller n c k =>
    exact Midturn.effort_le (Midturn.total_run (n.total_stopPuller_le _) (Nat.le_refl _))
  | startPuller n c k interval =>
    have hcalls := n.total_startPuller_le (Stage.effort b n.time) interval fun hpositive => by
      simp [Stage.effort, hpositive]
    exact Midturn.effort_le (Midturn.total_run hcalls (Nat.le_refl _))
  | tick n c k due interval =>
    obtain ⟨hdue, hpositive⟩ : n.time ≤ due ∧ interval ≠ 0 := timely rfl
    -- the next tick is later, so only the sweep that it asked for is left now
    have hlater : ¬ due + Timer.run interval ≤ n.time := by
      have := Timer.run_pos hpositive
      omega
    have hnext : (n.rest c (.pulling (due + Timer.run interval) interval)).total
        (Stage.effort b n.time) = n.total (Stage.effort b n.time) := by
      rw [Node.total_rest, Stage.effort, if_neg hlater, Nat.add_zero]
    refine Midturn.effort_le (Midturn.total_rest (Nat.le_of_eq hnext) ?_)
    simp only [Stage.effort, Operation.effort, Point.effort]
    omega
  | member rests hmore =>
    refine Midturn.effort_le (Midturn.total_rest ?_ (Nat.le_refl _))
    exact Nat.le_of_add_right_le (Node.total_unrest _ rests)
  | lastMember rests hall =>
    refine Midturn.effort_le (Midturn.total_run ?_ (Nat.le_refl _))
    exact Nat.le_of_add_right_le (Node.total_unrest _ rests)

end Moves

/-! ### Waking -/

/-- Whoever wakes has less to do than before. -/
theorem Stage.effort_point_lt {n : Node σ} {c : CallId} {st : Stage σ} (h : n.awake c st = true)
    (b : Nat) : st.point.effort b < st.effort b n.time := by
  cases st with
  | pulling due interval =>
    rw [Stage.effort, if_pos (of_decide_eq_true h)]
    exact Nat.add_lt_add_right (Nat.lt_succ_self 2) _
  | pass forced members => cases h
  | scheduled | changing | awaitingSweep => exact Nat.lt_add_of_pos_left Nat.one_pos
  | _ => exact Nat.lt_succ_self _

theorem Stage.capacity_point (st : Stage σ) : st.point.capacity = st.capacity := by
  cases st <;> rfl

theorem Stage.effort_mono {b b' : Nat} (h : b ≤ b') (now : Nat) (st : Stage σ) :
    st.effort b now ≤ st.effort b' now := by
  have htwice : 2 * b ≤ 2 * b' := Nat.mul_le_mul_left 2 h
  cases st with
  | scheduled due op => cases op <;> simp [effort, Operation.effort, h, htwice]
  | pulling due interval =>
    simp only [effort]
    split
    · exact Nat.add_le_add_left htwice 3
    · exact Nat.le_refl _
  | awaitingSweep => exact Nat.add_le_add_left htwice 1
  | _ => exact Nat.le_refl _

theorem Node.total_mono (n : Node σ) {f g : Stage σ → Nat} (h : ∀ st, f st ≤ g st) :
    n.total f ≤ n.total g :=
  List.sum_le_sum fun x _ => h x.2

/-- How often calls may still wake between two turns. -/
def Node.effort (n : Node σ) : Nat :=
  Midturn.effort (Midturn.capacity ⟨n, none, none⟩) n.time ⟨n, none, none⟩

/-- **Every call that wakes takes from what may still happen now,** as long as nobody pulls who
    is late. -/
theorem Node.effort_resume_lt [Registry σ] {I : Midturn σ → Prop}
    (orderly : ∀ {s}, I s → Orderly s)
    (timely : ∀ {s c p}, I s → s.running = some (c, p) → p.Timely s.node.time)
    (move : ∀ {s s'}, s.busy = true → I s → Move s s' → I s') {n : Node σ} {c : CallId}
    (wake : ∀ {st}, n.stage? c = some st → n.awake c st = true →
      I ⟨n.unrest c, some (c, st.point), none⟩)
    (h : n.isAwake c = true) : (n.resume c).effort < n.effort := by
  obtain ⟨st, rests, awake, onward⟩ := moves_resume n c h
  let b := Midturn.capacity (⟨n, none, none⟩ : Midturn σ)
  let woken : Midturn σ := ⟨n.unrest c, some (c, st.point), none⟩
  have hcapacity : woken.capacity ≤ b := by
    refine Nat.add_le_add_left ?_ _
    show (n.unrest c).total Stage.capacity + st.point.capacity ≤ n.total Stage.capacity + 0
    rw [st.capacity_point]
    exact Node.total_unrest _ rests
  have heffort : woken.effort b n.time < n.effort := by
    show (n.unrest c).total (Stage.effort b n.time) + st.point.effort b + 0 <
      n.total (Stage.effort b n.time) + 0 + 0
    have hless := Stage.effort_point_lt awake b
    have hrest := Node.total_unrest (Stage.effort b n.time) rests
    omega
  -- within the turn neither bound grows
  have hturn := onward.keeps (I := fun s => I s ∧ s.node.time = n.time ∧
      s.capacity ≤ b ∧ s.effort b n.time ≤ woken.effort b n.time)
    (fun {s s'} busy ⟨hs, htime, hcap, heff⟩ m => by
      have hmove := m.effort_le busy (timely hs) ((Nat.le_add_right ..).trans hcap)
      rw [htime] at hmove
      exact ⟨move busy hs m, (m.time (orderly hs)).trans htime, (m.capacity_le busy).trans hcap,
        hmove.trans heff⟩)
    ⟨wake rests awake, rfl, hcapacity, Nat.le_refl _⟩
  obtain ⟨-, htime, hcap, heff⟩ := hturn
  refine Nat.lt_of_le_of_lt (Nat.le_trans ?_ heff) heffort
  show (n.resume c).total (Stage.effort _ (n.resume c).time) + 0 + 0 ≤
    (n.resume c).total (Stage.effort b n.time) + 0 + 0
  rw [show (n.resume c).time = n.time from htime]
  exact Node.total_mono _ fun st => st.effort_mono hcap n.time

/-! ### What is bound to happen -/

namespace Node

variable [Registry σ]

/-- A turn that no new call takes. -/
inductive Advance : Node σ → Node σ → Prop where
  | resume (n : Node σ) (c : CallId) (h : n.isAwake c = true) : Advance n (n.resume c)
  | wait (n : Node σ) (due : Nat) (idle : n.nextAwake = none) (h : n.nextDue = some due) :
      Advance n { n with time := due }

/-- In whatever order the calls in flight take turns, they come to `P`. -/
inductive Inevitable (P : Node σ → Prop) : Node σ → Prop where
  | here {n : Node σ} (h : P n) : Inevitable P n
  | later {n m : Node σ} (go : Advance n m) (all : ∀ m, Advance n m → Inevitable P m) :
      Inevitable P n

theorem Advance.turn {n m : Node σ} (h : Advance n m) : Turn n m := by
  cases h with
  | resume c h => exact .resume n c h
  | wait due idle h => exact .wait n due idle h

omit [Registry σ] in
theorem exists_awake {n : Node σ} (h : n.nextAwake ≠ none) : ∃ c, n.isAwake c = true := by
  obtain ⟨c, hc⟩ := Option.ne_none_iff_exists'.mp h
  exact ⟨c, isAwake_of_nextAwake hc⟩

omit [Registry σ] in
/-- Time that passes passes for good. -/
theorem lt_nextDue {n : Node σ} (ho : Orderly (⟨n, none, none⟩ : Midturn σ))
    (idle : n.nextAwake = none) {due : Nat} (h : n.nextDue = some due) : n.time < due := by
  obtain ⟨c, st, hc, hd⟩ := exists_of_nextDue h
  have hasleep := not_awake_of_idle idle (ho.stage?_eq hc)
  cases st with
  | scheduled | sleeping | pulling | fetching =>
    cases hd
    exact Nat.lt_of_not_le (of_decide_eq_false hasleep)
  | _ => cases hd

theorem time_resume {n : Node σ} (ho : Orderly (⟨n, none, none⟩ : Midturn σ)) {c : CallId}
    (h : n.isAwake c = true) : (n.resume c).time = n.time :=
  ((moves_awake n c h).keeps (I := fun s => Orderly s ∧ s.node.time = n.time)
    (fun hs m => ⟨hs.1.move m, (m.time hs.1).trans hs.2⟩) ⟨ho, rfl⟩).2

/-- Either time comes closer to the deadline, or less is left to do until it passes. -/
theorem Advance.closer {n m : Node σ} (h : Advance n m)
    (steady : Steady (⟨n, none, none⟩ : Midturn σ)) {deadline : Nat}
    (hdue : ∀ {due}, n.nextAwake = none → n.nextDue = some due → due ≤ deadline) :
    Prod.Lex (· < ·) (· < ·) (deadline - m.time, m.effort) (deadline - n.time, n.effort) := by
  cases h with
  | resume c h =>
    rw [time_resume steady.sound.orderly h]
    have hless : (n.resume c).effort < n.effort :=
      effort_resume_lt (I := Steady) (fun hs => hs.sound.orderly) (fun hs => hs.punctual.running)
        (fun _ hs m => hs.move m) (fun rests awake => steady.move (.wake rests awake)) h
    exact .right _ hless
  | wait due idle h =>
    have hlt := lt_nextDue steady.sound.orderly idle h
    exact .left _ _ (Nat.sub_lt_sub_left (Nat.lt_of_lt_of_le hlt (hdue idle h)) hlt)

/-- **What time can not pass without is bound to happen.** -/
theorem inevitable_of_deadline {I P : Node σ → Prop} (deadline : Nat)
    (steady : ∀ {n}, I n → Steady (⟨n, none, none⟩ : Midturn σ))
    (keeps : ∀ {n m}, I n → Advance n m → I m)
    (due : ∀ {n}, I n → ¬ P n → n.nextAwake = none →
      ∃ due, n.nextDue = some due ∧ due ≤ deadline) {n : Node σ} (h : I n) :
    Inevitable P n := by
  by_cases hP : P n
  · exact .here hP
  · have next : ∃ m, Advance n m := by
      by_cases idle : n.nextAwake = none
      · obtain ⟨d, hd, -⟩ := due h hP idle
        exact ⟨_, .wait n d idle hd⟩
      · obtain ⟨c, hc⟩ := exists_awake idle
        exact ⟨_, .resume n c hc⟩
    obtain ⟨m, hm⟩ := next
    refine .later hm ?_
    intro m hm
    have hcloser := hm.closer (steady h) fun {d} idle hd => by
      obtain ⟨d', hd', hle⟩ := due h hP idle
      rw [hd] at hd'
      cases hd'
      exact hle
    exact inevitable_of_deadline deadline steady keeps due (keeps h hm)
-- Turns of one moment run out, and then time comes closer to the deadline.
termination_by (deadline - n.time, n.effort)
decreasing_by exact hcloser

end Node

end ServiceFinder
