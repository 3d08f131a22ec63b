/-
  ServiceFinder/Proofs/Node/Move.lean
  ===================================
  **A turn, move by move.**

  A call runs from one wait to the next without being interrupted, and `Node.start`
  and `Node.resume` do all of that at once.  To show that something holds whatever
  calls do, it is easier to look at the way between two waits: `Point` says what a
  running call is about to do, and `Move` lists every single thing that can happen,
  with the condition under which it does.  The moves that leave views, write locks and
  resting calls alone are set apart as `Quiet`.  Beginning a sweep is the one place
  where a call starts others; the members that are still to be started stand beside the
  call that runs.

  A turn of any call is a run of moves (`moves_resume`, `moves_starting`), so that a
  proof about what calls do has one case for each move and none for the functions that
  put moves together.
-/
import Mathlib.Logic.Relation
import ServiceFinder.Proofs.Node.Views

namespace ServiceFinder

/-! ### Running calls -/

/-- What the write lock of a view is wanted for. -/
inductive Job where
  | refresh (next : AfterRefresh)
  | change (change : InstanceChange) (next : AfterChange)

/-- What a call does once it has forgotten revisions. -/
inductive AfterForgetting where
  | answer
  /-- Refresh a view, on its own or for a sweep. -/
  | refresh (e : EntryId) (sweep? : Option CallId)

/-- What a call does once a refresh is over that was made for this sweep, if for any. -/
def AfterRefresh.of : Option CallId → AfterRefresh
  | none => .status
  | some sweep => .member sweep

/-- What a running call is about to do. -/
inductive Point (σ : Type) where
  | starting (op : Operation σ)
  | looking (key : ServiceKey) (next : AfterFirst)
  | ensuring (e : EntryId) (next : AfterFirst)
  /-- Get in line for the write lock. -/
  | lining (e : EntryId) (job : Job)
  /-- With the write lock, ask the registry. -/
  | asking (e : EntryId) (next : AfterRefresh)
  /-- With the write lock, take in the end of a lookup. -/
  | heard (e : EntryId) (outcome : Outcome) (next : AfterRefresh)
  | refreshed (e : EntryId) (status : CacheStatus) (next : AfterRefresh)
  /-- The first refresh of the view is over. -/
  | passed (e : EntryId) (next : AfterFirst)
  /-- With the sweep lock, begin a pass. -/
  | sweeping (forced : Bool)
  | closing (forced : Bool) (members : List Member)
  /-- Apply a change to one view after the other. -/
  | spreading (change : InstanceChange) (changed rest : List EntryId)
  /-- With the write lock, apply a change. -/
  | applying (e : EntryId) (change : InstanceChange) (next : AfterChange)
  | forgetting (es : List EntryId) (next : AfterForgetting)
  | ticking (due interval : Nat)
  | replying (reply : Reply)

/-- A node in the middle of a turn: the call that runs, and the sweep whose members
    are still to be started. -/
structure Midturn (σ : Type) where
  node : Node σ
  running : Option (CallId × Point σ) := none
  enlisting : Option (CallId × Bool × List EntryId) := none

namespace Job

variable {σ : Type}

/-- Where a call rests until it gets the lock. -/
def stage (e : EntryId) : Job → Stage σ
  | refresh next => .refreshing e next
  | change c next => .changing e c next

/-- What a call does with the lock. -/
def point (e : EntryId) : Job → Point σ
  | refresh next => .asking e next
  | change c next => .applying e c next

end Job

/-- What a call does next that rested here. -/
def Stage.point {σ : Type} : Stage σ → Point σ
  | .scheduled _ op => .starting op
  | .sleeping _ => .replying .done
  | .pulling due interval => .ticking due interval
  | .refreshing e next => .asking e next
  | .fetching e _ outcome next => .heard e outcome next
  | .changing e change next => .applying e change next
  | .awaitingFirst e next => .passed e next
  | .awaitingSweep => .sweeping true
  | .pass forced members => .closing forced members

namespace Node

variable {σ : Type}

/-- Where a call goes on that changes nothing now. -/
def turnsTo (n : Node σ) : Point σ → Option (Point σ)
  | .starting (.find key) => some (.looking key .view)
  | .starting (.choose key i) => some (.looking key (.choose i))
  | .starting (.change c) => some (.spreading c [] n.directory.views)
  | .starting (.ensureFirst e) => some (.ensuring e .done)
  | .starting (.refresh e) => some (.lining e (.refresh .status))
  | .starting (.forceRefresh e) => some (.forgetting [e] (.refresh e none))
  | .starting (.forgetRevision key) => some (.forgetting (n.directory.find? key).toList .answer)
  | .starting .forgetRevisions => some (.forgetting n.directory.views .answer)
  | .starting (.forgetRevisionOf e) => some (.forgetting [e] .answer)
  | .starting (.changeView e c) =>
    if (n.entry e).concerns c then some (.lining e (.change c .verdict))
    else some (.replying (.verdict none))
  | .looking key _ =>
    match key.check with
    | .error cause => some (.replying (.refused (.lookup cause)))
    | .ok () => none
  | .ensuring e next => if (n.entry e).firstRefresh = .over then some (.passed e next) else none
  | .refreshed _ status .status => some (.replying (.status status))
  | .passed _ .done => some (.replying .done)
  | .spreading c changed (e :: rest) =>
    if (n.entry e).concerns c then some (.lining e (.change c (.others rest changed)))
    else some (.spreading c changed rest)
  | .forgetting [] (.refresh e sweep?) => some (.lining e (.refresh (.of sweep?)))
  | .forgetting [] .answer => some (.replying .done)
  | _ => none

/-- The operations that answer at once and leave the views alone: the answer and the
    node afterwards. -/
def aside (n : Node σ) : Operation σ → Option (Reply × Node σ)
  | .get key =>
    some (match n.directory.find? key with
      | some e => .view e (n.entry e)
      | none => .noView, n)
  | .inspect e => some (.inspected (n.directory.holds e) (n.entry e), n)
  | .watch w => some (.done, { n with watcher := some w })
  | .sleep ms => if ms = 0 then some (.done, n) else none
  | .finish i success =>
    match n.selections.lookup i with
    | none => some (.noSelection, n)
    | some s =>
      let monitor := n.balancer.monitor.finish s.server.instanceId success s.invocation
      some (.stats (monitor.tracker.get? s.server.instanceId), n.setMonitor monitor)
  | .statsOf server => some (.stats (n.balancer.monitor.tracker.get? server), n)
  | .applyForPermit i =>
    let (granted, monitor) := n.balancer.monitor.apply i
    some (.flag granted, n.setMonitor monitor)
  | .checkAndReleasePermit i =>
    let (released, monitor) := n.balancer.monitor.checkAndRelease i
    some (.flag released, n.setMonitor monitor)
  | .releasePermit => some (.done, n.setMonitor n.balancer.monitor.release)
  | .setClock now => some (.done, n.setMonitor (n.balancer.monitor.setClock now))
  | .advanceClock d => some (.done, n.setMonitor (n.balancer.monitor.advanceClock d))
  | .registry act =>
    let (reply, registry) := act n.registry
    some (reply, { n with registry })
  | _ => none

/-- The choice of a server of a view: the answer and the node afterwards. -/
def choice (n : Node σ) (e : EntryId) (i : Invocation) : Reply × Node σ :=
  let (selection?, balancer) := n.balancer.choose (n.entry e).listing.instances i
  let n := { n with balancer }
  match selection? with
  | some s => (.selected s, { n with selections := (i, s) :: n.selections.filter (·.1 != i) })
  | none => (.refused (.noAvailableServer (n.entry e).key.display), n)

theorem choose_eq (n : Node σ) (c : CallId) (e : EntryId) (i : Invocation) :
    n.choose c e i = (n.choice e i).2.answer c (n.choice e i).1 := by
  unfold Node.choose choice
  rcases n.balancer.choose (n.entry e).listing.instances i with ⟨_ | s, balancer⟩ <;> rfl

/-- The members of a sweep once the one for `e` has reported. -/
def reported (members : List Member) (e : EntryId) (status : CacheStatus) : List Member :=
  members.map fun m => if m.entry = e then { m with status := some status } else m

/-- How the lookup for a view ends that begins now. -/
def outcomeFor [Registry σ] (n : Node σ) (e : EntryId) : Outcome :=
  outcomeWithin n.directory.options.fetchTimeout (Registry.lookup (n.entry e).key n.registry).1

/-- How long that lookup takes. -/
def waitFor [Registry σ] (n : Node σ) (e : EntryId) : Nat :=
  min (Registry.lookup (n.entry e).key n.registry).1.delay n.directory.options.fetchTimeout

/-- The node once a lookup has begun. -/
def asked [Registry σ] (n : Node σ) (c : CallId) (e : EntryId) (next : AfterRefresh) : Node σ :=
  { n with registry := (Registry.lookup (n.entry e).key n.registry).2 }.note (.fetchBegan c e next)

/-- A view and the status of its refresh once a lookup has ended. -/
def outcomeOn (n : Node σ) (e : EntryId) (o : Outcome) : Entry × CacheStatus :=
  (n.entry e).afterRefresh n.directory.options.policy o

/-- The node once a lookup has ended and the write lock is handed on. -/
def settled (n : Node σ) (c : CallId) (e : EntryId) (o : Outcome) (next : AfterRefresh) :
    Node σ :=
  ((((n.modifyEntry e fun _ => (n.outcomeOn e o).1).note
    (.refreshed c e next o (n.outcomeOn e o).2 (n.entry e).protection)).measure
      (.refreshed (n.outcomeOn e o).2)).releaseWriter e)

/-- The node once a view is made. -/
def created (n : Node σ) (key : ServiceKey) : Node σ :=
  { n with directory := n.directory.create key }.note (.created n.directory.entries.length)

/-- The node once the members of a pass have been published. -/
def closed (n : Node σ) (c : CallId) (members : List Member) : Node σ :=
  ((n.publish c (changedMembers members)).note
    (.sweepEnded c (changedMembers members))).releaseSweeper

end Node

/-! ### Moves -/

open Node in
/-- What the running call `c` does without touching a view, a write lock or a resting
    call. -/
inductive Quiet {σ : Type} (c : CallId) : Node σ → Point σ → Node σ → Point σ → Prop where
  | turn {n : Node σ} {p p'} (h : n.turnsTo p = some p') : Quiet c n p n p'
  | aside {n n' : Node σ} {op r} (h : n.aside op = some (r, n')) :
      Quiet c n (.starting op) n' (.replying r)
  | find {n : Node σ} {key next e} (valid : key.check = .ok ())
      (h : n.directory.find? key = some e) :
      Quiet c n (.looking key next) (n.measure (.cached n.directory.size)) (.ensuring e next)
  | view (n : Node σ) (e) :
      Quiet c n (.passed e .view) (n.evictIfGone e)
        (.replying (.view e ((n.evictIfGone e).entry e)))
  | choose (n : Node σ) (e i) :
      Quiet c n (.passed e (.choose i)) ((n.evictIfGone e).choice e i).2
        (.replying ((n.evictIfGone e).choice e i).1)
  | sweepFree {n : Node σ} (h : n.directory.sweepers = []) :
      Quiet c n (.starting .sweep) (n.queueSweeper c) (.sweeping false)
  | sweepTaken {n : Node σ} (h : n.directory.sweepers ≠ []) :
      Quiet c n (.starting .sweep) ((n.note (.sweepDropped c)).measure .sweepDropped)
        (.replying (.swept false))
  | forceFree {n : Node σ} (h : (n.queueSweeper c).sweeps c = true) :
      Quiet c n (.starting .forceSweep) (n.queueSweeper c) (.sweeping true)
  | sweepNone {n : Node σ} {forced} (h : n.directory.initialized = []) :
      Quiet c n (.sweeping forced) (n.note (.sweepBegan c [])) (.closing forced [])
  | close (n : Node σ) (forced members) :
      Quiet c n (.closing forced members) (n.closed c members)
        (.replying (if forced then .done else .swept true))
  | publish (n : Node σ) (change changed) :
      Quiet c n (.spreading change changed []) (n.publish c changed) (.replying .done)

open Node in
/-- What can happen in the middle of a turn, and how a turn begins. -/
inductive Move {σ : Type} [Registry σ] : Midturn σ → Midturn σ → Prop where
  -- The beginning of a turn
  | call (n : Node σ) (op : Operation σ) :
      Move ⟨n, none, none⟩ ⟨n.newCall.2, some (n.nextCall, .starting op), none⟩
  | callAfter (n : Node σ) (wait : Nat) (op : Operation σ) :
      Move ⟨n, none, none⟩ ⟨(n.callAfter wait op).2, none, none⟩
  | wake {n : Node σ} {c : CallId} {s : Stage σ} (rests : n.stage? c = some s)
      (awake : n.awake c s = true) :
      Move ⟨n, none, none⟩ ⟨n.unrest c, some (c, s.point), none⟩
  -- Any call
  | quiet {n n' : Node σ} {c k p p'} (h : Quiet c n p n' p') :
      Move ⟨n, some (c, p), k⟩ ⟨n', some (c, p'), k⟩
  | answer (n : Node σ) (c k r) : Move ⟨n, some (c, .replying r), k⟩ ⟨n.answer c r, none, k⟩
  | protect (n : Node σ) (c k on) :
      Move ⟨n, some (c, .starting (.safeMode on)), k⟩
        ⟨{ n with directory := n.directory.protect on }, some (c, .replying .done), k⟩
  | protectView (n : Node σ) (c k e on) :
      Move ⟨n, some (c, .starting (.protectView e on)), k⟩
        ⟨n.modifyEntry e ({ · with protection := on }), some (c, .replying .done), k⟩
  | forget (n : Node σ) (c k e es next) :
      Move ⟨n, some (c, .forgetting (e :: es) next), k⟩
        ⟨n.forget e, some (c, .forgetting es next), k⟩
  -- Time
  | sleep (n : Node σ) (c k) {ms : Nat} (h : ms ≠ 0) :
      Move ⟨n, some (c, .starting (.sleep ms)), k⟩
        ⟨n.rest c (.sleeping (n.time + Timer.run ms)), none, k⟩
  | startPuller (n : Node σ) (c k interval) :
      Move ⟨n, some (c, .starting (.startPuller interval)), k⟩
        ⟨n.startPuller interval, some (c, .replying (.interval interval)), k⟩
  | stopPuller (n : Node σ) (c k) :
      Move ⟨n, some (c, .starting .stopPuller), k⟩
        ⟨n.stopPuller, some (c, .replying .done), k⟩
  | tick (n : Node σ) (c k due interval) :
      Move ⟨n, some (c, .ticking due interval), k⟩ ⟨n.tick c due interval, none, k⟩
  -- Lookups
  | create {n : Node σ} {c k key next} (valid : key.check = .ok ())
      (h : n.directory.find? key = none) :
      Move ⟨n, some (c, .looking key next), k⟩
        ⟨(n.created key).measure (.cached (n.created key).directory.size),
          some (c, .ensuring n.directory.entries.length next), k⟩
  | awaitFirst {n : Node σ} {c k e next} (h : (n.entry e).firstRefresh = .running) :
      Move ⟨n, some (c, .ensuring e next), k⟩ ⟨n.rest c (.awaitingFirst e next), none, k⟩
  | beginFirst {n : Node σ} {c k e next} (h : (n.entry e).firstRefresh = .pending) :
      Move ⟨n, some (c, .ensuring e next), k⟩
        ⟨n.modifyEntry e ({ · with firstRefresh := .running }),
          some (c, .lining e (.refresh (.first next))), k⟩
  | endFirst (n : Node σ) (c k e status next) :
      Move ⟨n, some (c, .refreshed e status (.first next)), k⟩
        ⟨n.modifyEntry e ({ · with firstRefresh := .over }), some (c, .passed e next), k⟩
  -- The write lock
  | lock {n : Node σ} {c k e job} (h : (n.queueWriter c e).writes c e = true) :
      Move ⟨n, some (c, .lining e job), k⟩ ⟨n.queueWriter c e, some (c, job.point e), k⟩
  | wait {n : Node σ} {c k e job} (h : (n.queueWriter c e).writes c e = false) :
      Move ⟨n, some (c, .lining e job), k⟩
        ⟨(n.queueWriter c e).rest c (job.stage e), none, k⟩
  -- Refreshes
  | askNow {n : Node σ} {c k e next} (h : n.waitFor e = 0) :
      Move ⟨n, some (c, .asking e next), k⟩
        ⟨n.asked c e next, some (c, .heard e (n.outcomeFor e) next), k⟩
  | ask {n : Node σ} {c k e next} (h : n.waitFor e ≠ 0) :
      Move ⟨n, some (c, .asking e next), k⟩
        ⟨(n.asked c e next).rest c (.fetching e (n.time + n.waitFor e) (n.outcomeFor e) next),
          none, k⟩
  | hear (n : Node σ) (c k e o next) :
      Move ⟨n, some (c, .heard e o next), k⟩
        ⟨n.settled c e o next, some (c, .refreshed e (n.outcomeOn e o).2 next), k⟩
  -- Sweeps
  | forceWait {n : Node σ} {c k} (h : (n.queueSweeper c).sweeps c = false) :
      Move ⟨n, some (c, .starting .forceSweep), k⟩
        ⟨(n.queueSweeper c).rest c .awaitingSweep, none, k⟩
  | sweepSome {n : Node σ} {c forced} (h : n.directory.initialized ≠ []) :
      Move ⟨n, some (c, .sweeping forced), none⟩
        ⟨(n.note (.sweepBegan c n.directory.initialized)).rest c
          (.pass forced (n.directory.initialized.map ({ entry := · }))), none,
          some (c, forced, n.directory.initialized)⟩
  | enlist (n : Node σ) (sweep forced e rest) :
      Move ⟨n, none, some (sweep, forced, e :: rest)⟩
        ⟨n.newCall.2,
          some (n.nextCall, .forgetting (if forced then [e] else []) (.refresh e (some sweep))),
          some (sweep, forced, rest)⟩
  | enlisted (n : Node σ) (sweep forced) :
      Move ⟨n, none, some (sweep, forced, [])⟩ ⟨n, none, none⟩
  | member {n : Node σ} {c k e status sweep forced members}
      (rests : n.stage? sweep = some (.pass forced members))
      (h : (reported members e status).all (·.status.isSome) = false) :
      Move ⟨n, some (c, .refreshed e status (.member sweep)), k⟩
        ⟨(n.unrest sweep).rest sweep (.pass forced (reported members e status)), none, k⟩
  | lastMember {n : Node σ} {c k e status sweep forced members}
      (rests : n.stage? sweep = some (.pass forced members))
      (h : (reported members e status).all (·.status.isSome) = true) :
      Move ⟨n, some (c, .refreshed e status (.member sweep)), k⟩
        ⟨n.unrest sweep, some (sweep, .closing forced (reported members e status)), k⟩
  | stray {n : Node σ} {c k e status sweep}
      (h : ∀ forced members, n.stage? sweep ≠ some (.pass forced members)) :
      Move ⟨n, some (c, .refreshed e status (.member sweep)), k⟩ ⟨n, none, k⟩
  -- Changes
  | apply (n : Node σ) (c k e change) :
      Move ⟨n, some (c, .applying e change .verdict), k⟩
        ⟨(n.applyChange c e change).2,
          some (c, .replying (.verdict (n.applyChange c e change).1)), k⟩
  | applyNext (n : Node σ) (c k e change rest changed) :
      Move ⟨n, some (c, .applying e change (.others rest changed)), k⟩
        ⟨(n.applyChange c e change).2,
          some (c, .spreading change (withChanged changed e (n.applyChange c e change).1) rest), k⟩

/-! ### What quiet moves leave alone -/

/-- The view in whose line for the write lock a resting call stands. -/
def Stage.line? {σ : Type} : Stage σ → Option EntryId
  | .refreshing e _ | .fetching e _ _ _ | .changing e _ _ => some e
  | _ => none

/-- The view whose write lock a resting call certainly has. -/
def Stage.holds? {σ : Type} : Stage σ → Option EntryId
  | .fetching e _ _ _ => some e
  | _ => none

/-- The view whose write lock a running call has. -/
def Point.holds? {σ : Type} : Point σ → Option EntryId
  | .asking e _ | .heard e _ _ | .applying e _ _ => some e
  | _ => none

@[simp] theorem Stage.holds?_point {σ : Type} (s : Stage σ) : s.point.holds? = s.line? := by
  cases s <;> rfl

@[simp] theorem Job.holds?_point {σ : Type} (e : EntryId) (job : Job) :
    (job.point e : Point σ).holds? = some e := by
  cases job <;> rfl

@[simp] theorem Job.line?_stage {σ : Type} (e : EntryId) (job : Job) :
    (job.stage e : Stage σ).line? = some e := by
  cases job <;> rfl

@[simp] theorem Job.holds?_stage {σ : Type} (e : EntryId) (job : Job) :
    (job.stage e : Stage σ).holds? = none := by
  cases job <;> rfl

/-- An answer on the side changes neither the views nor the calls. -/
theorem Node.rest_of_aside {σ : Type} {n n' : Node σ} {op : Operation σ} {r : Reply}
    (h : n.aside op = some (r, n')) :
    n'.directory = n.directory ∧ n'.calls = n.calls ∧ n'.nextCall = n.nextCall ∧
      n'.replies = n.replies ∧ n'.time = n.time ∧ n'.journal = n.journal := by
  cases op with
  | sleep ms =>
    simp only [aside] at h
    split at h
    · cases h; exact ⟨rfl, rfl, rfl, rfl, rfl, rfl⟩
    · cases h
  | finish i success =>
    simp only [aside] at h
    split at h
    · cases h; exact ⟨rfl, rfl, rfl, rfl, rfl, rfl⟩
    · cases h; exact ⟨rfl, rfl, rfl, rfl, rfl, rfl⟩
  | get | inspect | watch | statsOf | applyForPermit | checkAndReleasePermit | releasePermit
  | setClock | advanceClock | registry =>
    cases h
    exact ⟨rfl, rfl, rfl, rfl, rfl, rfl⟩
  | _ => cases h

theorem Node.rest_of_choice {σ : Type} (n : Node σ) (e : EntryId) (i : Invocation) :
    (n.choice e i).2.directory = n.directory ∧ (n.choice e i).2.calls = n.calls ∧
      (n.choice e i).2.nextCall = n.nextCall ∧ (n.choice e i).2.replies = n.replies ∧
      (n.choice e i).2.time = n.time ∧ (n.choice e i).2.journal = n.journal := by
  unfold choice
  rcases n.balancer.choose (n.entry e).listing.instances i with ⟨_ | s, balancer⟩ <;>
    exact ⟨rfl, rfl, rfl, rfl, rfl, rfl⟩

theorem Quiet.still {σ : Type} {c : CallId} {n n' : Node σ} {p p' : Point σ}
    (h : Quiet c n p n' p') : n.Still n' := by
  cases h with
  | turn h => exact .refl n
  | aside h =>
    obtain ⟨hviews, hcalls, hnext, hreplies, htime, hjournal⟩ := Node.rest_of_aside h
    exact ⟨by rw [hviews], by rw [hviews], hcalls, hnext, hreplies, htime, [], hjournal, by simp⟩
  | find valid h => exact ⟨rfl, rfl, rfl, rfl, rfl, rfl, [], rfl, by simp⟩
  | view e => exact n.still_evictIfGone e
  | choose e i =>
    obtain ⟨hviews, hcalls, hnext, hreplies, htime, hjournal⟩ :=
      Node.rest_of_choice (n.evictIfGone e) e i
    refine (n.still_evictIfGone e).trans ?_
    exact ⟨by rw [hviews], by rw [hviews], hcalls, hnext, hreplies, htime, [], hjournal, by simp⟩
  | sweepFree h => exact ⟨rfl, rfl, rfl, rfl, rfl, rfl, [], rfl, by simp⟩
  | sweepTaken h =>
    exact ⟨rfl, rfl, rfl, rfl, rfl, rfl, [⟨n.time, .sweepDropped c⟩], rfl,
      by simp [Happening.view?]⟩
  | forceFree h => exact ⟨rfl, rfl, rfl, rfl, rfl, rfl, [], rfl, by simp⟩
  | sweepNone h => exact n.still_note _ rfl
  | close forced members =>
    have ended := (n.publish c (Node.changedMembers members)).still_note
      (.sweepEnded c (Node.changedMembers members)) rfl
    refine ((n.still_publish c (Node.changedMembers members)).trans ended).trans ?_
    exact ⟨rfl, rfl, rfl, rfl, rfl, rfl, [], rfl, by simp⟩
  | publish change changed => exact n.still_publish c changed

theorem Node.holds?_of_turnsTo {σ : Type} {n : Node σ} {p p' : Point σ}
    (h : n.turnsTo p = some p') : p.holds? = none ∧ p'.holds? = none := by
  unfold turnsTo at h
  split at h
  all_goals first
    | (cases h; exact ⟨rfl, rfl⟩)
    | (split at h <;> cases h <;> exact ⟨rfl, rfl⟩)
    | cases h

theorem Quiet.holds? {σ : Type} {c : CallId} {n n' : Node σ} {p p' : Point σ}
    (h : Quiet c n p n' p') : p.holds? = none ∧ p'.holds? = none := by
  cases h with
  | turn h => exact Node.holds?_of_turnsTo h
  | _ => exact ⟨rfl, rfl⟩

/-! ### Runs of moves -/

/-- Whether a turn is under way. -/
def Midturn.busy {σ : Type} (s : Midturn σ) : Bool := s.running.isSome || s.enlisting.isSome

section Runs

variable {σ : Type} [Registry σ]

/-- A run of moves. -/
abbrev Moves : Midturn σ → Midturn σ → Prop := Relation.ReflTransGen Move

/-- A run of moves that begins no turn. -/
abbrev Onward : Midturn σ → Midturn σ → Prop :=
  Relation.ReflTransGen fun s s' => s.busy = true ∧ Move s s'

theorem Onward.moves {s s' : Midturn σ} (h : Onward s s') : Moves s s' :=
  Relation.ReflTransGen.mono (fun _ _ m => m.2) _ _ h

end Runs

end ServiceFinder
