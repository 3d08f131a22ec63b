/-
  ServiceFinder/Node/Basic.lean
  =============================
  **A consumer's node: everything it knows, and every call in flight.**

  Calls on a node overlap.  A call runs until it has to wait and then rests in a
  `Stage`, which says what it waits for and what it does next.  The waiting places
  are few: the write lock of a view, a lookup at the registry, another call's first
  refresh of a view, the sweep lock, the members of a sweep, and the passing of
  time.  Between two waits a call is never interrupted.

  Time here is the time that lookups and sleeps take, in milliseconds since the node
  came up; the clock that statistics are stamped with is the monitor's own.

  `journal` remembers what happened, latest first; nothing the node does depends on
  it.
-/
import ServiceFinder.Balance.Selection
import ServiceFinder.Directory.Basic

namespace ServiceFinder

/-- Who is told about changed views. -/
inductive Watcher where
  | named (name : String)
  /-- The balancer, which forgets the statistics of servers that no cached view
      lists. -/
  | balancer
deriving DecidableEq, Repr

/-- What a call answers. -/
inductive Reply where
  | done
  | flag (value : Bool)
  /-- Whether a periodic sweep ran. -/
  | swept (ran : Bool)
  | status (status : CacheStatus)
  /-- How a change went for one view. -/
  | verdict (status : Option CacheStatus)
  /-- A view, as it was when the call answered. -/
  | view (e : EntryId) (entry : Entry)
  | noView
  /-- Whether the view is cached, and what it shows. -/
  | inspected (cached : Bool) (entry : Entry)
  | selected (selection : Selection)
  | refused (cause : SelectionFailure)
  | server (server : Instance)
  | stats (stats : Option ServerStats)
  | noSelection
  /-- The time between two pulls. -/
  | interval (ms : Nat)
deriving DecidableEq, Repr

/-- What can be asked of a node over a registry of type `σ`. -/
inductive Operation (σ : Type) where
  -- Cached views
  | find (key : ServiceKey)
  | get (key : ServiceKey)
  | inspect (e : EntryId)
  | sweep
  | forceSweep
  | change (change : InstanceChange)
  | safeMode (on : Bool)
  | forgetRevision (key : ServiceKey)
  | forgetRevisions
  | watch (watcher : Watcher)
  -- One view, by whoever holds it
  | ensureFirst (e : EntryId)
  | refresh (e : EntryId)
  | forceRefresh (e : EntryId)
  | changeView (e : EntryId) (change : InstanceChange)
  | forgetRevisionOf (e : EntryId)
  | protectView (e : EntryId) (on : Bool)
  -- Time
  | sleep (ms : Nat)
  | startPuller (interval : Nat)
  | stopPuller
  -- Servers
  | choose (key : ServiceKey) (invocation : Invocation)
  | finish (invocation : Invocation) (success : Bool)
  | statsOf (server : String)
  | applyForPermit (invocation : Invocation)
  | checkAndReleasePermit (invocation : Invocation)
  | releasePermit
  | setClock (now : Millis)
  | advanceClock (d : Millis)
  -- The registry itself
  | registry (act : σ → Reply × σ)

/-- What a lookup does once the first refresh of its view is over. -/
inductive AfterFirst where
  /-- Nothing but answer. -/
  | done
  /-- Hand out the view. -/
  | view
  | choose (invocation : Invocation)
deriving DecidableEq, Repr

/-- What a call does once its refresh of a view is over. -/
inductive AfterRefresh where
  | status
  /-- It was the view's first refresh. -/
  | first (next : AfterFirst)
  /-- It was made for a sweep. -/
  | member (sweep : CallId)
deriving DecidableEq, Repr

/-- What a call does once it has applied a change to a view. -/
inductive AfterChange where
  | verdict
  /-- Go on with the other views; some have changed already. -/
  | others (rest changed : List EntryId)
deriving DecidableEq, Repr

/-- A view that a sweep refreshes, and the status once its refresh is over. -/
structure Member where
  entry : EntryId
  status : Option CacheStatus := none
deriving DecidableEq, Repr

/-- Where a call rests. -/
inductive Stage (σ : Type) where
  /-- To start at a time. -/
  | scheduled (due : Nat) (op : Operation σ)
  | sleeping (due : Nat)
  /-- The puller, until its next sweep. -/
  | pulling (due interval : Nat)
  /-- In line for the write lock of a view, to refresh it. -/
  | refreshing (e : EntryId) (next : AfterRefresh)
  /-- With the write lock, until the registry has answered or time is up. -/
  | fetching (e : EntryId) (due : Nat) (outcome : Outcome) (next : AfterRefresh)
  /-- In line for the write lock of a view, to apply a change. -/
  | changing (e : EntryId) (change : InstanceChange) (next : AfterChange)
  /-- Until the first refresh of a view, made by another call, is over. -/
  | awaitingFirst (e : EntryId) (next : AfterFirst)
  /-- In line for the sweep lock. -/
  | awaitingSweep
  /-- With the sweep lock, until the refreshes of all members are over. -/
  | pass (forced : Bool) (members : List Member)

/-- What happens on a node. -/
inductive Happening where
  | created (e : EntryId)
  /-- A lookup at the registry began, for a refresh that goes on with `next`. -/
  | fetchBegan (c : CallId) (e : EntryId) (next : AfterRefresh)
  /-- A refresh of a view is over; `guarded` says whether the view was protected. -/
  | refreshed (c : CallId) (e : EntryId) (next : AfterRefresh) (outcome : Outcome)
      (status : CacheStatus) (guarded : Bool)
  /-- A change was applied to a view. -/
  | changed (c : CallId) (e : EntryId) (change : InstanceChange)
      (verdict : Option CacheStatus)
  /-- The revision of a view was forgotten on request. -/
  | forgot (e : EntryId)
  | evicted (e : EntryId)
  | sweepBegan (c : CallId) (members : List EntryId)
  | sweepEnded (c : CallId) (changed : List EntryId)
  | sweepDropped (c : CallId)
  /-- The watcher was told about these views, as they were then. -/
  | notified (c : CallId) (watcher : Watcher) (changed : List (EntryId × Entry))
  /-- The puller asked for a sweep. -/
  | pulled (c : CallId)
deriving DecidableEq, Repr

structure JournalLine where
  time : Nat
  what : Happening
deriving DecidableEq, Repr

structure Replied where
  call : CallId
  time : Nat
  reply : Reply
deriving DecidableEq, Repr

structure Node (σ : Type) where
  registry : σ
  time : Nat := 0
  directory : Directory := {}
  balancer : Balancer := {}
  /-- The latest selection of each invocation. -/
  selections : List (Invocation × Selection) := []
  watcher : Option Watcher := none
  /-- The calls in flight, those that have rested longest first. -/
  calls : List (CallId × Stage σ) := []
  nextCall : CallId := 0
  /-- The calls that have answered, latest first. -/
  replies : List Replied := []
  measured : List Measurement := []
  journal : List JournalLine := []

namespace Node

variable {σ : Type}

def entry (n : Node σ) (e : EntryId) : Entry := n.directory.entry e

def stage? (n : Node σ) (c : CallId) : Option (Stage σ) := n.calls.lookup c

def reply? (n : Node σ) (c : CallId) : Option Replied := n.replies.find? (·.call == c)

/-! ### Bookkeeping -/

def note (n : Node σ) (what : Happening) : Node σ :=
  { n with journal := ⟨n.time, what⟩ :: n.journal }

def measure (n : Node σ) (m : Measurement) : Node σ :=
  { n with measured := m :: n.measured }

/-- Answer a call. -/
def answer (n : Node σ) (c : CallId) (r : Reply) : Node σ :=
  { n with replies := ⟨c, n.time, r⟩ :: n.replies }

/-- Let a call rest. -/
def rest (n : Node σ) (c : CallId) (s : Stage σ) : Node σ :=
  { n with calls := n.calls ++ [(c, s)] }

/-- Take a call out of its stage. -/
def unrest (n : Node σ) (c : CallId) : Node σ :=
  { n with calls := n.calls.filter (·.1 != c) }

/-- The number of a new call. -/
def newCall (n : Node σ) : CallId × Node σ := (n.nextCall, { n with nextCall := n.nextCall + 1 })

def modifyEntry (n : Node σ) (e : EntryId) (f : Entry → Entry) : Node σ :=
  { n with directory := n.directory.modify e f }

/-- Forget the revision of a view. -/
def forget (n : Node σ) (e : EntryId) : Node σ :=
  (n.modifyEntry e Entry.forgetRevision).note (.forgot e)

def setMonitor (n : Node σ) (monitor : Monitor) : Node σ :=
  { n with balancer := { n.balancer with monitor } }

/-! ### Locks -/

/-- Get in line for the write lock of a view. -/
def queueWriter (n : Node σ) (c : CallId) (e : EntryId) : Node σ :=
  n.modifyEntry e fun x => { x with writers := x.writers ++ [c] }

/-- Whether a call has the write lock of a view. -/
def writes (n : Node σ) (c : CallId) (e : EntryId) : Bool := (n.entry e).writers.head? == some c

/-- Hand the write lock of a view on to the next in line. -/
def releaseWriter (n : Node σ) (e : EntryId) : Node σ :=
  n.modifyEntry e fun x => { x with writers := x.writers.tail }

def queueSweeper (n : Node σ) (c : CallId) : Node σ :=
  { n with directory := { n.directory with sweepers := n.directory.sweepers ++ [c] } }

/-- Whether a call has the sweep lock. -/
def sweeps (n : Node σ) (c : CallId) : Bool := n.directory.sweepers.head? == some c

/-- Hand the sweep lock on to the next in line. -/
def releaseSweeper (n : Node σ) : Node σ :=
  { n with directory := { n.directory with sweepers := n.directory.sweepers.tail } }

end Node

end ServiceFinder
