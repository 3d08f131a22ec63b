/-
  ServiceFinder/Node/Call.lean
  ============================
  **What calls do between two waits.**

  Each function here takes a call from one waiting place to the next, or to its
  answer.  They build on each other from the end of a call back to its start:
  telling the watcher, answering a lookup, ending a refresh, starting one, sweeping,
  and last `start`, the beginning of every operation, and `resume`, what a call does
  when its wait is over.
-/
import ServiceFinder.Node.Basic
import ServiceFinder.Timer

namespace ServiceFinder

namespace Node

variable {σ : Type}

/-! ### Evicting and telling -/

/-- Drop a view from the cache; a newer view under the same key stays. -/
def evict (n : Node σ) (e : EntryId) : Node σ :=
  if n.directory.holds e then
    let n := { n with directory := n.directory.drop e }
    ((n.note (.evicted e)).measure .evicted).measure (.cached n.directory.size)
  else n

/-- Drop a view whose service is gone. -/
def evictIfGone (n : Node σ) (e : EntryId) : Node σ :=
  if (n.entry e).status = .serviceNotFound then n.evict e else n

/-- Tell the watcher which views changed, if any did. -/
def notify (n : Node σ) (c : CallId) (changed : List EntryId) : Node σ :=
  match changed, n.watcher with
  | [], _ | _, none => n
  | changed, some w =>
    let n := n.note (.notified c w (changed.map fun e => (e, n.entry e)))
    match w with
    | .named _ => n
    | .balancer => n.setMonitor (n.balancer.monitor.retain n.directory.liveInstances)

/-- What a sweep or a change does with the views that it changed. -/
def publish (n : Node σ) (c : CallId) (changed : List EntryId) : Node σ :=
  (changed.foldl evictIfGone n).notify c changed

/-! ### Lookups -/

/-- Choose a server of a view and remember the selection under its invocation. -/
def choose (n : Node σ) (c : CallId) (e : EntryId) (i : Invocation) : Node σ :=
  let (selection?, balancer) := n.balancer.choose (n.entry e).listing.instances i
  let n := { n with balancer }
  match selection? with
  | some s =>
    { n with selections := (i, s) :: n.selections.filter (·.1 != i) }.answer c (.selected s)
  | none => n.answer c (.refused (.noAvailableServer (n.entry e).key.display))

/-- The first refresh of a view is over. -/
def afterFirst (n : Node σ) (c : CallId) (e : EntryId) : AfterFirst → Node σ
  | .done => n.answer c .done
  | .view => let n := n.evictIfGone e; n.answer c (.view e (n.entry e))
  | .choose i => (n.evictIfGone e).choose c e i

/-! ### Refreshing a view -/

/-- The members whose refresh changed something that a watcher is told about. -/
def changedMembers (members : List Member) : List EntryId :=
  (members.filter fun m => m.status.any CacheStatus.isChanged).map (·.entry)

/-- All members are refreshed: publish, and hand the sweep lock on. -/
def endPass (n : Node σ) (c : CallId) (forced : Bool) (members : List Member) : Node σ :=
  let changed := changedMembers members
  let n := ((n.publish c changed).note (.sweepEnded c changed)).releaseSweeper
  n.answer c (if forced then .done else .swept true)

/-- A member of a sweep is refreshed; the last one ends the sweep. -/
def memberDone (n : Node σ) (sweep : CallId) (e : EntryId) (status : CacheStatus) : Node σ :=
  match n.stage? sweep with
  | some (.pass forced members) =>
    let members := members.map fun m => if m.entry = e then { m with status := some status } else m
    if members.all (·.status.isSome) then (n.unrest sweep).endPass sweep forced members
    else (n.unrest sweep).rest sweep (.pass forced members)
  | _ => n

/-- A refresh of a view is over, and so is its hold on the write lock. -/
def afterRefresh (n : Node σ) (c : CallId) (e : EntryId) (status : CacheStatus) :
    AfterRefresh → Node σ
  | .status => n.answer c (.status status)
  | .first next => (n.modifyEntry e ({ · with firstRefresh := .over })).afterFirst c e next
  | .member sweep => n.memberDone sweep e status

/-- The registry has answered, or time is up. -/
def endFetch (n : Node σ) (c : CallId) (e : EntryId) (o : Outcome) (next : AfterRefresh) :
    Node σ :=
  let guarded := (n.entry e).protection
  let (x, status) := (n.entry e).afterRefresh n.directory.options.policy o
  let n := (n.modifyEntry e fun _ => x).note (.refreshed c e next o status guarded)
  ((n.measure (.refreshed status)).releaseWriter e).afterRefresh c e status next

/-- How a lookup ends that may take `timeout`: an answer that takes just as long
    still counts. -/
def outcomeWithin (timeout : Nat) (d : Delivery) : Outcome :=
  if d.delay ≤ timeout then .answered d.answer else .timedOut

/-- With the write lock in hand, ask the registry. -/
def fetch [Registry σ] (n : Node σ) (c : CallId) (e : EntryId) (next : AfterRefresh) : Node σ :=
  let (delivery, registry) := Registry.lookup (n.entry e).key n.registry
  let timeout := n.directory.options.fetchTimeout
  let n := { n with registry }.note (.fetchBegan c e next)
  let outcome := outcomeWithin timeout delivery
  let wait := min delivery.delay timeout
  if wait = 0 then n.endFetch c e outcome next
  else n.rest c (.fetching e (n.time + wait) outcome next)

/-- Refresh a view as soon as its write lock is free. -/
def refresh [Registry σ] (n : Node σ) (c : CallId) (e : EntryId) (next : AfterRefresh) : Node σ :=
  let n := n.queueWriter c e
  if n.writes c e then n.fetch c e next else n.rest c (.refreshing e next)

/-- See to it that a view has been refreshed once; only the first call to come here
    does it. -/
def ensureFirst [Registry σ] (n : Node σ) (c : CallId) (e : EntryId) (next : AfterFirst) :
    Node σ :=
  match (n.entry e).firstRefresh with
  | .over => n.afterFirst c e next
  | .running => n.rest c (.awaitingFirst e next)
  | .pending =>
    (n.modifyEntry e ({ · with firstRefresh := .running })).refresh c e (.first next)

/-- Look a key up, making its view if there is none. -/
def lookup [Registry σ] (n : Node σ) (c : CallId) (key : ServiceKey) (next : AfterFirst) :
    Node σ :=
  match key.check with
  | .error cause => n.answer c (.refused (.lookup cause))
  | .ok () =>
    let (e, n) := match n.directory.find? key with
      | some e => (e, n)
      | none =>
        let e := n.directory.entries.length
        (e, { n with directory := n.directory.create key }.note (.created e))
    (n.measure (.cached n.directory.size)).ensureFirst c e next

/-! ### Sweeps -/

/-- Refresh one member of a sweep. -/
def startMember [Registry σ] (sweep : CallId) (forced : Bool) (n : Node σ) (e : EntryId) :
    Node σ :=
  let (c, n) := n.newCall
  let n := if forced then n.forget e else n
  n.refresh c e (.member sweep)

/-- With the sweep lock in hand, refresh every initialized view at once. -/
def beginPass [Registry σ] (n : Node σ) (c : CallId) (forced : Bool) : Node σ :=
  let views := n.directory.initialized
  let n := n.note (.sweepBegan c views)
  match views with
  | [] => n.endPass c forced []
  | views => views.foldl (startMember c forced) (n.rest c (.pass forced (views.map ({ entry := · }))))

/-- A periodic sweep, skipped when the sweep lock is taken. -/
def sweep [Registry σ] (n : Node σ) (c : CallId) : Node σ :=
  if n.directory.sweepers.isEmpty then (n.queueSweeper c).beginPass c false
  else ((n.note (.sweepDropped c)).measure .sweepDropped).answer c (.swept false)

/-- A sweep that waits its turn. -/
def forceSweep [Registry σ] (n : Node σ) (c : CallId) : Node σ :=
  let n := n.queueSweeper c
  if n.sweeps c then n.beginPass c true else n.rest c .awaitingSweep

/-! ### Pushed changes -/

/-- With the write lock in hand, apply a change to a view and hand the lock on. -/
def applyChange (n : Node σ) (c : CallId) (e : EntryId) (change : InstanceChange) :
    Option CacheStatus × Node σ :=
  let (x, verdict) := (n.entry e).afterChange n.directory.options.policy change
  (verdict, ((n.modifyEntry e fun _ => x).note (.changed c e change verdict)).releaseWriter e)

/-- The views changed so far, after one more. -/
def withChanged (changed : List EntryId) (e : EntryId) (verdict : Option CacheStatus) :
    List EntryId :=
  if verdict.any CacheStatus.isChanged then changed ++ [e] else changed

/-- Apply a change to one view after the other, waiting for each one's write lock. -/
def changeViews (n : Node σ) (c : CallId) (change : InstanceChange) (changed : List EntryId) :
    List EntryId → Node σ
  | [] => (n.publish c changed).answer c .done
  | e :: rest =>
    if (n.entry e).concerns change then
      let n := n.queueWriter c e
      if n.writes c e then
        let (verdict, n) := n.applyChange c e change
        n.changeViews c change (withChanged changed e verdict) rest
      else n.rest c (.changing e change (.others rest changed))
    else n.changeViews c change changed rest

/-- Apply a change to one view alone. -/
def changeView (n : Node σ) (c : CallId) (e : EntryId) (change : InstanceChange) : Node σ :=
  if (n.entry e).concerns change then
    let n := n.queueWriter c e
    if n.writes c e then
      let (verdict, n) := n.applyChange c e change
      n.answer c (.verdict verdict)
    else n.rest c (.changing e change .verdict)
  else n.answer c (.verdict none)

/-! ### Starting and resuming -/

/-- Stop pulling. -/
def stopPuller (n : Node σ) : Node σ :=
  { n with calls := n.calls.filter fun x => match x.2 with | .pulling .. => false | _ => true }

/-- Pull every `interval` milliseconds, first after one interval, which no timer cuts
    short; an interval of zero pulls never. -/
def startPuller (n : Node σ) (interval : Nat) : Node σ :=
  let (c, n) := n.stopPuller.newCall
  if interval = 0 then n else n.rest c (.pulling (n.time + interval) interval)

/-- Report how the invocation of the selection made for `i` ended. -/
def finish (n : Node σ) (c : CallId) (i : Invocation) (success : Bool) : Node σ :=
  match n.selections.lookup i with
  | none => n.answer c .noSelection
  | some s =>
    let monitor := n.balancer.monitor.finish s.server.instanceId success s.invocation
    (n.setMonitor monitor).answer c (.stats (monitor.tracker.get? s.server.instanceId))

/-- The beginning of an operation, up to its first wait. -/
def start [Registry σ] (n : Node σ) (c : CallId) : Operation σ → Node σ
  | .find key => n.lookup c key .view
  | .get key =>
    n.answer c (match n.directory.find? key with
      | some e => .view e (n.entry e)
      | none => .noView)
  | .inspect e => n.answer c (.inspected (n.directory.holds e) (n.entry e))
  | .sweep => n.sweep c
  | .forceSweep => n.forceSweep c
  | .change change => n.changeViews c change [] n.directory.views
  | .safeMode on => { n with directory := n.directory.protect on }.answer c .done
  | .forgetRevision key =>
    let n := match n.directory.find? key with
      | some e => n.forget e
      | none => n
    n.answer c .done
  | .forgetRevisions => (n.directory.views.foldl forget n).answer c .done
  | .watch w => { n with watcher := some w }.answer c .done
  | .ensureFirst e => n.ensureFirst c e .done
  | .refresh e => n.refresh c e .status
  | .forceRefresh e => (n.forget e).refresh c e .status
  | .changeView e change => n.changeView c e change
  | .forgetRevisionOf e => (n.forget e).answer c .done
  | .protectView e on => (n.modifyEntry e ({ · with protection := on })).answer c .done
  | .sleep ms => if ms = 0 then n.answer c .done else n.rest c (.sleeping (n.time + Timer.run ms))
  | .startPuller interval => (n.startPuller interval).answer c (.interval interval)
  | .stopPuller => n.stopPuller.answer c .done
  | .choose key i => n.lookup c key (.choose i)
  | .finish i success => n.finish c i success
  | .statsOf server => n.answer c (.stats (n.balancer.monitor.tracker.get? server))
  | .applyForPermit i =>
    let (granted, monitor) := n.balancer.monitor.apply i
    (n.setMonitor monitor).answer c (.flag granted)
  | .checkAndReleasePermit i =>
    let (released, monitor) := n.balancer.monitor.checkAndRelease i
    (n.setMonitor monitor).answer c (.flag released)
  | .releasePermit => (n.setMonitor n.balancer.monitor.release).answer c .done
  | .setClock now => (n.setMonitor (n.balancer.monitor.setClock now)).answer c .done
  | .advanceClock d => (n.setMonitor (n.balancer.monitor.advanceClock d)).answer c .done
  | .registry act =>
    let (reply, registry) := act n.registry
    { n with registry }.answer c reply

/-- The puller's tick: ask for a sweep, and set a timer for the next tick. -/
def tick (n : Node σ) (c : CallId) (due interval : Nat) : Node σ :=
  let n := n.rest c (.pulling (due + Timer.run interval) interval)
  let (s, n) := n.newCall
  (n.note (.pulled s)).rest s (.scheduled n.time .sweep)

/-- What a call does when its wait is over. -/
def resume [Registry σ] (n : Node σ) (c : CallId) : Node σ :=
  match n.stage? c with
  | none => n
  | some stage =>
    let n := n.unrest c
    match stage with
    | .scheduled _ op => n.start c op
    | .sleeping _ => n.answer c .done
    | .pulling due interval => n.tick c due interval
    | .refreshing e next => n.fetch c e next
    | .fetching e _ outcome next => n.endFetch c e outcome next
    | .changing e change next =>
      let (verdict, n) := n.applyChange c e change
      match next with
      | .verdict => n.answer c (.verdict verdict)
      | .others rest changed => n.changeViews c change (withChanged changed e verdict) rest
    | .awaitingFirst e next => n.afterFirst c e next
    | .awaitingSweep => n.beginPass c true
    | .pass forced members => n.rest c (.pass forced members)

end Node

end ServiceFinder
