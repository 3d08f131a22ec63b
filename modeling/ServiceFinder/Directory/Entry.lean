/-
  ServiceFinder/Directory/Entry.lean
  ==================================
  **One cached view of a service.**

  A view keeps the last list that it believes.  A refresh asks the registry: an
  equal revision means that nothing changed, a failure or a vanished service leaves
  the list alone, and an empty list is not believed while the view is protected and
  the policy finds it suspicious.  Pushed changes edit the list in place.

  Everything that changes the list happens under the view's write lock, which is
  handed on in order of arrival; `writers` lists the calls that hold it or wait for
  it, the holder first.
-/
import ServiceFinder.Directory.Status
import ServiceFinder.Registry.Basic
import ServiceFinder.Service.Change

namespace ServiceFinder

abbrev CallId := Nat

/-- Whether an empty list is suspicious for a key whose list was this. -/
abbrev EmptyListPolicy := ServiceKey → List Instance → Bool

namespace EmptyListPolicy

/-- An empty list is suspicious where there were instances before. -/
def retainNonEmpty : EmptyListPolicy := fun _ previous => !previous.isEmpty

def always : EmptyListPolicy := fun _ _ => true

def never : EmptyListPolicy := fun _ _ => false

/-- As `retainNonEmpty`, for the service of this name only. -/
def forService (name : String) : EmptyListPolicy :=
  fun key previous => key.service == name && !previous.isEmpty

/-- Suspicious where there were at least `n` instances before. -/
def minSize (n : Nat) : EmptyListPolicy := fun _ previous => decide (n ≤ previous.length)

end EmptyListPolicy

/-- How far the first refresh of a view has come. -/
inductive FirstRefresh where
  | pending
  | running
  | over
deriving DecidableEq, Repr, Inhabited

structure Entry where
  key : ServiceKey
  listing : Listing := {}
  /-- The outcome of the latest refresh. -/
  status : CacheStatus := .initial
  /-- Whether suspicious empty lists are refused. -/
  protection : Bool := false
  firstRefresh : FirstRefresh := .pending
  writers : List CallId := []
deriving DecidableEq, Repr, Inhabited

/-- How a lookup at the registry ended for the view that made it. -/
inductive Outcome where
  | answered (answer : Answer)
  | timedOut
deriving DecidableEq, Repr

namespace Entry

def isInitialized (e : Entry) : Bool := e.firstRefresh == .over

/-- Whether an empty list is refused now. -/
def refusesEmpty (policy : EmptyListPolicy) (e : Entry) : Bool :=
  e.protection && policy e.key e.listing.instances

/-- Forget the revision, so that the next list counts as new. -/
def forgetRevision (e : Entry) : Entry :=
  { e with listing := { e.listing with revision := none } }

/-! ### Refresh -/

/-- Take in a list that the registry answered. -/
def adoptListing (policy : EmptyListPolicy) (l : Listing) (e : Entry) : Entry × CacheStatus :=
  if l.revision.isSome && l.revision == e.listing.revision then (e, .noChange)
  else if l.instances.isEmpty && e.refusesEmpty policy then
    ({ e with listing := { e.listing with revision := l.revision } }, .noChange)
  else ({ e with listing := l }, .refreshed)

/-- Take in the end of a lookup.  A registry that fails because there is no such
    service has answered. -/
def adopt (policy : EmptyListPolicy) (o : Outcome) (e : Entry) : Entry × CacheStatus :=
  match o with
  | .answered (.found l) => e.adoptListing policy l
  | .answered .notFound => (e, .serviceNotFound)
  | .answered (.failed (.serviceNotFound _ _)) => (e, .serviceNotFound)
  | .answered (.failed _) => (e, .refreshFailed)
  | .timedOut => (e, .refreshFailed)

/-- The view after a refresh that ended so, and the refresh's status. -/
def afterRefresh (policy : EmptyListPolicy) (o : Outcome) (e : Entry) : Entry × CacheStatus :=
  let (e, status) := e.adopt policy o
  ({ e with status }, status)

/-! ### Pushed changes -/

def concerns (c : InstanceChange) (e : Entry) : Bool :=
  c.app == e.key.app && c.service == e.key.service

/-- Whether instances of a service version may be added without asking the
    registry: a version rule can not be checked here, so it must be a version that
    the list holds already. -/
def acceptsService (serviceId : String) (e : Entry) : Bool :=
  e.key.versionRule == everyVersion || e.listing.instances.any (·.serviceId == serviceId)

/-- What a change asks of a list. -/
inductive Edit where
  | nothing
  /-- The next refresh has to decide. -/
  | undecided
  | list (instances : List Instance)
deriving DecidableEq, Repr

def edit (c : InstanceChange) (e : Entry) : Edit :=
  let instances := e.listing.instances
  match instances.findIdx? (·.instanceId == c.instanceId) with
  | some i =>
    if c.kind.removes then .list (instances.eraseIdx i)
    else if instances[i]? == some c.updated then .nothing
    else .list (instances.set i c.updated)
  | none =>
    if c.kind.removes then .nothing
    else if e.acceptsService c.serviceId then .list (instances ++ [c.updated])
    else .undecided

/-- The view after a change that concerns it, and the status of the change, none if
    the view stays as it is. -/
def afterChange (policy : EmptyListPolicy) (c : InstanceChange) (e : Entry) :
    Entry × Option CacheStatus :=
  match e.edit c with
  | .nothing => (e, none)
  | .undecided => (e.forgetRevision, none)
  | .list instances =>
    if instances.isEmpty && e.refusesEmpty policy then
      ({ e with status := .noChange }, some .noChange)
    else
      ({ e with listing := { e.listing with instances }, status := .refreshed },
        some .refreshed)

end Entry

end ServiceFinder
