/-
  ServiceFinder/Registry/Local.lean
  =================================
  **A registry within the process.**

  A service has slots, one for each version, and each slot lists its instances.
  Version rules are not looked at: a lookup answers the instances of all slots, in
  order.  Whatever is added to or taken from a service raises its revision, so equal
  revisions mean equal lists for as long as the service is not removed as a whole.

  Ids that are not given are generated.  How they are made up is not said here: a registry
  takes them from a row of ids (`LocalRegistry.ids`), one after the other.
-/
import ServiceFinder.Registry.Basic

namespace ServiceFinder

structure VersionSlot where
  serviceId : String
  version : String
  instances : List Instance := []
deriving DecidableEq, Repr

structure ServiceGroup where
  /-- How often something was added or taken away, modulo 2⁶⁴. -/
  revision : UInt64 := 0
  slots : List VersionSlot := []
deriving DecidableEq, Repr, Inhabited

namespace ServiceGroup

/-- The instances of all slots. -/
def instances (g : ServiceGroup) : List Instance := g.slots.flatMap (·.instances)

/-- The first slot of a version. -/
def slotOf? (version : String) (g : ServiceGroup) : Option VersionSlot :=
  g.slots.find? (·.version == version)

/-- Add an instance to the first slot of its version. -/
def addToFirst (version : String) (server : Instance) : List VersionSlot → List VersionSlot
  | [] => []
  | s :: rest =>
    if s.version = version then { s with instances := s.instances ++ [server] } :: rest
    else s :: addToFirst version server rest

def addTo (version : String) (server : Instance) (g : ServiceGroup) : ServiceGroup :=
  { revision := g.revision + 1, slots := addToFirst version server g.slots }

def addSlot (slot : VersionSlot) (g : ServiceGroup) : ServiceGroup :=
  { revision := g.revision + 1, slots := g.slots ++ [slot] }

/-- Take every instance of an id out of all slots. -/
def withdraw (instanceId : String) (g : ServiceGroup) : ServiceGroup :=
  { revision := g.revision + 1,
    slots := g.slots.map fun s =>
      { s with instances := s.instances.filter (·.instanceId != instanceId) } }

def listing (g : ServiceGroup) : Listing :=
  { instances := g.instances, revision := some (toString g.revision) }

end ServiceGroup

structure LocalRegistry where
  /-- The ids that are generated, in this order. -/
  ids : Nat → String
  /-- How many of them were used. -/
  issued : Nat := 0
  /-- The services, each under its application and name. -/
  groups : List ((String × String) × ServiceGroup) := []

namespace LocalRegistry

def group? (app service : String) (r : LocalRegistry) : Option ServiceGroup :=
  r.groups.lookup (app, service)

/-- Put a service in the place of what was there under its name. -/
def put (app service : String) (g : ServiceGroup) (r : LocalRegistry) : LocalRegistry :=
  { r with groups := ((app, service), g) :: r.groups.filter (·.1 != (app, service)) }

def newId (r : LocalRegistry) : String × LocalRegistry :=
  (r.ids r.issued, { r with issued := r.issued + 1 })

/-- Register an instance of a version.  It joins the first slot of its version; a
    version that has none gets a slot, with a service id of its own. -/
def register (app service version : String) (endpoints : List String) (r : LocalRegistry) :
    Instance × LocalRegistry :=
  let g := (r.group? app service).getD {}
  match g.slotOf? version with
  | some slot =>
    let (instanceId, r) := r.newId
    let server : Instance := { instanceId, serviceId := slot.serviceId, endpoints }
    (server, r.put app service (g.addTo version server))
  | none =>
    let (serviceId, r) := r.newId
    let (instanceId, r) := r.newId
    let server : Instance := { instanceId, serviceId, endpoints }
    (server, r.put app service (g.addSlot { serviceId, version, instances := [server] }))

/-- Take an instance out of a service, and say whether it was there. -/
def unregister (app service instanceId : String) (r : LocalRegistry) : Bool × LocalRegistry :=
  match r.group? app service with
  | none => (false, r)
  | some g =>
    if g.instances.any (·.instanceId == instanceId) then
      (true, r.put app service (g.withdraw instanceId))
    else (false, r)

/-- Remove a service with all of its versions, and say whether it was there. -/
def remove (app service : String) (r : LocalRegistry) : Bool × LocalRegistry :=
  match r.group? app service with
  | none => (false, r)
  | some _ => (true, { r with groups := r.groups.filter (·.1 != (app, service)) })

def fetch (key : ServiceKey) (r : LocalRegistry) : Answer :=
  match r.group? key.app key.service with
  | none => .notFound
  | some g => .found g.listing

instance : Registry LocalRegistry := ⟨fun key r => ({ answer := r.fetch key }, r)⟩

end LocalRegistry

end ServiceFinder
