/-
  ServiceFinder/Service/Instance.lean
  ===================================
  **One running replica of a service.**
-/

namespace ServiceFinder

/-- The life-cycle status that a registry reports. -/
inductive InstanceStatus where
  | up
  | down
  | starting
  | outOfService
  | testing
deriving DecidableEq, Repr, Inhabited

namespace InstanceStatus

/-- The public spelling. -/
def name : InstanceStatus → String
  | up => "UP"
  | down => "DOWN"
  | starting => "STARTING"
  | outOfService => "OUT_OF_SERVICE"
  | testing => "TESTING"

def all : List InstanceStatus := [up, down, starting, outOfService, testing]

/-- The status of that spelling; letter case counts. -/
def ofName? (s : String) : Option InstanceStatus := all.find? (·.name == s)

end InstanceStatus

structure Instance where
  instanceId : String
  serviceId : String
  endpoints : List String
  status : InstanceStatus := .up
deriving DecidableEq, Repr, Inhabited

namespace Instance

def isUp (i : Instance) : Bool := i.status == .up

/-- An instance can take a request when it is up and has an address. -/
def eligible (i : Instance) : Bool := i.isUp && !i.endpoints.isEmpty

end Instance

end ServiceFinder
