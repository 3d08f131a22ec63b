/-
  ServiceFinder/Service/Change.lean
  =================================
  **A change of one instance, pushed by the registry.**

  A change names the service and the instance it is about on its own, beside the
  instance that it carries.  Ordinarily the two agree (`InstanceChange.about`).
-/
import ServiceFinder.Service.Instance

namespace ServiceFinder

inductive ChangeKind where
  | create
  | update
  | delete
  | expire
deriving DecidableEq, Repr, Inhabited

namespace ChangeKind

/-- The public spelling. -/
def name : ChangeKind → String
  | create => "CREATE"
  | update => "UPDATE"
  | delete => "DELETE"
  | expire => "EXPIRE"

def all : List ChangeKind := [create, update, delete, expire]

/-- The kind of that spelling; letter case counts. -/
def ofName? (s : String) : Option ChangeKind := all.find? (·.name == s)

/-- Whether the instance is gone afterwards. -/
def removes : ChangeKind → Bool
  | create | update => false
  | delete | expire => true

end ChangeKind

structure InstanceChange where
  app : String
  service : String
  serviceId : String
  instanceId : String
  kind : ChangeKind
  updated : Instance
deriving DecidableEq, Repr

/-- The change of instance `i` of `app`/`service`, named by its own ids. -/
def InstanceChange.about (app service : String) (kind : ChangeKind) (i : Instance) :
    InstanceChange :=
  { app, service, serviceId := i.serviceId, instanceId := i.instanceId, kind, updated := i }

end ServiceFinder
