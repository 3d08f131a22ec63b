/-
  ServiceFinder/Registry/Definitions.lean
  =======================================
  **Services defined in a document.**

  A document defines services by name, each by a list of versions with their
  instances.  Every definition gets a slot of its own, even if another one has the
  same version.
-/
import ServiceFinder.Document.Decode
import ServiceFinder.Registry.Local

namespace ServiceFinder

/-- The application of a definition that names none. -/
def defaultApp : String := "default"

structure ServiceDefinition where
  app : Option String
  version : String
  /-- The service id, generated if not given. -/
  id : Option String
  /-- The endpoints of each instance. -/
  instances : List (List String)
deriving DecidableEq, Repr

namespace ServiceDefinition

/-- An application that is left empty counts as not named. -/
def appName (d : ServiceDefinition) : String :=
  (d.app.filter (!·.isEmpty)).getD defaultApp

def readInstance (dialect : Dialect) : Reader (List String) := fun d => do
  let f ← d.asFields dialect ["endpoints"]
  f.required "endpoints" (Document.asList Document.asText)

def read (dialect : Dialect) : Reader ServiceDefinition := fun d => do
  let f ← d.asFields dialect ["app_id", "version", "id", "instances"]
  return {
    app := ← f.optional "app_id" Document.asText
    version := ← f.defaulted "version" "1.0.0" Document.asText
    id := ← f.optional "id" Document.asText
    instances := ← f.defaulted "instances" [] (Document.asList (readInstance dialect)) }

/-- The definitions of a document, each with the name of its service. -/
def readAll (dialect : Dialect) : Reader (List (String × ServiceDefinition)) := fun d => do
  let f ← d.asFields dialect ["services"]
  let services ← f.defaulted "services" [] (Document.asMap (Document.asList (read dialect)))
  return services.flatMap fun s => s.2.map (s.1, ·)

end ServiceDefinition

namespace LocalRegistry

/-- Instances with these endpoints and generated ids. -/
def newInstances (serviceId : String) (r : LocalRegistry) :
    List (List String) → List Instance × LocalRegistry
  | [] => ([], r)
  | endpoints :: rest =>
    let (instanceId, r) := r.newId
    let (others, r) := r.newInstances serviceId rest
    ({ instanceId, serviceId, endpoints } :: others, r)

/-- Add a slot for a definition of a service. -/
def define (r : LocalRegistry) (service : String) (d : ServiceDefinition) : LocalRegistry :=
  let (serviceId, r) := match d.id with
    | some id => (id, r)
    | none => r.newId
  let (instances, r) := r.newInstances serviceId d.instances
  let g := (r.group? d.appName service).getD {}
  r.put d.appName service (g.addSlot { serviceId, version := d.version, instances })

/-- A registry of these definitions, with `ids` for the ids that they do not give. -/
def ofDefinitions (ids : Nat → String) (ds : List (String × ServiceDefinition)) :
    LocalRegistry :=
  ds.foldl (fun r d => r.define d.1 d.2) { ids }

end LocalRegistry

end ServiceFinder
