/-
  ServiceFinder/Service/Reading.lean
  ==================================
  **Reading keys and instances from documents.**
-/
import ServiceFinder.Document.Decode
import ServiceFinder.Service.Change
import ServiceFinder.Service.Key

namespace ServiceFinder

def InstanceStatus.read (dialect : Dialect) : Reader InstanceStatus :=
  Document.asName dialect InstanceStatus.ofName?

def ChangeKind.read (dialect : Dialect) : Reader ChangeKind :=
  Document.asName dialect ChangeKind.ofName?

/-- An instance without a status is up. -/
def Instance.read (dialect : Dialect) : Reader Instance := fun d => do
  let f ← d.asFields dialect ["instance_id", "service_id", "endpoints", "status"]
  return {
    instanceId := ← f.required "instance_id" Document.asText
    serviceId := ← f.required "service_id" Document.asText
    endpoints := ← f.required "endpoints" (Document.asList Document.asText)
    status := ← f.defaulted "status" .up (InstanceStatus.read dialect) }

/-- A key field by field: the service name is taken as it is. -/
def ServiceKey.read (dialect : Dialect) : Reader ServiceKey := fun d => do
  let f ← d.asFields dialect ["consumer_service_id", "app_id", "service_name", "version_rule"]
  return {
    consumer := ← f.required "consumer_service_id" Document.asText
    app := ← f.required "app_id" Document.asText
    service := ← f.required "service_name" Document.asText
    versionRule := ← f.required "version_rule" Document.asText }

end ServiceFinder
