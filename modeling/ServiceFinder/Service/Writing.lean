/-
  ServiceFinder/Service/Writing.lean
  ==================================
  **Keys and instances as documents.**

  What is written here reads back as the same value.
-/
import ServiceFinder.Document.Basic
import ServiceFinder.Service.Instance
import ServiceFinder.Service.Key

namespace ServiceFinder

namespace Document

/-- A table of these fields. -/
def ofFields (fields : List (String × Document)) : Document := .table fields

def ofTexts (texts : List String) : Document := .array (texts.map .text)

end Document

def Instance.document (i : Instance) : Document :=
  .ofFields [("instance_id", .text i.instanceId), ("service_id", .text i.serviceId),
    ("endpoints", .ofTexts i.endpoints), ("status", .text i.status.name)]

def ServiceKey.document (k : ServiceKey) : Document :=
  .ofFields (k.fields.map fun f => (f.1, .text f.2))

end ServiceFinder
