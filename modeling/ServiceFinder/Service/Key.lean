/-
  ServiceFinder/Service/Key.lean
  ==============================
  **Who asks for which service.**

  A view of a service is identified by the service that consumes it, the
  application and name of the service wanted, and the version rule that filters its
  instances.  A name written `app:service` carries its own application.
-/
import ServiceFinder.Text.Blank

namespace ServiceFinder

/-- The version rule under which every version of a service matches. -/
def everyVersion : String := "0.0.0.0+"

structure ServiceKey where
  consumer : String
  app : String
  service : String
  versionRule : String := everyVersion
deriving DecidableEq, Repr, Inhabited

namespace ServiceKey

/-- A key as a caller writes it: an application in front of the first `:` of the
    service name takes the place of `app`. -/
def named (consumer app service : String) (versionRule : String := everyVersion) :
    ServiceKey :=
  match Text.cutAt ':' service with
  | some (app', service') => ⟨consumer, app', service', versionRule⟩
  | none => ⟨consumer, app, service, versionRule⟩

/-- The one-line text of a key. -/
def display (k : ServiceKey) : String :=
  k.consumer ++ "->" ++ k.app ++ "/" ++ k.service ++ "@" ++ k.versionRule

/-- The fields of a key under their public names, in the order in which they are
    checked. -/
def fields (k : ServiceKey) : List (String × String) :=
  [("consumer_service_id", k.consumer), ("app_id", k.app),
   ("service_name", k.service), ("version_rule", k.versionRule)]

/-- The name of the first field that is left blank. -/
def blankField? (k : ServiceKey) : Option String :=
  (k.fields.find? fun f => Text.allBlank f.2).map (·.1)

/-- A key can be looked up when none of its fields is blank. -/
def Valid (k : ServiceKey) : Prop := ∀ f ∈ k.fields, Text.allBlank f.2 = false

instance (k : ServiceKey) : Decidable k.Valid := by unfold Valid; infer_instance

theorem blankField?_eq_none_iff (k : ServiceKey) : k.blankField? = none ↔ k.Valid := by
  simp [blankField?, Valid, List.find?_eq_none]

end ServiceKey

end ServiceFinder
