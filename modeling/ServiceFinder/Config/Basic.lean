/-
  ServiceFinder/Config/Basic.lean
  ===============================
  **The configuration of a node, and what makes it valid.**

  Every setting has a default.  A configuration is refused for all of its faults at
  once, in a fixed order.
-/
import ServiceFinder.Balance.Rule
import ServiceFinder.Health.Isolation
import ServiceFinder.Text.Blank

namespace ServiceFinder

/-- How views are refreshed. -/
structure RegistryConfig where
  /-- Seconds between two pulls. -/
  pullInterval : UInt64 := 30
  /-- Milliseconds that a lookup at the registry may take. -/
  fetchTimeout : UInt64 := 5000
  /-- Whether suspicious empty lists are refused from the start. -/
  emptyInstanceProtection : Bool := false
deriving DecidableEq, Repr, Inhabited

namespace RegistryConfig

/-- The time between two pulls in milliseconds; it may need more than 64 bits. -/
def pullIntervalMs (c : RegistryConfig) : Nat := c.pullInterval.toNat * 1000

/-- The time that a lookup may take in microseconds; it may need more than 64 bits. -/
def fetchTimeoutUs (c : RegistryConfig) : Nat := c.fetchTimeout.toNat * 1000

end RegistryConfig

/-- What is logged, and how. -/
structure LoggingConfig where
  level : String := "info"
  json : Bool := false
deriving DecidableEq, Repr, Inhabited

structure Config where
  registry : RegistryConfig := {}
  /-- The width of a window of statistics. -/
  statsWindow : Millis := 60000
  isolation : IsolationPolicy := {}
  /-- How long a permit to probe lasts. -/
  permitTtl : Millis := 60000
  rule : RuleKind := .roundRobin
  logging : LoggingConfig := {}
  /-- The path of the definitions of a local registry. -/
  localRegistry : Option String := none
deriving DecidableEq, Repr, Inhabited

inductive ConfigFault where
  | mustBePositive (field : String)
  | notAPercentage (field : String) (value : UInt32)
  | emptyLocalRegistryPath
deriving DecidableEq, Repr

namespace ConfigFault

def message : ConfigFault → String
  | mustBePositive field => field ++ " must be greater than zero"
  | notAPercentage field value =>
    field ++ " must be a percentage between 0 and 100, got " ++ toString value.toNat
  | emptyLocalRegistryPath => "local_registry.path must not be empty"

end ConfigFault

namespace Config

/-- The settings that zero makes no sense for, under their public names. -/
def positives (c : Config) : List (String × UInt64) :=
  [("registry.instance_pull_interval_secs", c.registry.pullInterval),
   ("registry.fetch_timeout_ms", c.registry.fetchTimeout),
   ("server_stats.window_ms", c.statsWindow),
   ("trying_chance.ttl_ms", c.permitTtl)]

/-- All that is wrong with a configuration. -/
def faults (c : Config) : List ConfigFault :=
  (c.positives.filter (·.2 == 0)).map (ConfigFault.mustBePositive ·.1)
    ++ (if 100 < c.isolation.errorThreshold then
          [.notAPercentage "isolation.error_threshold_percentage" c.isolation.errorThreshold]
        else [])
    ++ (if c.localRegistry.any Text.allBlank then [.emptyLocalRegistryPath] else [])

/-- A configuration without faults. -/
def Valid (c : Config) : Prop := c.faults = []

instance (c : Config) : Decidable c.Valid := by unfold Valid; infer_instance

end Config

/-- Why no configuration comes of a source. -/
inductive ConfigError where
  /-- It can not be read as text. -/
  | unreadable
  /-- It is not written as it should be, or a value does not fit its setting. -/
  | malformed
  | invalid (faults : List ConfigFault)
deriving DecidableEq, Repr

/-- The wording of a refusal that lists faults. -/
def ConfigFault.summary (faults : List ConfigFault) : String :=
  "Validation failed: " ++ ", ".intercalate (faults.map message)

/-- A configuration is taken only without faults. -/
def Config.checked (c : Config) : Except ConfigError Config :=
  match c.faults with
  | [] => .ok c
  | faults => .error (.invalid faults)

theorem Config.checked_eq_ok_iff (c d : Config) : c.checked = .ok d ↔ c.Valid ∧ c = d := by
  unfold Config.checked Config.Valid
  cases c.faults <;> simp

end ServiceFinder
