/-
  ServiceFinder/Config/Reading.lean
  =================================
  **Reading a configuration from a document.**

  Every section and every setting may be left out; only the path of a local registry
  has no default of its own.
-/
import ServiceFinder.Config.Basic
import ServiceFinder.Document.Decode

namespace ServiceFinder

def RegistryConfig.read (dialect : Dialect) : Reader RegistryConfig := fun d => do
  let f ← d.asFields dialect
    ["instance_pull_interval_secs", "fetch_timeout_ms", "empty_instance_protection"]
  let c : RegistryConfig := {}
  return {
    pullInterval := ← f.defaulted "instance_pull_interval_secs" c.pullInterval Document.asWord64
    fetchTimeout := ← f.defaulted "fetch_timeout_ms" c.fetchTimeout Document.asWord64
    emptyInstanceProtection :=
      ← f.defaulted "empty_instance_protection" c.emptyInstanceProtection Document.asBool }

def IsolationPolicy.read (dialect : Dialect) : Reader IsolationPolicy := fun d => do
  let f ← d.asFields dialect
    ["enabled", "error_threshold_percentage", "continuous_failure_threshold",
     "min_request_count", "single_test_time_ms"]
  let p : IsolationPolicy := {}
  return {
    enabled := ← f.defaulted "enabled" p.enabled Document.asBool
    errorThreshold :=
      ← f.defaulted "error_threshold_percentage" p.errorThreshold Document.asWord32
    continuousThreshold :=
      ← f.defaulted "continuous_failure_threshold" p.continuousThreshold Document.asWord64
    minRequests := ← f.defaulted "min_request_count" p.minRequests Document.asWord64
    singleTestTime := ← f.defaulted "single_test_time_ms" p.singleTestTime Document.asWord64 }

def LoggingConfig.read (dialect : Dialect) : Reader LoggingConfig := fun d => do
  let f ← d.asFields dialect ["log_level", "json"]
  let c : LoggingConfig := {}
  return {
    level := ← f.defaulted "log_level" c.level Document.asText
    json := ← f.defaulted "json" c.json Document.asBool }

def RuleKind.read (dialect : Dialect) : Reader RuleKind :=
  Document.asName dialect RuleKind.ofName?

/-- A section with a single setting. -/
def readSetting {α : Type} (dialect : Dialect) (name : String) (value : α) (read : Reader α) :
    Reader α := fun d => do
  let f ← d.asFields dialect [name]
  f.defaulted name value read

/-- The section that names the definitions of a local registry. -/
def readLocalRegistry (dialect : Dialect) : Reader String := fun d => do
  let f ← d.asFields dialect ["path"]
  f.required "path" Document.asText

/-- A configuration; in data, null stands for no local registry. -/
def Config.read (dialect : Dialect) : Reader Config := fun d => do
  let f ← d.asFields dialect
    ["registry", "server_stats", "isolation", "trying_chance", "load_balancer",
     "observability", "local_registry"]
  let c : Config := {}
  return {
    registry := ← f.defaulted "registry" c.registry (RegistryConfig.read dialect)
    statsWindow := ← f.defaulted "server_stats" c.statsWindow
      (readSetting dialect "window_ms" c.statsWindow Document.asWord64)
    isolation := ← f.defaulted "isolation" c.isolation (IsolationPolicy.read dialect)
    permitTtl := ← f.defaulted "trying_chance" c.permitTtl
      (readSetting dialect "ttl_ms" c.permitTtl Document.asWord64)
    rule := ← f.defaulted "load_balancer" c.rule
      (readSetting dialect "rule" c.rule (RuleKind.read dialect))
    logging := ← f.defaulted "observability" c.logging (LoggingConfig.read dialect)
    localRegistry := ← f.defaulted "local_registry" none
      (Document.asNullable (readLocalRegistry dialect)) }

end ServiceFinder
