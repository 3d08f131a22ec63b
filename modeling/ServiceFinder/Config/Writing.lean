/-
  ServiceFinder/Config/Writing.lean
  =================================
  **A configuration as a document.**

  All settings are written, defaults too, each in its section.
-/
import ServiceFinder.Config.Basic
import ServiceFinder.Service.Writing

namespace ServiceFinder

namespace Document

def ofWord (n : UInt64) : Document := .integer n.toNat

end Document

open Document

def RegistryConfig.fields (c : RegistryConfig) : List (String × Document) :=
  [("instance_pull_interval_secs", ofWord c.pullInterval),
   ("fetch_timeout_ms", ofWord c.fetchTimeout),
   ("empty_instance_protection", .bool c.emptyInstanceProtection)]

def IsolationPolicy.fields (p : IsolationPolicy) : List (String × Document) :=
  [("enabled", .bool p.enabled),
   ("error_threshold_percentage", .integer p.errorThreshold.toNat),
   ("continuous_failure_threshold", ofWord p.continuousThreshold),
   ("min_request_count", ofWord p.minRequests),
   ("single_test_time_ms", ofWord p.singleTestTime)]

def LoggingConfig.fields (c : LoggingConfig) : List (String × Document) :=
  [("log_level", .text c.level), ("json", .bool c.json)]

def Config.fields (c : Config) : List (String × Document) :=
  [("registry", ofFields c.registry.fields),
   ("server_stats", ofFields [("window_ms", ofWord c.statsWindow)]),
   ("isolation", ofFields c.isolation.fields),
   ("trying_chance", ofFields [("ttl_ms", ofWord c.permitTtl)]),
   ("load_balancer", ofFields [("rule", .text c.rule.name)]),
   ("observability", ofFields c.logging.fields),
   ("local_registry", match c.localRegistry with
      | some path => ofFields [("path", .text path)]
      | none => .null)]

end ServiceFinder
