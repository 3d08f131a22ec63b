/-
  ServiceFinder/Node/Assembly.lean
  ================================
  **A node as its configuration says.**
-/
import ServiceFinder.Config.Basic
import ServiceFinder.Node.Basic

namespace ServiceFinder

/-- The directory that a registry section describes. -/
def RegistryConfig.directory (c : RegistryConfig) (policy : EmptyListPolicy) : Directory :=
  { options := { fetchTimeout := c.fetchTimeout.toNat, policy },
    protection := c.emptyInstanceProtection }

/-- The monitor that a configuration describes, with its clock at `now`. -/
def Config.monitor (c : Config) (now : Millis) : Monitor :=
  { clock := ⟨now⟩, window := c.statsWindow, policy := c.isolation,
    permit := { ttl := c.permitTtl } }

/-- The balancer that a configuration describes, with its clock at `now` and with `draws` for
    what it is going to pick at random. -/
def Config.balancer (c : Config) (now : Millis) (draws : Draws) : Balancer :=
  { monitor := c.monitor now, rule := .ofKind draws c.rule }

namespace Node

variable {σ : Type}

/-- A node that caches views of a registry. -/
def caching (registry : σ) (c : RegistryConfig) (policy : EmptyListPolicy) : Node σ :=
  { registry, directory := c.directory policy }

/-- A node that also balances: its balancer watches the cached views. -/
def balancing (registry : σ) (c : Config) (policy : EmptyListPolicy) (now : Millis)
    (draws : Draws) : Node σ :=
  { registry, directory := c.registry.directory policy, balancer := c.balancer now draws,
    watcher := some .balancer }

/-- A node with a single view that is not cached. -/
def holding (registry : σ) (options : Options) (protection : Bool) (key : ServiceKey) :
    Node σ :=
  { registry, directory := { options, entries := [{ key, protection }] } }

end Node

end ServiceFinder
