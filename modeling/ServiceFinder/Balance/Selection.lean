/-
  ServiceFinder/Balance/Selection.lean
  ====================================
  **Choosing a server from a list of instances.**

  The eligible instances are checked in list order.  The first one to be probed is
  chosen at once; otherwise the rule picks from those that are available.
-/
import ServiceFinder.Balance.Rule
import ServiceFinder.Health.Monitor
import ServiceFinder.Service.Instance

namespace ServiceFinder

structure Selection where
  server : Instance
  endpoint : String
  invocation : Invocation
  /-- The server is isolated, and this invocation is to find out whether it has
      recovered. -/
  probe : Bool
deriving DecidableEq, Repr

namespace Selection

/-- The first endpoint of a server, for an invocation. -/
def of (server : Instance) (invocation : Invocation) (probe : Bool) : Selection :=
  { server, endpoint := server.endpoints.headD "", invocation, probe }

end Selection

/-- What came of checking a list of instances. -/
inductive Screening where
  /-- This one is to be probed; those after it were not checked. -/
  | probe (server : Instance)
  /-- These are available. -/
  | available (servers : List Instance)
deriving DecidableEq, Repr

namespace Screening

/-- Put an available server in front. -/
def cons (server : Instance) : Screening → Screening
  | probe s => probe s
  | available servers => available (server :: servers)

end Screening

namespace Monitor

/-- Check the eligible instances in order, up to the first probe. -/
def screen (i : Invocation) : List Instance → Monitor → Screening × Monitor
  | [], m => (.available [], m)
  | server :: rest, m =>
    if server.eligible then
      match m.check server.instanceId i with
      | (.probe, m) => (.probe server, m)
      | (.available, m) => let (s, m) := m.screen i rest; (s.cons server, m)
      | (.isolated, m) => m.screen i rest
    else m.screen i rest

end Monitor

/-- The balancer's own state: the health of the servers and the rule. -/
structure Balancer where
  monitor : Monitor := {}
  rule : Rule := .roundRobin {}

/-- Choose one of `servers` for invocation `i`. -/
def Balancer.choose (servers : List Instance) (i : Invocation) (b : Balancer) :
    Option Selection × Balancer :=
  match b.monitor.screen i servers with
  | (.probe server, monitor) => (some (.of server i true), { b with monitor })
  | (.available candidates, monitor) =>
    let (server, rule) := b.rule.next candidates
    (server.map (Selection.of · i false), { monitor, rule })

end ServiceFinder
