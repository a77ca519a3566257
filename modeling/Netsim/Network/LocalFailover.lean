import Netsim.Foundation.Detour
import Netsim.Network.Forwarding

/-!
# Failover that only one router knows of

A breaker is a router's own: when a link opens, the router at its end computes a new
table, and no other router learns of it. The packet is handed to the next hop of a path
that avoids the link, and from there on is forwarded by tables that still count on it.

It arrives if the ways that avoid the router with the open link are shorter than those
that come back to it; if they are longer it comes back, is sent the same way again, and
never arrives (`Outage.forwarding`).
-/

namespace Netsim.Network

open Foundation

variable {N : RoutedNetwork} {d h u v : NodeId} {w c x n : ℕ} {dip : IPv4Address}

/-- A network in which one router has computed its table again, with links of its own
Open. -/
structure Outage (N : RoutedNetwork) where
  site : NodeId
  iter : IterationOrder (NodeId × UInt32)
  now : ℤ
  before : Router
  router : Router
  mem : site ∈ N.graph.keys
  id_eq : before.id = site
  noOverflow : NoOverflow now before N.graph
  computed : Returns (computeRoutes iter now before N.graph N.nodeToIp N.nodeToMask) router

namespace Outage

variable {O : Outage N}

/-- One hop. -/
def forward (O : Outage N) (dip : IPv4Address) (u : NodeId) : NodeId :=
  if u = O.site then (lookupRoute O.router dip).2 else N.forward dip u

/-- The links with their costs as the router with the open links sees them. -/
abbrev seen (O : Outage N) : WeightedDigraph NodeId := effectiveGraph O.now O.before N.graph

end Outage

end Netsim.Network
