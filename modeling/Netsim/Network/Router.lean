import Netsim.Foundation.MinHeap
import Netsim.Foundation.UnorderedMap
import Netsim.Foundation.WhileLoop
import Netsim.Network.Addressing
import Netsim.Network.CircuitBreaker

/-!
# The router: link-state route computation and lookup

`network/router.hpp` and `router.cpp`. Node ids, link costs and metrics are
`uint32_t`; sums wrap as they do in the source. `computeRoutes` takes fuel for its
two `while` loops, neither of which is bounded by its text, and answers `none`
when the fuel runs out.

Two things the source leaves to its environment are parameters: the reading
`now` of the steady clock, fixed during a call, and the order in which the
container of distances is iterated when the table is built.
-/

namespace Netsim.Network

open Foundation

abbrev NodeId := UInt32

/-- Adjacency lists: `(neighbour, cost)` in the order they are scanned. -/
abbrev TopologyGraph := UnorderedMap NodeId (List (NodeId × UInt32))

abbrev Breakers := UnorderedMap NodeId CircuitBreaker

/-- `{cost, node_id}`. -/
abbrev PathNode := UInt32 × NodeId

/-- The lexicographic order of `std::pair`. -/
def pathNodeLe (a b : PathNode) : Prop :=
  a.1 < b.1 ∨ (a.1 = b.1 ∧ a.2 ≤ b.2)

instance : DecidableRel pathNodeLe := fun a b =>
  inferInstanceAs (Decidable (a.1 < b.1 ∨ (a.1 = b.1 ∧ a.2 ≤ b.2)))

theorem pathNodeLe_iff {a b : PathNode} : pathNodeLe a b ↔
    a.1.toNat < b.1.toNat ∨ (a.1.toNat = b.1.toNat ∧ a.2.toNat ≤ b.2.toNat) := by
  rw [pathNodeLe, UInt32.lt_iff_toNat_lt, UInt32.le_iff_toNat_le, UInt32.toNat_inj]

instance : Std.Total pathNodeLe :=
  ⟨fun a b => by rw [pathNodeLe_iff, pathNodeLe_iff]; omega⟩

instance : IsTrans PathNode pathNodeLe :=
  ⟨fun a b c hab hbc => by rw [pathNodeLe_iff] at hab hbc ⊢; omega⟩

instance : Std.Antisymm pathNodeLe :=
  ⟨fun a b hab hba => by
    rw [pathNodeLe_iff] at hab hba
    exact Prod.ext (UInt32.toNat_inj.mp (by omega)) (UInt32.toNat_inj.mp (by omega))⟩

structure RoutingTableEntry where
  destinationSubnet : IPv4Address
  mask : SubnetMask
  nextHopId : NodeId
  interfaceName : String
  metric : UInt32
deriving DecidableEq, Repr

structure Router where
  id : NodeId
  routingTable : List RoutingTableEntry
  linkBreakers : Breakers

/-! ### Link state -/

/-- `link_breakers_[neighbor_id]`, which creates a breaker on first use. -/
def breakerAt (now : ℤ) (breakers : Breakers) (neighborId : NodeId) : CircuitBreaker :=
  (breakers.find neighborId).getD (CircuitBreaker.makeDefault now)

def recordLinkSuccess (now : ℤ) (neighborId : NodeId) (r : Router) : Router :=
  let (_, b) := (breakerAt now r.linkBreakers neighborId).recordSuccess now
  { r with linkBreakers := r.linkBreakers.set neighborId b }

def recordLinkFailure (now : ℤ) (neighborId : NodeId) (r : Router) : Router :=
  let (_, b) := (breakerAt now r.linkBreakers neighborId).recordFailure now
  { r with linkBreakers := r.linkBreakers.set neighborId b }

def getLinkState (now : ℤ) (neighborId : NodeId) (r : Router) : CircuitState × Router :=
  let (state, b) := (breakerAt now r.linkBreakers neighborId).getState now
  (state, { r with linkBreakers := r.linkBreakers.set neighborId b })

/-! ### Route computation -/

/-- `std::numeric_limits<uint32_t>::max()`. -/
def uint32Max : UInt32 := 4294967295

/-- The local variables of `compute_routes` during the relaxation loop, and the
breakers, which a query may move to HalfOpen. -/
structure RelaxState where
  distances : UnorderedMap NodeId UInt32
  parent : UnorderedMap NodeId NodeId
  minHeap : MinHeap pathNodeLe
  linkBreakers : Breakers

def initDistances (graph : TopologyGraph) : UnorderedMap NodeId UInt32 :=
  graph.keys.foldl (fun distances node => distances.set node uint32Max) ∅

def initRelax (r : Router) (graph : TopologyGraph) : RelaxState where
  distances := (initDistances graph).set r.id 0
  parent := ∅
  minHeap := MinHeap.singleton (0, r.id)
  linkBreakers := r.linkBreakers

/-- The cost used for the edge `u → v`: inflated when `u` is the source and the
breaker towards `v` reports Open. -/
def linkCost (now : ℤ) (source u v : NodeId) (originalCost : UInt32)
    (breakers : Breakers) : UInt32 × Breakers :=
  if u = source then
    match breakers.find v with
    | some breaker =>
        -- the query stores the breaker back: it may have moved to HalfOpen
        let (state, breaker) := breaker.getState now
        (if state = .Open then 999999 else originalCost, breakers.set v breaker)
    | none => (originalCost, breakers)
  else (originalCost, breakers)

/-- The body of the loop over the edges of `u`. Reading `distances[v]` inserts
`0` for a node that was not initialised. -/
def relaxEdge (now : ℤ) (source u : NodeId) (currentDist : UInt32)
    (st : RelaxState) (edge : NodeId × UInt32) : RelaxState :=
  let (v, originalCost) := edge
  let (cost, linkBreakers) := linkCost now source u v originalCost st.linkBreakers
  let newDist := currentDist + cost
  let (distV, distances) := st.distances.at' v
  if newDist < distV then
    { distances := distances.set v newDist
      parent := st.parent.set v u
      minHeap := st.minHeap.push (newDist, v)
      linkBreakers := linkBreakers }
  else { st with distances := distances, linkBreakers := linkBreakers }

/-- One round of `while (!min_heap.empty())`. -/
def relaxRound (now : ℤ) (source : NodeId) (graph : TopologyGraph)
    (st : RelaxState) : Option RelaxState :=
  match st.minHeap.pop with
  | none => none
  | some ((currentDist, u), minHeap) =>
      let (distU, distances) := st.distances.at' u
      let st := { st with distances := distances, minHeap := minHeap }
      -- a stale entry: `u` has been reached for less since it was pushed
      if currentDist > distU then some st
      else
        match graph.find u with
        | none => some st
        | some neighbours => some (neighbours.foldl (relaxEdge now source u currentDist) st)

/-- The relaxation loop. -/
def relaxAll (now : ℤ) (r : Router) (graph : TopologyGraph) (fuel : ℕ) :
    Option RelaxState :=
  whileFuel (relaxRound now r.id graph) fuel (initRelax r graph)

/-- One step of the backward walk that looks for the next hop. -/
def parentStep (source : NodeId) (parent : UnorderedMap NodeId NodeId)
    (current : NodeId) : Option NodeId :=
  match parent.find current with
  | some p => if p ≠ source then some p else none
  | none => none

/-- One iteration of the loop that builds the table; the inner `none` is a
`continue`. -/
def routeFor (source : NodeId) (parent : UnorderedMap NodeId NodeId)
    (nodeToIp : UnorderedMap NodeId IPv4Address)
    (nodeToMask : UnorderedMap NodeId SubnetMask) (dest : NodeId) (totalCost : UInt32)
    (fuel : ℕ) : Option (Option RoutingTableEntry) :=
  if dest = source ∨ totalCost ≥ 999999 then some none
  else
    (whileFuel (parentStep source parent) fuel dest).map fun current =>
      -- the next hop must have an address, although the entry does not hold it
      match nodeToIp.find current, nodeToIp.find dest, nodeToMask.find dest with
      | some _, some destIp, some destMask =>
          some {
            destinationSubnet := ⟨destIp.toU32 &&& destMask.toU32⟩
            mask := destMask
            nextHopId := current
            interfaceName := "eth0"
            metric := totalCost }
      | _, _, _ => none

/-- `routing_table_.push_back(entry)`, unless the iteration was cut short. -/
def pushEntry (dest : NodeId) (entry : Option RoutingTableEntry)
    (routes : List (NodeId × RoutingTableEntry)) : List (NodeId × RoutingTableEntry) :=
  match entry with
  | some entry => (dest, entry) :: routes
  | none => routes

/-- The entries pushed for a list of `(dest, total_cost)`, each with the
destination it was pushed for. -/
def routesFor (source : NodeId) (parent : UnorderedMap NodeId NodeId)
    (nodeToIp : UnorderedMap NodeId IPv4Address)
    (nodeToMask : UnorderedMap NodeId SubnetMask) :
    List (NodeId × UInt32) → ℕ → Option (List (NodeId × RoutingTableEntry))
  | [], _ => some []
  | (dest, totalCost) :: rest, fuel =>
      (routeFor source parent nodeToIp nodeToMask dest totalCost fuel).bind fun entry =>
        (routesFor source parent nodeToIp nodeToMask rest fuel).map (pushEntry dest entry)

/-- `compute_routes` up to the stores into the router: the entries with their
destinations, and the breakers as the queries left them. -/
def destinationRoutes (iter : IterationOrder (NodeId × UInt32)) (now : ℤ) (r : Router)
    (graph : TopologyGraph) (nodeToIp : UnorderedMap NodeId IPv4Address)
    (nodeToMask : UnorderedMap NodeId SubnetMask) (fuel : ℕ) :
    Option (List (NodeId × RoutingTableEntry) × Breakers) :=
  -- a source that is no key returns early, with the table already cleared
  if (initDistances graph).find r.id = none then some ([], r.linkBreakers)
  else
    (relaxAll now r graph fuel).bind fun st =>
      (routesFor r.id st.parent nodeToIp nodeToMask (iter.order st.distances.toPairs) fuel).map
        fun routes => (routes, st.linkBreakers)

/-- `Router::compute_routes`. The previous table is cleared first. -/
def computeRoutes (iter : IterationOrder (NodeId × UInt32)) (now : ℤ) (r : Router)
    (graph : TopologyGraph) (nodeToIp : UnorderedMap NodeId IPv4Address)
    (nodeToMask : UnorderedMap NodeId SubnetMask) (fuel : ℕ) : Option Router :=
  (destinationRoutes iter now r graph nodeToIp nodeToMask fuel).map fun (routes, breakers) =>
    { r with routingTable := routes.map Prod.snd, linkBreakers := breakers }

/-! ### Lookup -/

structure LookupState where
  routeFound : Bool
  bestNextHop : NodeId
  longestPrefix : UInt8
deriving DecidableEq, Repr

/-- The body of the loop of `lookup_route`. -/
def lookupStep (destinationIp : IPv4Address) (st : LookupState)
    (entry : RoutingTableEntry) : LookupState :=
  if sameSubnet destinationIp entry.destinationSubnet entry.mask then
    let currentPrefix := entry.mask.toPrefixLength
    if !st.routeFound || decide (currentPrefix > st.longestPrefix) then
      ⟨true, entry.nextHopId, currentPrefix⟩
    else st
  else st

/-- `Router::lookup_route`. -/
def lookupRoute (r : Router) (destinationIp : IPv4Address) : Bool × NodeId :=
  let st := r.routingTable.foldl (lookupStep destinationIp) ⟨false, 0, 0⟩
  (st.routeFound, st.bestNextHop)

end Netsim.Network
