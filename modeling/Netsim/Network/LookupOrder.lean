import Netsim.Network.Forwarding

/-!
# Lookups and the order of the table

The container of distances is iterated in no particular order, so the entries of the
table come in any order. A lookup takes the first of the matching entries of longest
prefix. Whether it finds one does not depend on the order; which next hop it answers
depends on it exactly when those entries disagree (`lookupRoute_order_iff`), as those
of two nodes of one subnet may.
-/

namespace Netsim.Network

open Foundation

variable {iter : IterationOrder (NodeId × UInt32)} {now : ℤ} {r r' : Router}
  {graph : TopologyGraph} {nodeToIp : UnorderedMap NodeId IPv4Address}
  {nodeToMask : UnorderedMap NodeId SubnetMask} {parent : UnorderedMap NodeId NodeId}
  {source : NodeId} {fuel : ℕ} {dip : IPv4Address} {table table' : List RoutingTableEntry}
  {e e' : RoutingTableEntry}

/-! ### What a lookup answers -/

/-- An entry that matches, with no longer one that does. -/
structure Longest (dip : IPv4Address) (table : List RoutingTableEntry) (e : RoutingTableEntry) :
    Prop where
  mem : e ∈ table
  isMatch : Matches dip e
  le : ∀ x ∈ table, Matches dip x → x.mask.toPrefixLength ≤ e.mask.toPrefixLength

theorem Longest.perm (h : Longest dip table e) (hperm : table.Perm table') :
    Longest dip table' e where
  mem := hperm.mem_iff.mp h.mem
  isMatch := h.isMatch
  le := fun x hx => h.le x (hperm.mem_iff.mpr hx)

/-- A last entry at least as long as the matches before it. -/
theorem Longest.append_new (hmatch : Matches dip e')
    (hle : ∀ x ∈ table, Matches dip x → x.mask.toPrefixLength ≤ e'.mask.toPrefixLength) :
    Longest dip (table ++ [e']) e' where
  mem := by simp
  isMatch := hmatch
  le := by
    intro x hx hx'
    rcases List.mem_append.mp hx with hold | hnew
    · exact hle x hold hx'
    · rw [List.mem_singleton.mp hnew]
      exact UInt8.le_refl _

/-- A last entry that is no longer, or no match. -/
theorem Longest.append_old (h : Longest dip table e)
    (hle : Matches dip e' → e'.mask.toPrefixLength ≤ e.mask.toPrefixLength) :
    Longest dip (table ++ [e']) e where
  mem := List.mem_append_left _ h.mem
  isMatch := h.isMatch
  le := by
    intro x hx hx'
    rcases List.mem_append.mp hx with hold | hnew
    · exact h.le x hold hx'
    · obtain rfl := List.mem_singleton.mp hnew
      exact hle hx'

/-- The loop over any table ends with the first of its longest matches, if any. -/
theorem foldl_lookupStep_first (dip : IPv4Address) (table : List RoutingTableEntry) :
    (table.foldl (lookupStep dip) ⟨false, 0, 0⟩ = ⟨false, 0, 0⟩ ∧ ∀ e ∈ table, ¬ Matches dip e) ∨
    ∃ front e back, table = front ++ e :: back ∧ Longest dip table e ∧
      (∀ x ∈ front, Matches dip x → x.mask.toPrefixLength < e.mask.toPrefixLength) ∧
      table.foldl (lookupStep dip) ⟨false, 0, 0⟩ =
        ⟨true, e.nextHopId, e.mask.toPrefixLength⟩ := by
  induction table using List.reverseRecOn with
  | nil => exact Or.inl ⟨rfl, by simp⟩
  | append_singleton table last ih =>
      rw [List.foldl_append, List.foldl_cons, List.foldl_nil]
      rcases ih with ⟨hnone, hno⟩ | ⟨front, e, back, hsplit, hlongest, hfront, hsome⟩
      · rw [hnone]
        by_cases hlast : Matches dip last
        · refine Or.inr ⟨table, last, [], rfl, ?_, ?_, lookupStep_new hlast (by simp)⟩
          · exact .append_new hlast fun x hx hmatch => absurd hmatch (hno x hx)
          · exact fun x hx hmatch => absurd hmatch (hno x hx)
        · refine Or.inl ⟨lookupStep_of_not_matches hlast, fun x hx => ?_⟩
          rcases List.mem_append.mp hx with hold | hnew
          · exact hno x hold
          · rwa [List.mem_singleton.mp hnew]
      · rw [hsome]
        by_cases hlonger : Matches dip last ∧
            e.mask.toPrefixLength < last.mask.toPrefixLength
        · obtain ⟨hlast, hlt⟩ := hlonger
          have hbelow : ∀ x ∈ table, Matches dip x →
              x.mask.toPrefixLength < last.mask.toPrefixLength := fun x hx hmatch =>
            UInt8.lt_of_le_of_lt (hlongest.le x hx hmatch) hlt
          refine Or.inr ⟨table, last, [], rfl, ?_, hbelow, lookupStep_new hlast fun _ => hlt⟩
          exact .append_new hlast fun x hx hmatch => UInt8.le_of_lt (hbelow x hx hmatch)
        · have hle : Matches dip last →
              last.mask.toPrefixLength ≤ e.mask.toPrefixLength := fun hlast =>
            UInt8.not_lt.mp fun hlt => hlonger ⟨hlast, hlt⟩
          refine Or.inr ⟨front, e, back ++ [last], by rw [hsplit]; simp, hlongest.append_old hle,
            hfront, ?_⟩
          by_cases hlast : Matches dip last
          · exact lookupStep_keep rfl (UInt8.not_lt.mpr (hle hlast))
          · exact lookupStep_of_not_matches hlast

/-- A lookup answers with a longest match, or finds that nothing matches. -/
theorem lookupRoute_cases (r : Router) (dip : IPv4Address) :
    (lookupRoute r dip = (false, 0) ∧ ∀ e ∈ r.routingTable, ¬ Matches dip e) ∨
      ∃ e, Longest dip r.routingTable e ∧ lookupRoute r dip = (true, e.nextHopId) := by
  unfold lookupRoute
  rcases foldl_lookupStep_first dip r.routingTable with
    ⟨hnone, hno⟩ | ⟨_, e, _, -, hlongest, -, hsome⟩
  · exact Or.inl ⟨by rw [hnone], hno⟩
  · exact Or.inr ⟨e, hlongest, by rw [hsome]⟩

theorem lookupRoute_found_iff : (lookupRoute r dip).1 = true ↔
    ∃ e ∈ r.routingTable, Matches dip e := by
  rcases lookupRoute_cases r dip with ⟨hnone, hno⟩ | ⟨e, hlongest, hsome⟩
  · rw [hnone]
    exact iff_of_false Bool.false_ne_true fun ⟨e, he, hmatch⟩ => hno e he hmatch
  · rw [hsome]
    exact iff_of_true rfl ⟨e, hlongest.mem, hlongest.isMatch⟩

/-- A longest match at the head of the table is the answer. -/
theorem lookupRoute_head (htable : r.routingTable = e :: table)
    (he : Longest dip r.routingTable e) : lookupRoute r dip = (true, e.nextHopId) := by
  unfold lookupRoute
  rcases foldl_lookupStep_first dip r.routingTable with
    ⟨-, hno⟩ | ⟨front, e', back, hsplit, hlongest, hfront, hsome⟩
  · exact absurd he.isMatch (hno e he.mem)
  · rw [hsome]
    cases front with
    | nil =>
        rw [htable] at hsplit
        rw [(List.cons.inj hsplit).1]
    | cons x front =>
        obtain rfl : e = x := (List.cons.inj (htable.symm.trans hsplit)).1
        have hlt := hfront e List.mem_cons_self he.isMatch
        exact absurd hlt (UInt8.not_lt.mpr (he.le e' hlongest.mem hlongest.isMatch))

/-! ### The table in any order -/

theorem routesFor_perm {l l' : List (NodeId × UInt32)} (h : l.Perm l') :
    ∀ {routes : List (NodeId × RoutingTableEntry)},
      routesFor source parent nodeToIp nodeToMask l fuel = some routes →
      ∃ routes', routesFor source parent nodeToIp nodeToMask l' fuel = some routes' ∧
        routes.Perm routes' := by
  have hpush : ∀ (dest : NodeId) (o : Option RoutingTableEntry)
      {a b : List (NodeId × RoutingTableEntry)}, a.Perm b →
      (pushEntry dest o a).Perm (pushEntry dest o b) := by
    intro dest o a b hab
    cases o with
    | none => exact hab
    | some e => exact hab.cons (dest, e)
  induction h with
  | nil => exact fun h => ⟨_, h, List.Perm.refl _⟩
  | cons p _ ih =>
      intro routes hroutes
      obtain ⟨o, ho, hpushed⟩ := Option.bind_eq_some_iff.mp hroutes
      obtain ⟨rest, hrest, rfl⟩ := Option.map_eq_some_iff.mp hpushed
      obtain ⟨rest', hrest', hperm⟩ := ih hrest
      refine ⟨pushEntry p.1 o rest', ?_, hpush p.1 o hperm⟩
      rw [routesFor, ho, Option.bind_some, hrest', Option.map_some]
  | swap p q l =>
      intro routes hroutes
      obtain ⟨o, ho, hpushed⟩ := Option.bind_eq_some_iff.mp hroutes
      obtain ⟨tail, htail, rfl⟩ := Option.map_eq_some_iff.mp hpushed
      obtain ⟨o', ho', hpushed'⟩ := Option.bind_eq_some_iff.mp htail
      obtain ⟨rest, hrest, rfl⟩ := Option.map_eq_some_iff.mp hpushed'
      refine ⟨pushEntry p.1 o' (pushEntry q.1 o rest), ?_, ?_⟩
      · rw [routesFor, ho', Option.bind_some, routesFor, ho, Option.bind_some, hrest,
          Option.map_some, Option.map_some]
      · cases o with
        | none => exact List.Perm.refl _
        | some e =>
            cases o' with
            | none => exact List.Perm.refl _
            | some e' => exact List.Perm.swap _ _ _
  | trans _ _ ih ih' =>
      intro routes hroutes
      obtain ⟨routes', hroutes', hperm⟩ := ih hroutes
      obtain ⟨routes'', hroutes'', hperm'⟩ := ih' hroutes'
      exact ⟨routes'', hroutes'', hperm.trans hperm'⟩

/-- What a call comes to, from the relaxation and the order of its distances. -/
theorem computeRoutes_eq_some : computeRoutes iter now r graph nodeToIp nodeToMask fuel = some r' ↔
    (r.id ∉ graph.keys ∧ r' = { r with routingTable := [] }) ∨
    (r.id ∈ graph.keys ∧ ∃ st routes, relaxAll now r graph fuel = some st ∧
      routesFor r.id st.parent nodeToIp nodeToMask (iter.order st.distances.toPairs) fuel =
        some routes ∧
      r' = { r with routingTable := routes.map Prod.snd, linkBreakers := st.linkBreakers }) := by
  unfold computeRoutes destinationRoutes
  by_cases hr : r.id ∈ graph.keys
  · rw [if_neg (fun h => source_keyed_iff.mp h hr)]
    simp only [Option.map_eq_some_iff, Option.bind_eq_some_iff, hr, not_true_eq_false,
      false_and, true_and, false_or]
    constructor
    · rintro ⟨_, ⟨st, hst, routes, hroutes, rfl⟩, rfl⟩
      exact ⟨st, routes, hst, hroutes, rfl⟩
    · rintro ⟨st, routes, hst, hroutes, rfl⟩
      exact ⟨_, ⟨st, hst, routes, hroutes, rfl⟩, rfl⟩
  · rw [if_pos (source_keyed_iff.mpr hr)]
    simp [hr, eq_comm]

/-- A call that returns does so in every order, with the entries in some order. -/
theorem computeRoutes_perm (iter' : IterationOrder (NodeId × UInt32))
    (h : computeRoutes iter now r graph nodeToIp nodeToMask fuel = some r') :
    ∃ r'', computeRoutes iter' now r graph nodeToIp nodeToMask fuel = some r'' ∧
      r'.routingTable.Perm r''.routingTable := by
  rcases computeRoutes_eq_some.mp h with ⟨hr, rfl⟩ | ⟨hr, st, routes, hst, hroutes, rfl⟩
  · exact ⟨_, computeRoutes_eq_some.mpr (Or.inl ⟨hr, rfl⟩), List.Perm.refl _⟩
  · obtain ⟨routes', hroutes', hperm⟩ :=
      routesFor_perm ((iter.perm _).trans (iter'.perm _).symm) hroutes
    exact ⟨_, computeRoutes_eq_some.mpr (Or.inr ⟨hr, st, routes', hst, hroutes', rfl⟩),
      hperm.map Prod.snd⟩

/-- The order that takes `p` first. -/
def firstOrder (p : NodeId × UInt32) : IterationOrder (NodeId × UInt32) where
  order := fun l => if p ∈ l then p :: l.erase p else l
  perm := fun l => by
    split_ifs with h
    · exact (List.perm_cons_erase h).symm
    · exact List.Perm.refl l

/-- Any entry of the table is its first one in some order. -/
theorem computeRoutes_first (h : computeRoutes iter now r graph nodeToIp nodeToMask fuel = some r')
    (he : e ∈ r'.routingTable) :
    ∃ iter' r'' rest, computeRoutes iter' now r graph nodeToIp nodeToMask fuel = some r'' ∧
      r'.routingTable.Perm r''.routingTable ∧ r''.routingTable = e :: rest := by
  rcases computeRoutes_eq_some.mp h with ⟨-, rfl⟩ | ⟨hr, st, routes, hst, hroutes, rfl⟩
  · exact absurd he List.not_mem_nil
  obtain ⟨⟨dest, e⟩, hmem, rfl⟩ := List.mem_map.mp he
  obtain ⟨totalCost, hpair, hone⟩ := routeFor_of_mem hroutes hmem
  have hpair' : (dest, totalCost) ∈ st.distances.toPairs := (iter.perm _).mem_iff.mp hpair
  have horder : (firstOrder (dest, totalCost)).order st.distances.toPairs =
      (dest, totalCost) :: st.distances.toPairs.erase (dest, totalCost) := if_pos hpair'
  obtain ⟨routes', hroutes', hperm⟩ := routesFor_perm
    ((iter.perm _).trans ((firstOrder (dest, totalCost)).perm _).symm) hroutes
  obtain ⟨rest, rfl⟩ : ∃ rest, routes' = (dest, e) :: rest := by
    rw [horder, routesFor, hone, Option.bind_some] at hroutes'
    obtain ⟨rest, -, hpush⟩ := Option.map_eq_some_iff.mp hroutes'
    exact ⟨rest, hpush.symm⟩
  exact ⟨firstOrder (dest, totalCost), _, rest.map Prod.snd,
    computeRoutes_eq_some.mpr (Or.inr ⟨hr, st, _, hst, hroutes', rfl⟩), hperm.map Prod.snd, rfl⟩

theorem computeRoutes_mono : FuelMono (computeRoutes iter now r graph nodeToIp nodeToMask) :=
  destinationRoutes_mono.map _

/-- **What a lookup owes to the order.** When a call returns it returns in every order,
with the same entries. Whether an address is found is the same in all orders; so is its
next hop, if and only if the longest matches agree on it. -/
theorem lookupRoute_order_iff (iter : IterationOrder (NodeId × UInt32)) (now : ℤ) (r : Router)
    (graph : TopologyGraph) (nodeToIp : UnorderedMap NodeId IPv4Address)
    (nodeToMask : UnorderedMap NodeId SubnetMask) (dip : IPv4Address)
    (h : Returns (computeRoutes iter now r graph nodeToIp nodeToMask) r') :
    (∀ iter', ∃ r'', Returns (computeRoutes iter' now r graph nodeToIp nodeToMask) r'' ∧
      r'.routingTable.Perm r''.routingTable ∧
      (lookupRoute r'' dip).1 = (lookupRoute r' dip).1) ∧
    ((∀ iter' r'', Returns (computeRoutes iter' now r graph nodeToIp nodeToMask) r'' →
        lookupRoute r'' dip = lookupRoute r' dip) ↔
      ∀ e e', Longest dip r'.routingTable e → Longest dip r'.routingTable e' →
        e.nextHopId = e'.nextHopId) := by
  obtain ⟨fuel, hfuel⟩ := h
  have hrun := hfuel fuel le_rfl
  refine ⟨fun iter' => ?_, fun hall e e' he he' => ?_, fun hagree iter' r'' hr'' => ?_⟩
  · obtain ⟨r'', hr'', hperm⟩ := computeRoutes_perm iter' hrun
    refine ⟨r'', computeRoutes_mono.returns hr'', hperm, ?_⟩
    rw [Bool.eq_iff_iff, lookupRoute_found_iff, lookupRoute_found_iff]
    exact exists_congr fun e => and_congr_left' hperm.mem_iff.symm
  · -- put each of the two first
    have hfirst : ∀ {e}, Longest dip r'.routingTable e →
        lookupRoute r' dip = (true, e.nextHopId) := by
      intro e he
      obtain ⟨iter', r'', rest, hr'', hperm, htable⟩ := computeRoutes_first hrun he.mem
      rw [← hall iter' r'' (computeRoutes_mono.returns hr'')]
      exact lookupRoute_head htable (he.perm hperm)
    exact (Prod.mk.inj ((hfirst he).symm.trans (hfirst he'))).2
  · obtain ⟨r₂, hr₂, hperm⟩ := computeRoutes_perm iter' hrun
    obtain rfl := (computeRoutes_mono.returns hr₂).unique hr''
    rcases lookupRoute_cases r' dip with ⟨hnone, hno⟩ | ⟨e, he, hsome⟩
    · rcases lookupRoute_cases r₂ dip with ⟨hnone', -⟩ | ⟨e', he', -⟩
      · rw [hnone, hnone']
      · exact absurd he'.isMatch (hno e' (hperm.mem_iff.mpr he'.mem))
    · rcases lookupRoute_cases r₂ dip with ⟨-, hno⟩ | ⟨e', he', hsome'⟩
      · exact absurd he.isMatch (hno e (hperm.mem_iff.mp he.mem))
      · rw [hsome, hsome', hagree e e' he (he'.perm hperm.symm)]

/-- Two routers in one subnet, each a neighbour of router 1. -/
def siblings : TopologyGraph := UnorderedMap.ofPairs [(1, [(2, 1), (3, 1)]), (2, []), (3, [])]

def siblingsIp : UnorderedMap NodeId IPv4Address :=
  UnorderedMap.ofPairs [(1, ⟨0x0A000101⟩), (2, ⟨0x0A000202⟩), (3, ⟨0x0A000203⟩)]

/-- Enumeration from the other end. -/
def reversedOrder (α : Type) : IterationOrder α := ⟨List.reverse, List.reverse_perm⟩

/-- Router 1's answer for the address of router 2, when the distances are enumerated by
`iter`. -/
theorem siblings_lookup (iter : IterationOrder (NodeId × UInt32)) (answer : Bool × NodeId)
    (h : (computeRoutes iter 0 (routerWithId 1) siblings siblingsIp triangleMask 8).map
      (fun r' => lookupRoute r' ⟨0x0A000202⟩) = some answer) :
    ∃ r', Returns (computeRoutes iter 0 (routerWithId 1) siblings siblingsIp triangleMask) r' ∧
      lookupRoute r' ⟨0x0A000202⟩ = answer := by
  obtain ⟨r', hr', hanswer⟩ := Option.map_eq_some_iff.mp h
  exact ⟨r', computeRoutes_mono.returns hr', hanswer⟩

theorem lookupRoute_order_iff_siblings :
    ∃ r', (∀ iter', ∃ r'', Returns (computeRoutes iter' 0 (routerWithId 1) siblings siblingsIp
        triangleMask) r'' ∧ r'.routingTable.Perm r''.routingTable ∧
        (lookupRoute r'' ⟨0x0A000202⟩).1 = (lookupRoute r' ⟨0x0A000202⟩).1) ∧
      ((∀ iter' r'', Returns (computeRoutes iter' 0 (routerWithId 1) siblings siblingsIp
          triangleMask) r'' → lookupRoute r'' ⟨0x0A000202⟩ = lookupRoute r' ⟨0x0A000202⟩) ↔
        ∀ e e', Longest ⟨0x0A000202⟩ r'.routingTable e →
          Longest ⟨0x0A000202⟩ r'.routingTable e' → e.nextHopId = e'.nextHopId) := by
  obtain ⟨r', hr', -⟩ := siblings_lookup (IterationOrder.stored _) (true, 3) (by decide +kernel)
  exact ⟨r', lookupRoute_order_iff (IterationOrder.stored _) 0 (routerWithId 1) siblings
    siblingsIp triangleMask ⟨0x0A000202⟩ hr'⟩

/-- The address of router 2 is routed through router 2 or router 3, whichever is
enumerated first. -/
theorem not_lookupRoute_order :
    ∃ r₁ r₂, Returns (computeRoutes (IterationOrder.stored _) 0 (routerWithId 1) siblings
        siblingsIp triangleMask) r₁ ∧
      Returns (computeRoutes (reversedOrder _) 0 (routerWithId 1) siblings siblingsIp
        triangleMask) r₂ ∧
      lookupRoute r₁ ⟨0x0A000202⟩ ≠ lookupRoute r₂ ⟨0x0A000202⟩ := by
  obtain ⟨r₁, hr₁, hanswer₁⟩ :=
    siblings_lookup (IterationOrder.stored _) (true, 3) (by decide +kernel)
  obtain ⟨r₂, hr₂, hanswer₂⟩ := siblings_lookup (reversedOrder _) (true, 2) (by decide +kernel)
  refine ⟨r₁, r₂, hr₁, hr₂, ?_⟩
  rw [hanswer₁, hanswer₂]
  decide

end Netsim.Network
