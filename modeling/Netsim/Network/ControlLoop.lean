import Netsim.Foundation.LazyTimer
import Netsim.Network.BreakerTrace
import Netsim.Network.LookupOrder

/-!
# The control loop of a router

Successes and failures of the links are recorded, link states are asked for, and routes
are computed, in any order, on one clock. A query may move a breaker to HalfOpen, and
`compute_routes` queries the breakers of the source's links, so both write to the state
that later decisions are made from.

They might as well not: the state of each link is that of a breaker which has only been
told of this link's own successes and failures, and the table depends on the states of
the links and on nothing else of the past (`control_run`).
-/

namespace Netsim.Network

open Foundation

namespace CircuitBreaker

/-- What later calls depend on: the time of the last change counts while Open. -/
def core (b : CircuitBreaker) : CircuitState × UInt32 × UInt64 × UInt32 × UInt32 × Option ℤ :=
  (b.state, b.failureThreshold, b.recoveryTimeoutMs, b.failureCount, b.successCount,
    if b.state = .Open then some b.lastStateChangeTime else none)

/-- A link is told of a success, or of a failure. -/
def recordOutcome (now : ℤ) (success : Bool) (b : CircuitBreaker) : CircuitBreaker :=
  if success then (b.recordSuccess now).2 else (b.recordFailure now).2

def settle (now : ℤ) (b : CircuitBreaker) : CircuitBreaker := (b.getState now).2

variable {now now' : ℤ} {b b' : CircuitBreaker}

/-- A timeout that has run out stays so. -/
theorem recoveryDue_mono (hle : now ≤ now') (h : b.recoveryDue now = true) :
    b.recoveryDue now' = true := by
  unfold recoveryDue elapsedMs at h ⊢
  rw [decide_eq_true_iff] at h ⊢
  exact Int.le_trans h (Int.tdiv_le_tdiv (by decide) (Int.sub_le_sub_right hle _))

theorem settle_of_due (h : b.state = .Open ∧ b.recoveryDue now = true) :
    b.settle now = b.transitionTo now .HalfOpen :=
  getStateAt_of_recovers (r := ⟨now, now, now⟩) h

theorem settle_of_not_due (h : ¬(b.state = .Open ∧ b.recoveryDue now = true)) :
    b.settle now = b :=
  getStateAt_of_stays (r := ⟨now, now, now⟩) h

theorem settle_of_ne_open (h : b.state ≠ .Open) : b.settle now = b :=
  settle_of_not_due fun hdue => h hdue.1

/-- Settling again at the same time does nothing. -/
theorem settle_idem (now : ℤ) (b : CircuitBreaker) : (b.settle now).settle now = b.settle now := by
  by_cases h : b.state = .Open ∧ b.recoveryDue now = true
  · rw [settle_of_due h]
    exact settle_of_not_due fun h' => by simp [transitionTo] at h'
  · rw [settle_of_not_due h, settle_of_not_due h]

theorem recordOutcome_eq (now : ℤ) (success : Bool) (b : CircuitBreaker) :
    b.recordOutcome now success =
      ((b.settle now).record now (if success then .success else .failure)).2 := by
  cases success <;> rfl

/-- Breakers that differ in nothing, or in the time of the last change while not Open. -/
theorem core_eq_iff : core b = core b' ↔
    b = b' ∨ b.state ≠ .Open ∧ ∃ t, b' = { b with lastStateChangeTime := t } := by
  obtain ⟨state, _, _, _, _, t⟩ := b
  obtain ⟨state', _, _, _, _, t'⟩ := b'
  simp only [core, Prod.mk.injEq, mk.injEq]
  constructor
  · rintro ⟨rfl, rfl, rfl, rfl, rfl, htime⟩
    by_cases hs : state = .Open
    · rw [if_pos hs, if_pos hs] at htime
      exact Or.inl ⟨rfl, rfl, rfl, rfl, rfl, Option.some.inj htime⟩
    · exact Or.inr ⟨hs, t', rfl, rfl, rfl, rfl, rfl, rfl⟩
  · rintro (⟨rfl, rfl, rfl, rfl, rfl, rfl⟩ | ⟨hs, x, rfl, rfl, rfl, rfl, rfl, -⟩)
    · exact ⟨rfl, rfl, rfl, rfl, rfl, rfl⟩
    · exact ⟨rfl, rfl, rfl, rfl, rfl, by rw [if_neg hs, if_neg hs]⟩

theorem core_record (now : ℤ) (c : Call) (h : core b = core b') :
    core (b.record now c).2 = core (b'.record now c).2 := by
  rcases core_eq_iff.mp h with rfl | ⟨hs, t, rfl⟩
  · rfl
  · cases c with
    | query => exact h
    | success =>
        cases hstate : b.state with
        | Open => exact absurd hstate hs
        | Closed => simp [record, countSuccess, hstate, core]
        | HalfOpen =>
            simp only [record, countSuccess, hstate]
            split_ifs <;> simp [core, transitionTo]
    | failure =>
        cases hstate : b.state with
        | Open => exact absurd hstate hs
        | HalfOpen => simp [record, countFailure, hstate, core, transitionTo]
        | Closed =>
            simp only [record, countFailure, hstate]
            split_ifs <;> simp [core, transitionTo]

/-- A breaker is a lazy timer: Open runs out when it is looked at. -/
theorem lazyTimer : LazyTimer settle recordOutcome core where
  settle_congr := by
    intro now b b' h
    rcases core_eq_iff.mp h with rfl | ⟨hs, t, rfl⟩
    · rfl
    · rw [settle_of_ne_open hs, settle_of_ne_open (b := { b with lastStateChangeTime := t }) hs]
      exact h
  act_congr := by
    intro now success b b' h
    rcases core_eq_iff.mp h with rfl | ⟨hs, t, rfl⟩
    · rfl
    · rw [recordOutcome_eq, recordOutcome_eq, settle_of_ne_open hs,
        settle_of_ne_open (b := { b with lastStateChangeTime := t }) hs]
      exact core_record _ _ h
  settle_settle := by
    intro now now' b hle
    by_cases hdue : b.state = .Open ∧ b.recoveryDue now = true
    · rw [settle_of_due hdue, settle_of_due ⟨hdue.1, recoveryDue_mono hle hdue.2⟩,
        settle_of_not_due fun h => by simp [transitionTo] at h]
      simp [core, transitionTo]
    · rw [settle_of_not_due hdue]
  act_settle := by
    intro now success b
    rw [recordOutcome_eq, recordOutcome_eq, settle_idem]

end CircuitBreaker

/-! ### The breakers of a router -/

variable {now now' : ℤ} {r r' r₀ : Router} {graph : TopologyGraph} {st st' : RelaxState}
  {iter : IterationOrder (NodeId × UInt32)} {nodeToIp : UnorderedMap NodeId IPv4Address}
  {nodeToMask : UnorderedMap NodeId SubnetMask} {fuel : ℕ} {breakers : Breakers}
  {source u v n : NodeId}

abbrev Alike (now : ℤ) (b b' : CircuitBreaker) : Prop :=
  AlikeFrom CircuitBreaker.settle CircuitBreaker.core now b b'

/-- The breaker towards a neighbour, which is made when it is first used. When it is
made does not matter, as it is Closed. -/
abbrev breakerOf (breakers : Breakers) (n : NodeId) : CircuitBreaker := breakerAt 0 breakers n

theorem Alike.reported {b b' : CircuitBreaker} (h : Alike now b b') :
    b.reported now = b'.reported now :=
  (Prod.mk.inj (h now (Int.le_refl now))).1

theorem alike_breakerAt (now t : ℤ) (breakers : Breakers) (n : NodeId) :
    Alike t (breakerAt now breakers n) (breakerOf breakers n) := by
  apply AlikeFrom.of_core CircuitBreaker.lazyTimer
  unfold breakerOf breakerAt
  cases breakers.find n <;> rfl

theorem breakerOf_set (breakers : Breakers) (n m : NodeId) (b : CircuitBreaker) :
    breakerOf (breakers.set n b) m = if m = n then b else breakerOf breakers m := by
  unfold breakerOf breakerAt
  rw [UnorderedMap.find_set]
  split_ifs <;> rfl

theorem reportsOpen_iff : reportsOpen now breakers n = true ↔
    (breakerOf breakers n).reported now = .Open := by
  unfold reportsOpen breakerOf breakerAt
  cases breakers.find n with
  | some b => simp
  | none => simp [CircuitBreaker.reported_of_ne_open, CircuitBreaker.makeDefault,
      CircuitBreaker.make]

/-! ### What the relaxation does to the breakers -/

theorem alike_linkCost (originalCost : UInt32) (breakers : Breakers) (n : NodeId) :
    Alike now (breakerOf (linkCost now source u v originalCost breakers).2 n)
      (breakerOf breakers n) := by
  unfold linkCost
  split_ifs with hu
  · cases hb : breakers.find v with
    | none => exact AlikeFrom.refl _
    | some b =>
        show Alike now (breakerOf (breakers.set v (b.settle now)) n) _
        rw [breakerOf_set]
        split_ifs with hn
        · have hbreaker : breakerOf breakers n = b := by
            rw [hn, breakerOf, breakerAt, hb, Option.getD_some]
          rw [hbreaker]
          exact AlikeFrom.settled CircuitBreaker.lazyTimer now b
        · exact AlikeFrom.refl _
  · exact AlikeFrom.refl _

theorem linkBreakers_relaxEdge (d : UInt32) (st : RelaxState) (e : NodeId × UInt32) :
    (relaxEdge now source u d st e).linkBreakers =
      (linkCost now source u e.1 e.2 st.linkBreakers).2 := by
  unfold relaxEdge
  dsimp only
  split_ifs <;> rfl

theorem alike_foldl (d : UInt32) (edges : List (NodeId × UInt32)) : ∀ (st : RelaxState)
    (n : NodeId), Alike now
      (breakerOf (edges.foldl (relaxEdge now source u d) st).linkBreakers n)
      (breakerOf st.linkBreakers n) := by
  induction edges with
  | nil => exact fun st n => AlikeFrom.refl _
  | cons e edges ih =>
      intro st n
      rw [List.foldl_cons]
      refine (ih _ n).trans ?_
      rw [linkBreakers_relaxEdge]
      exact alike_linkCost _ _ _

theorem alike_relaxRound (h : relaxRound now source graph st = some st') (n : NodeId) :
    Alike now (breakerOf st'.linkBreakers n) (breakerOf st.linkBreakers n) := by
  obtain ⟨d, u, minHeap, -, -, ⟨-, rfl⟩ | ⟨-, -, rfl⟩ | ⟨-, neighbours, -, rfl⟩⟩ :=
    relaxRound_cases h
  · exact AlikeFrom.refl _
  · exact AlikeFrom.refl _
  · exact alike_foldl d neighbours _ n

/-- No later query or record tells whether routes have been computed. -/
theorem alike_computeRoutes
    (h : computeRoutes iter now r graph nodeToIp nodeToMask fuel = some r') (n : NodeId) :
    Alike now (breakerOf r'.linkBreakers n) (breakerOf r.linkBreakers n) := by
  rcases computeRoutes_eq_some.mp h with ⟨-, rfl⟩ | ⟨-, st, routes, hst, -, rfl⟩
  · exact AlikeFrom.refl _
  · refine (whileFuel_invariant (fun st => Alike now (breakerOf st.linkBreakers n)
      (breakerOf r.linkBreakers n)) (fun st st' hst hround => ?_) (AlikeFrom.refl _) hst).1
    exact (alike_relaxRound hround n).trans hst

/-! ### What the table depends on -/

/-- The same labels, and breakers that report the same. -/
structure SameLabels (now : ℤ) (st st' : RelaxState) : Prop where
  distances : st.distances = st'.distances
  parent : st.parent = st'.parent
  minHeap : st.minHeap = st'.minHeap
  reports : ∀ n, reportsOpen now st.linkBreakers n = reportsOpen now st'.linkBreakers n

namespace SameLabels

theorem symm (h : SameLabels now st st') : SameLabels now st' st :=
  ⟨h.distances.symm, h.parent.symm, h.minHeap.symm, fun n => (h.reports n).symm⟩

theorem relaxEdge (h : SameLabels now st st') (d : UInt32) (e : NodeId × UInt32) :
    SameLabels now (relaxEdge now source u d st e) (relaxEdge now source u d st' e) := by
  have hcost : (linkCost now source u e.1 e.2 st.linkBreakers).1 =
      (linkCost now source u e.1 e.2 st'.linkBreakers).1 := by
    rw [linkCost_fst, linkCost_fst, h.reports]
  have hreports (n : NodeId) :
      reportsOpen now (linkCost now source u e.1 e.2 st.linkBreakers).2 n =
        reportsOpen now (linkCost now source u e.1 e.2 st'.linkBreakers).2 n := by
    rw [reportsOpen_linkCost, reportsOpen_linkCost, h.reports]
  obtain ⟨distances, parent, minHeap, _⟩ := st
  obtain ⟨distances', parent', minHeap', _⟩ := st'
  obtain ⟨rfl, rfl, rfl, -⟩ := h
  unfold Network.relaxEdge
  dsimp only at hcost hreports ⊢
  rw [hcost]
  split_ifs
  · exact ⟨rfl, rfl, rfl, hreports⟩
  · exact ⟨rfl, rfl, rfl, hreports⟩

theorem foldl (d : UInt32) (edges : List (NodeId × UInt32)) : ∀ {st st' : RelaxState},
    SameLabels now st st' → SameLabels now (edges.foldl (Network.relaxEdge now source u d) st)
      (edges.foldl (Network.relaxEdge now source u d) st') := by
  induction edges with
  | nil => exact fun h => h
  | cons e edges ih => exact fun h => ih (h.relaxEdge d e)

theorem relaxRound {st₁ : RelaxState} (h : SameLabels now st st')
    (hround : relaxRound now source graph st = some st₁) :
    ∃ st₁', Network.relaxRound now source graph st' = some st₁' ∧ SameLabels now st₁ st₁' := by
  obtain ⟨distances, parent, minHeap, bs⟩ := st
  obtain ⟨distances', parent', minHeap', bs'⟩ := st'
  obtain ⟨rfl, rfl, rfl, hreports⟩ := h
  unfold Network.relaxRound at hround ⊢
  dsimp only at hround ⊢
  cases hpop : minHeap.pop with
  | none =>
      rw [hpop] at hround
      cases hround
  | some p =>
      obtain ⟨⟨d, u⟩, minHeap₁⟩ := p
      rw [hpop] at hround
      dsimp only at hround ⊢
      split_ifs at hround ⊢ with hstale
      · obtain rfl := Option.some.inj hround
        exact ⟨_, rfl, rfl, rfl, rfl, hreports⟩
      · cases hfind : graph.find u with
        | none =>
            rw [hfind] at hround
            obtain rfl := Option.some.inj hround
            exact ⟨_, rfl, rfl, rfl, rfl, hreports⟩
        | some neighbours =>
            rw [hfind] at hround
            obtain rfl := Option.some.inj hround
            exact ⟨_, rfl, foldl d neighbours ⟨rfl, rfl, rfl, hreports⟩⟩

end SameLabels

theorem routingTable_of_reports (hid : r.id = r₀.id)
    (hreports : ∀ n, reportsOpen now r.linkBreakers n = reportsOpen now r₀.linkBreakers n)
    (h : computeRoutes iter now r graph nodeToIp nodeToMask fuel = some r') :
    ∃ r₀', computeRoutes iter now r₀ graph nodeToIp nodeToMask fuel = some r₀' ∧
      r₀'.routingTable = r'.routingTable := by
  rcases computeRoutes_eq_some.mp h with ⟨hr, rfl⟩ | ⟨hr, st, routes, hst, hroutes, rfl⟩
  · exact ⟨_, computeRoutes_eq_some.mpr (Or.inl ⟨hid ▸ hr, rfl⟩), rfl⟩
  · have hinit : SameLabels now (initRelax r graph) (initRelax r₀ graph) := by
      unfold initRelax
      rw [hid]
      exact ⟨rfl, rfl, rfl, hreports⟩
    have hnone (a b : RelaxState) (hab : SameLabels now a b)
        (ha : relaxRound now r.id graph a = none) : relaxRound now r.id graph b = none := by
      rw [relaxRound_eq_none] at ha ⊢
      rw [← hab.minHeap]
      exact ha
    obtain ⟨st₀, hst₀, hsame⟩ := whileFuel_lockstep (SameLabels now) hnone
      (fun _ _ _ hab hround => hab.relaxRound hround) hinit hst
    rw [hid, hsame.parent, hsame.distances] at hroutes
    rw [hid] at hst₀
    exact ⟨_, computeRoutes_eq_some.mpr (Or.inr ⟨hid ▸ hr, st₀, routes, hst₀, hroutes, rfl⟩), rfl⟩

/-- **The table is a function of the links' states.** -/
theorem map_routingTable_of_reports (hid : r.id = r₀.id)
    (hreports : ∀ n, reportsOpen now r.linkBreakers n = reportsOpen now r₀.linkBreakers n) :
    (computeRoutes iter now r graph nodeToIp nodeToMask fuel).map Router.routingTable =
      (computeRoutes iter now r₀ graph nodeToIp nodeToMask fuel).map Router.routingTable := by
  ext table
  rw [Option.map_eq_some_iff, Option.map_eq_some_iff]
  constructor
  · rintro ⟨r', h, rfl⟩
    exact routingTable_of_reports hid hreports h
  · rintro ⟨r', h, rfl⟩
    exact routingTable_of_reports hid.symm (fun n => (hreports n).symm) h

/-! ### Runs -/

/-- The calls that the owner of a router makes. -/
inductive Control where
  | success (neighborId : NodeId)
  | failure (neighborId : NodeId)
  | query (neighborId : NodeId)
  | compute (iter : IterationOrder (NodeId × UInt32)) (graph : TopologyGraph)
      (nodeToIp : UnorderedMap NodeId IPv4Address) (nodeToMask : UnorderedMap NodeId SubnetMask)

/-- One call, which `compute_routes` may fail to return from. -/
inductive ControlStep (now : ℤ) (r : Router) : Control → Router → Prop where
  | success (n : NodeId) : ControlStep now r (.success n) (recordLinkSuccess now n r)
  | failure (n : NodeId) : ControlStep now r (.failure n) (recordLinkFailure now n r)
  | query (n : NodeId) : ControlStep now r (.query n) (getLinkState now n r).2
  | compute {iter : IterationOrder (NodeId × UInt32)} {graph : TopologyGraph}
      {nodeToIp : UnorderedMap NodeId IPv4Address} {nodeToMask : UnorderedMap NodeId SubnetMask}
      {r' : Router} (hreturns : Returns (computeRoutes iter now r graph nodeToIp nodeToMask) r') :
      ControlStep now r (.compute iter graph nodeToIp nodeToMask) r'

/-- A run of calls, each with the time at which it is made. -/
inductive ControlRun (id : NodeId) : List (ℤ × Control) → Router → Prop where
  | nil : ControlRun id [] ⟨id, [], ∅⟩
  | snoc {calls : List (ℤ × Control)} {now : ℤ} {c : Control} {r r' : Router}
      (hrun : ControlRun id calls r) (hstep : ControlStep now r c r') :
      ControlRun id (calls ++ [(now, c)]) r'

/-- What a link's breaker is told by a call. -/
def told (n : NodeId) (b : CircuitBreaker) (call : ℤ × Control) : CircuitBreaker :=
  match call.2 with
  | .success m => if m = n then b.recordOutcome call.1 true else b
  | .failure m => if m = n then b.recordOutcome call.1 false else b
  | _ => b

/-- A breaker that is told of its own link's successes and failures, and is never asked. -/
def linkBreaker (n : NodeId) (calls : List (ℤ × Control)) : CircuitBreaker :=
  calls.foldl (told n) (CircuitBreaker.makeDefault 0)

theorem linkBreaker_append (n : NodeId) (calls : List (ℤ × Control)) (call : ℤ × Control) :
    linkBreaker n (calls ++ [call]) = told n (linkBreaker n calls) call := by
  unfold linkBreaker
  rw [List.foldl_append, List.foldl_cons, List.foldl_nil]

/-- What the calls so far have made of the router, as far as later calls can tell. -/
structure ControlInv (id : NodeId) (calls : List (ℤ × Control)) (now : ℤ) (r : Router) :
    Prop where
  id_eq : r.id = id
  links : ∀ n, Alike now (breakerOf r.linkBreakers n) (linkBreaker n calls)

variable {id : NodeId} {calls : List (ℤ × Control)} {c : Control}

theorem ControlInv.step (I : ControlInv id calls now r) (h : ControlStep now r c r') :
    ControlInv id (calls ++ [(now, c)]) now r' := by
  have hrecord (success : Bool) (m n : NodeId) :
      Alike now (breakerOf (r.linkBreakers.set m
          ((breakerAt now r.linkBreakers m).recordOutcome now success)) n)
        (if m = n then (linkBreaker n calls).recordOutcome now success
          else linkBreaker n calls) := by
    rw [breakerOf_set]
    by_cases heq : n = m
    · subst heq
      rw [if_pos rfl, if_pos rfl]
      exact AlikeFrom.acted CircuitBreaker.lazyTimer
        ((alike_breakerAt now now r.linkBreakers n).trans (I.links n)) success
    · rw [if_neg heq, if_neg (Ne.symm heq)]
      exact I.links n
  cases h with
  | success m =>
      refine ⟨I.id_eq, fun n => ?_⟩
      rw [linkBreaker_append]
      exact hrecord true m n
  | failure m =>
      refine ⟨I.id_eq, fun n => ?_⟩
      rw [linkBreaker_append]
      exact hrecord false m n
  | query m =>
      refine ⟨I.id_eq, fun n => ?_⟩
      rw [linkBreaker_append]
      show Alike now (breakerOf (r.linkBreakers.set m
        ((breakerAt now r.linkBreakers m).settle now)) n) (linkBreaker n calls)
      rw [breakerOf_set]
      split_ifs with heq
      · subst heq
        exact (AlikeFrom.settled CircuitBreaker.lazyTimer now _).trans
          ((alike_breakerAt now now r.linkBreakers n).trans (I.links n))
      · exact I.links n
  | compute hreturns =>
      obtain ⟨fuel, hfuel⟩ := hreturns
      have hrun := hfuel fuel le_rfl
      refine ⟨?_, fun n => ?_⟩
      · rcases computeRoutes_eq_some.mp hrun with ⟨-, rfl⟩ | ⟨-, st, routes, -, -, rfl⟩ <;>
          exact I.id_eq
      · rw [linkBreaker_append]
        exact (alike_computeRoutes hrun n).trans (I.links n)

theorem ControlRun.inv (h : ControlRun id calls r) :
    (calls.map Prod.fst).Pairwise (· ≤ ·) → ∀ now, (∀ call ∈ calls, call.1 ≤ now) →
      ControlInv id calls now r := by
  induction h with
  | nil => exact fun _ now _ => ⟨rfl, fun n => AlikeFrom.refl _⟩
  | @snoc calls last c r r' _ hstep ih =>
      intro hclock now hnow
      rw [List.map_append, List.pairwise_append] at hclock
      have hlast := hnow (last, c) (by simp)
      have hbefore : ∀ call ∈ calls, call.1 ≤ last := fun call hcall =>
        hclock.2.2 call.1 (List.mem_map_of_mem hcall) last (by simp)
      have I := (ih hclock.1 last hbefore).step hstep
      exact ⟨I.id_eq, fun n => (I.links n).mono hlast⟩

/-- **The control loop.** On one clock, after any run of calls: a link's state is that of
a breaker which was told of this link's own successes and failures and of nothing else,
and which nobody ever asked; and the table that is computed next is that of any router
whose links are in these states, whatever it has been through. -/
theorem control_run (id : NodeId) (calls : List (ℤ × Control)) (r : Router)
    (hrun : ControlRun id calls r) (hclock : (calls.map Prod.fst).Pairwise (· ≤ ·)) (now : ℤ)
    (hnow : ∀ call ∈ calls, call.1 ≤ now) :
    (∀ n, (getLinkState now n r).1 = (linkBreaker n calls).reported now) ∧
      ∀ r₀ : Router, r₀.id = id →
        (∀ n, reportsOpen now r₀.linkBreakers n = true ↔
          (linkBreaker n calls).reported now = .Open) →
        ∀ iter graph nodeToIp nodeToMask fuel,
          (computeRoutes iter now r graph nodeToIp nodeToMask fuel).map Router.routingTable =
            (computeRoutes iter now r₀ graph nodeToIp nodeToMask fuel).map
              Router.routingTable := by
  have I := hrun.inv hclock now hnow
  constructor
  · intro n
    have hlink : Alike now (breakerAt now r.linkBreakers n) (linkBreaker n calls) :=
      (alike_breakerAt now now r.linkBreakers n).trans (I.links n)
    exact hlink.reported
  · intro r₀ hid hreports iter graph nodeToIp nodeToMask fuel
    refine map_routingTable_of_reports (I.id_eq.trans hid.symm) fun n => ?_
    rw [Bool.eq_iff_iff, reportsOpen_iff, hreports, (I.links n).reported]

/-- Three failures open the link to router 2 and routes are computed; a query made late
enough finds the link HalfOpen. -/
def outage : List (ℤ × Control) :=
  [(0, .failure 2), (0, .failure 2), (0, .failure 2),
    (3, .compute (IterationOrder.stored _) triangle triangleIp triangleMask),
    (5000000000, .query 2)]

/-- After the outage the table is that of a router to which nothing has happened. -/
theorem control_run_outage : ∃ r, ControlRun 1 outage r ∧
    (∀ n, (getLinkState 5000000000 n r).1 = (linkBreaker n outage).reported 5000000000) ∧
    ∀ fuel, (computeRoutes (IterationOrder.stored _) 5000000000 r triangle triangleIp
        triangleMask fuel).map Router.routingTable =
      (computeRoutes (IterationOrder.stored _) 5000000000 (routerWithId 1) triangle triangleIp
        triangleMask fuel).map Router.routingTable := by
  have hcompute : (computeRoutes (IterationOrder.stored _) 3 routerWithOpenLink triangle
      triangleIp triangleMask 8).isSome := by decide +kernel
  obtain ⟨r, hr⟩ := Option.isSome_iff_exists.mp hcompute
  have hrun : ControlRun 1 outage (getLinkState 5000000000 2 r).2 :=
    .snoc (.snoc (.snoc (.snoc (.snoc .nil (.failure 2)) (.failure 2)) (.failure 2))
      (.compute (computeRoutes_mono.returns hr))) (.query 2)
  obtain ⟨hstate, htable⟩ := control_run 1 outage _ hrun (by decide) 5000000000 (by decide)
  refine ⟨_, hrun, hstate, htable (routerWithId 1) rfl (fun n => ?_) _ _ _ _⟩
  refine iff_of_false (by simp [routerWithId, reportsOpen]) ?_
  by_cases hn : n = 2
  · subst hn
    decide
  · have hlink : linkBreaker n outage = CircuitBreaker.makeDefault 0 := by
      simp [linkBreaker, outage, told, Ne.symm hn]
    rw [hlink]
    decide

end Netsim.Network
