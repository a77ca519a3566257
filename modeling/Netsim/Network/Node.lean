import Netsim.Foundation.Binary64Truncate
import Netsim.Network.Addressing
import Netsim.Network.GcraLeakyBucket

/-!
# Nodes and their rate limits

`network/node.cpp` and the constructor of the limiter, which computes its two intervals
in doubles. For a rate and a burst that are whole numbers they come out exact
(`ofRate_ofInt`), and the limiter keeps what its documentation promises: a burst of that
many packets at once, and over a window no more than the burst and one packet for each
emission interval (`enableRateLimiting_bound`).
-/

namespace Netsim.Network

open Foundation

/-- The constructor. A conversion that is out of range is undefined. -/
def GcraRateLimiter.ofRate (ratePerSecond burstCapacity : Binary64) : Option GcraRateLimiter :=
  (Binary64.div (.ofInt 1000000000) ratePerSecond).truncate.bind fun emissionIntervalNs =>
    (Binary64.mul (burstCapacity.sub (.ofInt 1)) (.ofUInt64 emissionIntervalNs)).truncate.map
      fun toleranceNs => ⟨emissionIntervalNs, toleranceNs, 0⟩

structure Node where
  id : UInt32
  name : String
  ip : IPv4Address
  mask : SubnetMask
  mac : String
  rateLimiter : Option GcraRateLimiter

namespace Node

def create (id : UInt32) (name : String) (ip : IPv4Address) (mask : SubnetMask) (mac : String) :
    Node := ⟨id, name, ip, mask, mac, none⟩

def enableRateLimiting (node : Node) (ratePerSec burstCapacity : Binary64) : Option Node :=
  (GcraRateLimiter.ofRate ratePerSec burstCapacity).map fun limiter =>
    { node with rateLimiter := some limiter }

/-- `receive_packet` at time `t`, when no other thread receives at the same time. -/
def receivePacket (node : Node) (t : UInt64) : Bool × Node :=
  match node.rateLimiter with
  | none => (true, node)
  | some limiter =>
      let (allowed, limiter) := limiter.serve t
      (allowed, { node with rateLimiter := some limiter })

end Node

/-! ### Whole rates and bursts -/

variable {r b : ℕ}

/-- The limiter of `r` packets a second in bursts of `b`. -/
def GcraRateLimiter.wholeRate (r b : ℕ) : GcraRateLimiter :=
  ⟨UInt64.ofNat (1000000000 / r), UInt64.ofNat ((b - 1) * (1000000000 / r)), 0⟩

/-- A rate between one packet a second and one a nanosecond, and a burst that takes less
than a hundred days to refill. -/
structure WholeRate (r b : ℕ) : Prop where
  rate_pos : 1 ≤ r
  rate_le : r ≤ 1000000000
  burst_pos : 1 ≤ b
  refill_lt : (b - 1) * (1000000000 / r) < 2 ^ 53

namespace WholeRate

theorem interval_pos (h : WholeRate r b) : 1 ≤ 1000000000 / r := by
  rw [Nat.le_div_iff_mul_le h.rate_pos, Nat.one_mul]
  exact h.rate_le

theorem burst_le (h : WholeRate r b) : b ≤ 2 ^ 53 := by
  have hle : b - 1 ≤ (b - 1) * (1000000000 / r) := Nat.le_mul_of_pos_right _ h.interval_pos
  have hlt := h.refill_lt
  omega

theorem interval_lt (r : ℕ) : 1000000000 / r < 2 ^ 53 :=
  Nat.lt_of_le_of_lt (Nat.div_le_self _ _) (by decide)

theorem toNat_interval (r b : ℕ) :
    (GcraRateLimiter.wholeRate r b).emissionIntervalNs.toNat = 1000000000 / r :=
  UInt64.toNat_ofNat_of_lt (Nat.lt_trans (interval_lt r) (by decide))

theorem toNat_tolerance (h : WholeRate r b) :
    (GcraRateLimiter.wholeRate r b).toleranceNs.toNat = (b - 1) * (1000000000 / r) :=
  UInt64.toNat_ofNat_of_lt (Nat.lt_trans h.refill_lt (by decide))

/-- **The constructor's arithmetic is exact.** -/
theorem ofRate_ofInt (h : WholeRate r b) :
    GcraRateLimiter.ofRate (.ofInt r) (.ofInt b) = some (.wholeRate r b) := by
  have hrate : r ≤ 2 ^ 53 := Nat.le_trans h.rate_le (by decide)
  have hinterval := Binary64.truncate_div_ofInt (n := 1000000000) (by decide) hrate h.rate_pos
  have hburst := Binary64.sub_ofInt h.burst_le h.burst_pos
  have htolerance := Binary64.truncate_mul_ofInt (Nat.le_trans (Nat.sub_le b 1) h.burst_le)
    (Nat.le_of_lt (interval_lt r)) (Nat.le_of_lt h.refill_lt)
  rw [Nat.cast_ofNat] at hinterval
  rw [Nat.cast_one] at hburst
  have hword : (UInt64.ofNat (1000000000 / r)).toNat = 1000000000 / r := toNat_interval r b
  rw [GcraRateLimiter.ofRate, hinterval, Option.bind_some, hburst, Binary64.ofUInt64, hword,
    htolerance, Option.map_some, GcraRateLimiter.wholeRate]

/-- No sum wraps before the clock has run for half of its range. -/
theorem inRange (h : WholeRate r b) {t : UInt64} (ht : t.toNat < 2 ^ 63) :
    (GcraRateLimiter.wholeRate r b).InRange t := by
  have hinterval := interval_lt r
  have hrefill := h.refill_lt
  unfold GcraRateLimiter.InRange
  rw [toNat_interval, h.toNat_tolerance]
  omega

variable {ι : Type*} [DecidableEq ι]

/-- Admissions in a window, whatever the interleaving. -/
theorem admittedIn_le (h : WholeRate r b) (actions : List (GcraRateLimiter.Action ι))
    (hclock : ∀ i t, GcraRateLimiter.Action.sample i t ∈ actions → t.toNat < 2 ^ 63)
    (start finish : ℕ) :
    GcraRateLimiter.admittedIn start finish (GcraRateLimiter.run (.wholeRate r b) actions) ≤
      b + (finish - start) / (1000000000 / r) := by
  have R : GcraRateLimiter.RunInv (.wholeRate r b)
      (GcraRateLimiter.run (.wholeRate r b) actions) :=
    GcraRateLimiter.RunInv.foldl actions (GcraRateLimiter.runInv_initial _)
      fun i t hsample => h.inRange (hclock i t hsample)
  have hbound := (R.window start finish).admittedIn_le (by
    rw [R.emission_eq, toNat_interval]
    exact h.interval_pos)
  rw [R.emission_eq, R.tolerance_eq, toNat_interval, h.toNat_tolerance,
    Nat.add_mul_div_right _ _ h.interval_pos] at hbound
  have hburst := h.burst_pos
  omega

end WholeRate

namespace Node

variable {ι : Type*} [DecidableEq ι]

theorem decisions_receivePacket (node : Node) (limiter : GcraRateLimiter) (ts : List UInt64) :
    decisions receivePacket { node with rateLimiter := some limiter } ts =
      decisions GcraRateLimiter.serve limiter ts := by
  induction ts generalizing limiter with
  | nil => rfl
  | cons t ts ih => exact congrArg _ (ih _)

/-- Packets at one instant pass a new limiter until the burst is used up. -/
theorem decisions_burst (h : WholeRate r b) {t : UInt64} (ht : t.toNat < 2 ^ 63) (n : ℕ) :
    decisions GcraRateLimiter.serve (.wholeRate r b) (List.replicate n t) =
      List.replicate (min n b) true ++ List.replicate (n - b) false := by
  have hrange : ∀ u ∈ List.replicate n t, (GcraRateLimiter.wholeRate r b).InRange u := by
    intro u hu
    rw [List.eq_of_mem_replicate hu]
    exact h.inRange ht
  have hinterval : (0 : ℤ) < (1000000000 / r : ℕ) := Int.natCast_pos.mpr h.interval_pos
  have htolerance : (((b - 1) * (1000000000 / r) : ℕ) : ℤ) =
      (b - 1) • ((1000000000 / r : ℕ) : ℤ) := by
    rw [nsmul_eq_mul, Nat.cast_mul]
  have hempty : max (t.toNat : ℤ) 0 = t.toNat + 0 • ((1000000000 / r : ℕ) : ℤ) := by
    rw [zero_nsmul, add_zero]
    exact max_eq_left (Int.natCast_nonneg _)
  rw [GcraRateLimiter.decisions_serve hrange, WholeRate.toNat_interval, h.toNat_tolerance,
    htolerance, List.map_replicate]
  exact decisions_schedule_replicate hinterval n hempty
    (show 0 + b = b - 1 + 1 by have := h.burst_pos; omega)

/-- **What a rate limit promises.** A node is given a rate of `r` packets a second and a
burst of `b`. Of packets at one instant it lets the first `b` pass and no other. Whatever
the interleaving of the threads that receive packets, it lets no more of them pass in a
window than the burst and one for each emission interval in the window. -/
theorem enableRateLimiting_bound (node : Node) (h : WholeRate r b) :
    node.enableRateLimiting (.ofInt r) (.ofInt b) =
        some { node with rateLimiter := some (.wholeRate r b) } ∧
      (∀ t : UInt64, t.toNat < 2 ^ 63 → ∀ n,
        decisions receivePacket { node with rateLimiter := some (.wholeRate r b) }
          (List.replicate n t) =
        List.replicate (min n b) true ++ List.replicate (n - b) false) ∧
      ∀ actions : List (GcraRateLimiter.Action ι),
        (∀ i t, GcraRateLimiter.Action.sample i t ∈ actions → t.toNat < 2 ^ 63) →
        ∀ start finish,
          GcraRateLimiter.admittedIn start finish (GcraRateLimiter.run (.wholeRate r b) actions) ≤
            b + (finish - start) / (1000000000 / r) := by
  refine ⟨?_, fun t ht n => ?_, fun actions hclock start finish => ?_⟩
  · rw [enableRateLimiting, h.ofRate_ofInt]
    rfl
  · rw [decisions_receivePacket]
    exact decisions_burst h ht n
  · exact h.admittedIn_le actions hclock start finish

/-- The daemon's host: five packets a second, in bursts of three. -/
def secureNode : Node := create 1 "SecureHost" ⟨0x7F000001⟩ ⟨0xFFFFFF00⟩ "00:BB:00:11:11:11"

theorem enableRateLimiting_bound_secureNode :
    secureNode.enableRateLimiting (.ofInt (5 : ℕ)) (.ofInt (3 : ℕ)) =
        some { secureNode with rateLimiter := some (.wholeRate 5 3) } ∧
      (∀ t : UInt64, t.toNat < 2 ^ 63 → ∀ n,
        decisions receivePacket { secureNode with rateLimiter := some (.wholeRate 5 3) }
          (List.replicate n t) =
        List.replicate (min n 3) true ++ List.replicate (n - 3) false) ∧
      ∀ actions : List (GcraRateLimiter.Action ℕ),
        (∀ i t, GcraRateLimiter.Action.sample i t ∈ actions → t.toNat < 2 ^ 63) →
        ∀ start finish,
          GcraRateLimiter.admittedIn start finish (GcraRateLimiter.run (.wholeRate 5 3) actions) ≤
            3 + (finish - start) / (1000000000 / 5) :=
  enableRateLimiting_bound secureNode ⟨by decide, by decide, by decide, by decide⟩

example : GcraRateLimiter.wholeRate 5 3 = ⟨200000000, 400000000, 0⟩ := by decide

end Node

end Netsim.Network
