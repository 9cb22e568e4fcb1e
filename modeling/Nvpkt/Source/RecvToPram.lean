import Mathlib.Logic.Function.Basic
import Nvpkt.Library.FixedWidth
import Nvpkt.Source.Netmap

/-!
# `recv-to-pram`

The receive tool: where the buffer of a slot lies (`nmslotToBuf`), the set-up
that gives every slot the physical address of its buffer and flushes the rings,
and the receive loop. A product of `int`s that leaves their range has no meaning,
so it is `none` here and so is what is computed from it.

The kernel moves `tail` inside system calls only. The set-up takes what each
`NIOCRXSYNC` releases as a function; the loop takes for each turn the packets
that arrive in its two system calls.
-/

set_option autoImplicit false

namespace Nvpkt.Source.RecvToPram
open Nvpkt.Library.FixedWidth
open Nvpkt.Source.Netmap

variable {σ : Type}

/-- `struct nm_desc`, the receive side. -/
structure NmDesc (σ : Type) where
  firstRxRing : Nat
  lastRxRing : Nat
  rxring : Nat → NetmapRing σ
  last_lt : lastRxRing < 2 ^ 16
  slots_lt : ∀ ri, (rxring ri).numSlots < 2 ^ 32

/-- `ri` is a ring of the receive loop. -/
def NmDesc.Visits (desc : NmDesc σ) (ri : Nat) : Prop :=
  desc.firstRxRing ≤ ri ∧ ri ≤ desc.lastRxRing

/-! ## Buffers -/

/-- The size `main` maps and `memset`s. -/
def mappedSize : Int := 67108864

def bufSize : Int := 2048

/-- An `unsigned int` passed for an `int`. -/
def asInt (n : Nat) : Int := if n < 2 ^ 31 then n else n - 2 ^ 32

/-- A product of two `int`s. -/
def mulInt (a b : Int) : Option Int :=
  if -2 ^ 31 ≤ a * b ∧ a * b < 2 ^ 31 then some (a * b) else none

/-- The offset from `base`; the two products are added to a pointer. -/
def nmslotToBuf (ri idx slotNum : Int) : Option Int :=
  (mulInt slotNum bufSize).bind fun rowSize =>
    (mulInt rowSize ri).bind fun row =>
      (mulInt bufSize idx).map fun col => row + col

/-- The buffer `init_nm_rx_ring_for_phy` assigns to slot `idx` of ring `ri`. -/
def slotBuf (desc : NmDesc σ) (ri idx : Nat) : Option Int :=
  nmslotToBuf ri (asInt idx) (asInt (desc.rxring ri).numSlots)

theorem mulInt_eq_some {a b c : Int} :
    mulInt a b = some c ↔ (-2 ^ 31 ≤ a * b ∧ a * b < 2 ^ 31) ∧ a * b = c := by
  unfold mulInt
  split
  · rename_i hfits
    rw [Option.some_inj, and_iff_right hfits]
  · rename_i hover
    constructor
    · intro h
      cases h
    · intro h
      exact absurd h.1 hover

theorem asInt_of_lt {n : Nat} (h : n < 2 ^ 31) : asInt n = n := if_pos h

/-- When all three products stay within `int`, and what the offset is then. -/
theorem nmslotToBuf_eq_some {ri idx slotNum buf : Int} :
    nmslotToBuf ri idx slotNum = some buf ↔
      (-2 ^ 31 ≤ slotNum * 2048 ∧ slotNum * 2048 < 2 ^ 31) ∧
      (-2 ^ 31 ≤ slotNum * 2048 * ri ∧ slotNum * 2048 * ri < 2 ^ 31) ∧
      (-2 ^ 31 ≤ 2048 * idx ∧ 2048 * idx < 2 ^ 31) ∧
      slotNum * 2048 * ri + 2048 * idx = buf := by
  unfold nmslotToBuf bufSize
  simp only [Option.bind_eq_some_iff, Option.map_eq_some_iff, mulInt_eq_some]
  constructor
  · rintro ⟨_, ⟨hsize, rfl⟩, _, ⟨hrow, rfl⟩, _, ⟨hcol, rfl⟩, rfl⟩
    exact ⟨hsize, hrow, hcol, rfl⟩
  · rintro ⟨hsize, hrow, hcol, rfl⟩
    exact ⟨_, ⟨hsize, rfl⟩, _, ⟨hrow, rfl⟩, _, ⟨hcol, rfl⟩, rfl⟩

/-! ## Set-up -/

/-- What the set-up reads from outside: the physical address behind an offset of
the mapping, the flag of the patched netmap header, and how many slots of ring
`i` the `NIOCRXSYNC` after the write to ring `ri` releases. -/
structure Env where
  phyAddr : Int → Nat
  nsPhyIndirect : Nat
  released : Nat → Nat → Nat

def initSlot (env : Env) (desc : NmDesc Slot) (ri : Nat) (ring : NetmapRing Slot) (idx : Nat) :
    Option (NetmapRing Slot) :=
  (slotBuf desc ri idx).map fun buf =>
    let slot := ring.slot idx
    ring.setSlot idx
      { slot with flags := slot.flags ||| env.nsPhyIndirect, ptr := env.phyAddr buf }

/-- The loop over `idx`. -/
def initRing (env : Env) (desc : NmDesc Slot) (ri : Nat) : Option (NetmapRing Slot) :=
  (List.range (desc.rxring ri).numSlots).foldlM (initSlot env desc ri) (desc.rxring ri)

/-- The loop over `ri`, from 0 up to and with `last_rx_ring`. -/
def initNmRxRingForPhy (env : Env) (desc : NmDesc Slot) : Option (Nat → NetmapRing Slot) :=
  (List.range (desc.lastRxRing + 1)).foldlM
    (fun rings ri => (initRing env desc ri).map (Function.update rings ri)) desc.rxring

/-- A pass of the flush loop: the ring `ri` as it stood before its `head` was written. -/
structure Flush where
  ri : Nat
  before : NetmapRing Slot

/-- `num_slots - 1`, the position the flush writes. -/
def flushHead (ring : NetmapRing Slot) : Nat := wsub 32 ring.numSlots 1

/-- `NIOCRXSYNC`. -/
def rxsync (env : Env) (ri : Nat) (rings : Nat → NetmapRing Slot) : Nat → NetmapRing Slot :=
  fun i => (rings i).release (env.released ri i)

def flushLoop (env : Env) :
    List Nat → (Nat → NetmapRing Slot) → List Flush × (Nat → NetmapRing Slot)
  | [], rings => ([], rings)
  | ri :: rest, rings =>
    let ring := rings ri
    let written := Function.update rings ri (ring.setHead (flushHead ring))
    let later := flushLoop env rest (rxsync env ri written)
    ({ ri := ri, before := ring } :: later.1, later.2)

structure Setup where
  flushes : List Flush
  rings : Nat → NetmapRing Slot

/-- The part of `main` under `!no_p2pmem`. The flush loop runs while
`ri < last_rx_ring`. The byte it writes to the buffers in between is no slot. -/
def setUp (env : Env) (desc : NmDesc Slot) : Option Setup :=
  (initNmRxRingForPhy env desc).map fun rings =>
    let flushed := flushLoop env
      (List.range' desc.firstRxRing (desc.lastRxRing - desc.firstRxRing)) rings
    { flushes := flushed.1, rings := flushed.2 }

/-! ## Receive loop -/

/-- A receive ring with its history: the slots the kernel published, and the ring
at every pass of the inner loop. -/
structure RxRing (σ : Type) where
  ring : NetmapRing σ
  published : List (Nat × σ)
  passes : List (NetmapRing σ)

/-- A ring as the loop finds it; what its window holds has been published. -/
def RxRing.enter (ring : NetmapRing σ) : RxRing σ :=
  { ring := ring, published := ring.pending, passes := [] }

/-- A packet for this ring; without a slot for it the kernel drops it. -/
def RxRing.arrive (x : RxRing σ) (s : σ) : RxRing σ :=
  if 0 < x.ring.kernelFree then
    { x with ring := x.ring.publish s, published := x.published ++ [(x.ring.tail, s)] }
  else x

/-- The body of the inner loop: the slot at `head` is read and left behind. -/
def recvSlot (x : RxRing σ) : RxRing σ :=
  let cur := x.ring.head
  { x with ring := x.ring.setHead (nmRingNext x.ring cur), passes := x.passes ++ [x.ring] }

/-- The `pkt` of a pass: the buffer of the slot at `head`. -/
def pktBuf (ri : Nat) (ring : NetmapRing σ) : Option Int :=
  nmslotToBuf ri (asInt ring.head) (asInt ring.numSlots)

/-- The slot a pass reads. -/
def taken (ring : NetmapRing σ) : Nat × σ := (ring.head, ring.slot ring.head)

/-- `while (!nm_ring_empty(ring))`, for at most `fuel` passes. -/
def recvRing : Nat → RxRing σ → Option (RxRing σ)
  | 0, x => if nmRingEmpty x.ring then some x else none
  | fuel + 1, x => if nmRingEmpty x.ring then some x else recvRing fuel (recvSlot x)

/-- The loop over `ri`. -/
def recvRings (fuel : Nat) : List Nat → (Nat → RxRing σ) → Option (Nat → RxRing σ)
  | [], rings => some rings
  | ri :: rest, rings =>
    (recvRing fuel (rings ri)).bind fun x => recvRings fuel rest (Function.update rings ri x)

/-- One turn of the outer loop: what the two system calls return, and the packets
that arrive in them for each ring. -/
structure Turn (σ : Type) where
  syncRet : Int
  syncArrivals : Nat → List σ
  pollRet : Int
  pollArrivals : Nat → List σ

/-- The system calls of a turn let the loop go on. -/
def Turn.Served (turn : Turn σ) : Prop := 0 ≤ turn.syncRet ∧ -1 ≤ turn.pollRet

instance (turn : Turn σ) : Decidable turn.Served := inferInstanceAs (Decidable (_ ∧ _))

/-- The packets for ring `ri` in the system calls that a turn makes. -/
def Turn.arrivals (turn : Turn σ) (ri : Nat) : List σ :=
  if turn.syncRet < 0 then turn.syncArrivals ri
  else turn.syncArrivals ri ++ turn.pollArrivals ri

def arriveAll (arrivals : Nat → List σ) (rings : Nat → RxRing σ) : Nat → RxRing σ :=
  fun ri => (arrivals ri).foldl RxRing.arrive (rings ri)

inductive Outcome where
  | receiving
  | out (ret : Int)
deriving DecidableEq

structure Received (σ : Type) where
  rings : Nat → RxRing σ
  outcome : Outcome

/-- `while (1)`, for the given turns. A `poll` that returns -1 goes on. -/
def recvLoop (fuel : Nat) (desc : NmDesc σ) :
    List (Turn σ) → (Nat → RxRing σ) → Option (Received σ)
  | [], rings => some { rings := rings, outcome := .receiving }
  | turn :: later, rings =>
    let synced := arriveAll turn.syncArrivals rings
    if turn.syncRet < 0 then some { rings := synced, outcome := .out turn.syncRet }
    else
      let polled := arriveAll turn.pollArrivals synced
      if turn.pollRet < -1 then some { rings := polled, outcome := .out turn.pollRet }
      else
        (recvRings fuel
          (List.range' desc.firstRxRing (desc.lastRxRing + 1 - desc.firstRxRing)) polled).bind
            (recvLoop fuel desc later)

end Nvpkt.Source.RecvToPram
