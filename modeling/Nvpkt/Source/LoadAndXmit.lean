import Nvpkt.Library.FixedWidth
import Nvpkt.Source.Netmap

/-!
# `load-and-xmit`

`main` of `load-and-xmit.c`. A pass of the two nested loops reads one block into
the one buffer, tests that the ring has a slot, points the slot at `cur` to the
buffer and synchronises. The answers of the device and the kernel are given for
each pass; the state keeps the blocks read, the packets queued with the ring around
each, and the ring after each `NIOCTXSYNC` that succeeded.
-/

set_option autoImplicit false

namespace Nvpkt.Source.LoadAndXmit
open Nvpkt.Library.FixedWidth
open Nvpkt.Source.Netmap

/-- The command line after `getopt`, the address of the buffer and the flag of the
netmap header. -/
structure Args where
  count : Int
  nblocks : Int
  slba : Nat
  useBuildPkt : Bool
  buf : Nat
  nsIndirect : Nat
  nblocks_lt : nblocks < 2147483648

/-- What `unvme_read` and `NIOCTXSYNC` return in one pass, and how many slots the
latter hands back. -/
structure Answer where
  read : Int
  sync : Int
  released : Nat

/-- A packet handed to the ring: the block last read into the buffer, and the ring
as found and as given to `NIOCTXSYNC`. -/
structure Queued where
  block : Nat
  before : NetmapRing Slot
  after : NetmapRing Slot

structure State where
  ring : NetmapRing Slot
  ret : Int
  reads : List Nat
  queued : List Queued
  synced : List (NetmapRing Slot)

/-- Where the loops end: `finished`, or at one of the three `goto free_out`. -/
inductive Stop where
  | finished
  | readFailed
  | ringFull
  | syncFailed
deriving DecidableEq

/-- `body.slba + n`, an unsigned 64-bit number. -/
def blockAt (args : Args) (n : Nat) : Nat := wrap 64 (args.slba + n)

/-- The slot at `cur` filled and `head` and `cur` moved on. -/
def queuePacket (args : Args) (txring : NetmapRing Slot) : NetmapRing Slot :=
  let cur := txring.cur
  let slot := { txring.slot cur with len := 1024 }
  let slot := if args.useBuildPkt then slot
    else { slot with ptr := args.buf, flags := args.nsIndirect }
  let txring := txring.setSlot cur slot
  txring.setHead (nmRingNext txring cur)

/-- The body of the loop over `n`. -/
def xmitBlock (args : Args) (answer : Answer) (n : Nat) (s : State) : State × Stop :=
  let s := { s with ret := answer.read }
  if answer.read < 0 then (s, .readFailed)
  else
    let s := { s with reads := s.reads ++ [blockAt args n] }
    if nmRingEmpty s.ring then (s, .ringFull)
    else
      let txring := queuePacket args s.ring
      let s := { s with
        ring := txring
        ret := answer.sync
        queued := s.queued ++ [⟨blockAt args n, s.ring, txring⟩] }
      if answer.sync < 0 then (s, .syncFailed)
      else
        let txring := txring.release answer.released
        ({ s with ring := txring, synced := s.synced ++ [txring] }, .finished)

/-- The loop over `n`. -/
def blockLoop (args : Args) (answers : Nat → Answer) : List Nat → State → State × Stop
  | [], s => (s, .finished)
  | n :: later, s =>
    match xmitBlock args (answers n) n s with
    | (s, .finished) => blockLoop args answers later s
    | stopped => stopped

/-- The loop over `i`; `answers i n` are those of pass `n` of round `i`. -/
def countLoop (args : Args) (answers : Nat → Nat → Answer) : List Nat → State → State × Stop
  | [], s => (s, .finished)
  | i :: later, s =>
    match blockLoop args (answers i) (List.range args.nblocks.toNat) s with
    | (s, .finished) => countLoop args answers later s
    | stopped => stopped

def xmitLoop (args : Args) (answers : Nat → Nat → Answer) (txring : NetmapRing Slot) :
    State × Stop :=
  countLoop args answers (List.range args.count.toNat) ⟨txring, 0, [], [], []⟩

/-- What succeeds before the loops. -/
structure Setup where
  options : Bool
  nmOpen : Bool
  unvmeOpen : Bool
  unvmeAlloc : Bool

/-- The value `main` returns, and the loops where it gets there. -/
def main (args : Args) (setup : Setup) (answers : Nat → Nat → Answer)
    (txring : NetmapRing Slot) : Int × Option (State × Stop) :=
  if !setup.options || args.nblocks < 0 then (-1, none)
  else if !setup.nmOpen then (-1, none)
  else if !setup.unvmeOpen then (-1, none)
  else if !setup.unvmeAlloc then (-1, none)
  else
    let result := xmitLoop args answers txring
    (result.1.ret, some result)

end Nvpkt.Source.LoadAndXmit
