import Nvpkt.Source.Netmap

/-!
# `xmit-from-pram`

`main` of `xmit-from-pram.c`. A round of its send loop tests once that the ring has
a slot, queues `batch` packets and synchronises; the run keeps each round with the
ring as it stood before every slot write. The kernel acts in `NIOCTXSYNC` only: a
list of its answers, of any length, drives the loop, which is still running where an
answer is missing. `mainLoop` is the same loop with the variable `ret`, which has no
value until something is assigned to it.
-/

set_option autoImplicit false

namespace Nvpkt.Source.XmitFromPram
open Nvpkt.Source.Netmap

/-- The command line after `getopt`, the buffer's physical address and the flag
of the patched netmap header. -/
structure Args where
  count : Int
  batch : Int
  pktlen : Int
  paddr : Nat
  nsPhyIndirect : Nat

/-- The body of the loop over `b`. -/
def queueSlot (args : Args) (txring : NetmapRing Slot) : NetmapRing Slot :=
  let cur := txring.cur
  let slot := txring.slot cur
  let txring := txring.setSlot cur
    { len := (args.pktlen % 65536).toNat
      ptr := args.paddr
      flags := slot.flags ||| args.nsPhyIndirect }
  txring.setHead (nmRingNext txring cur)

/-- `b` passes of the inner loop: the ring before each write, and after the last. -/
def sendBatch (args : Args) : Nat → NetmapRing Slot → List (NetmapRing Slot) × NetmapRing Slot
  | 0, txring => ([], txring)
  | b + 1, txring =>
    let rest := sendBatch args b (queueSlot args txring)
    (txring :: rest.1, rest.2)

/-- One pass of the outer loop, up to its `NIOCTXSYNC`. -/
structure Round where
  before : NetmapRing Slot
  writes : List (NetmapRing Slot)
  after : NetmapRing Slot

def sendRound (args : Args) (txring : NetmapRing Slot) : Round :=
  let sent := sendBatch args args.batch.toNat txring
  { before := txring, writes := sent.1, after := sent.2 }

/-- What `NIOCTXSYNC` does: it fails, or hands back `k` transmitted slots. -/
inductive Sync where
  | failed
  | released (k : Nat)

inductive Stop where
  | counted
  | noEmptySlot
  | syncFailed
  | stillRunning
deriving DecidableEq

structure Run where
  rounds : List Round
  stop : Stop

/-- The outer loop from the count `n` on. After the inner loop `b` is `batch`,
and 0 when `batch` is negative. -/
def sendLoop (args : Args) (schedule : List Sync) (n : Int) (txring : NetmapRing Slot) : Run :=
  if n < args.count then
    if nmRingEmpty txring then { rounds := [], stop := .noEmptySlot }
    else
      let round := sendRound args txring
      match schedule with
      | [] => { rounds := [], stop := .stillRunning }
      | .failed :: _ => { rounds := [round], stop := .syncFailed }
      | .released k :: later =>
        let rest := sendLoop args later (n + max 0 args.batch) (round.after.release k)
        { rest with rounds := round :: rest.rounds }
  else { rounds := [], stop := .counted }

/-- What one `NIOCTXSYNC` returns and how many slots it hands back. -/
structure SyncAnswer where
  ret : Int
  released : Nat

def SyncAnswer.sync (a : SyncAnswer) : Sync := if a.ret < 0 then .failed else .released a.released

/-- The outer loop with `ret`. -/
def mainLoop (args : Args) (answers : List SyncAnswer) (n : Int) (ret : Option Int)
    (txring : NetmapRing Slot) : Run × Option Int :=
  if n < args.count then
    if nmRingEmpty txring then ({ rounds := [], stop := .noEmptySlot }, ret)
    else
      let round := sendRound args txring
      match answers with
      | [] => ({ rounds := [], stop := .stillRunning }, ret)
      | a :: later =>
        if a.ret < 0 then ({ rounds := [round], stop := .syncFailed }, some a.ret)
        else
          let rest := mainLoop args later (n + max 0 args.batch) (some a.ret)
            (round.after.release a.released)
          ({ rest.1 with rounds := round :: rest.1.rounds }, rest.2)
  else ({ rounds := [], stop := .counted }, ret)

/-- What succeeds before the loop. -/
structure Setup where
  options : Bool
  nmOpen : Bool
  openPram : Bool
  mmap : Bool

/-- The value `main` returns, if it is one that was assigned, and the loop where it
gets there. -/
def main (args : Args) (setup : Setup) (answers : List SyncAnswer) (txring : NetmapRing Slot) :
    Option Int × Option Run :=
  if !setup.options then (some (-1), none)
  else if !setup.nmOpen then (some (-1), none)
  else if !setup.openPram then (some (-1), none)
  else if !setup.mmap then (some (-1), none)
  else
    let result := mainLoop args answers 0 none txring
    (result.2, some result.1)

end Nvpkt.Source.XmitFromPram
