import Nvpkt.Library.Interleaving
import Nvpkt.Source.SubmitIo
import Nvpkt.Source.TxpktIoctl

/-!
# The ioctls of the driver at work

`nvpkt_ioctl` of `native-driver/nvpkt.c`, and what the calls it makes do outside the
driver: a command moves bytes between the device and the memory of the call, and a
frame handed to `dev_queue_xmit` is what that memory holds at the time. The driver
takes no lock, so several ioctls are under way at once and their steps interleave.

A command that is cancelled or completes with an error may have moved anything; the
`junk` of its outcome stands for it. What the device does on a command other than
those named here is the parameter `other`.
-/

set_option autoImplicit false

namespace Nvpkt.Source.NvpktIoctl
open Nvpkt.Library.SegmentList Nvpkt.Library.Interleaving
open Nvpkt.Source.KernelObjects Nvpkt.Source.TxpktOne Nvpkt.Source.TxpktIoctl
open Nvpkt.Source.SubmitIo

/-- `_IOW('N', nr, ...)` of an argument with `size` bytes. -/
def iow (nr size : Nat) : Nat := 1 <<< 30 ||| size <<< 16 ||| 'N'.toNat <<< 8 ||| nr

def NVPKT_IOCTL_SUBMIT_IO : Nat := iow 0x42 48
def NVPKT_IOCTL_TXPKT : Nat := iow 0x43 24
def NVPKT_IOCTL_TXPKT_COUNT : Nat := iow 0x44 24

def nvmeCmdFlush : Nat := 0x00
def nvmeCmdWrite : Nat := 0x01
def nvmeCmdCompare : Nat := 0x05

/-- An ioctl on the device: the command number, what user space has at `arg` read as
either structure, and the kernel's answers. `memory` is what the pages hold that the
call works on, the freshly allocated ones or the caller's buffer. -/
structure Ioctl (Byte : Type) where
  cmd : Fin (2 ^ 32)
  npr : NvpktXmit
  io : NvmeUserIo
  copyFromUser : Nat
  calls : Nat → Calls
  submit : SubmitCalls
  memory : Nat → Byte

inductive DriverEvent where
  | packet (ev : Event)
  | io (ev : SubmitEvent)
  deriving DecidableEq, Repr

structure IoctlResult where
  exit : Exit
  trace : List DriverEvent
  deriving DecidableEq, Repr

variable {Byte : Type}

def nvpktIoctl (k : Kernel) (ns : NvmeNs) (q : Ioctl Byte) : IoctlResult :=
  if q.cmd.val = NVPKT_IOCTL_TXPKT then
    let r := nvpktIoctlTxpkt k ns q.copyFromUser (q.calls 0) q.npr
    ⟨r.exit, r.trace.map .packet⟩
  else if q.cmd.val = NVPKT_IOCTL_TXPKT_COUNT then
    let r := nvpktIoctlTxpktCount k ns q.copyFromUser q.calls q.npr
    ⟨r.exit, r.trace.map .packet⟩
  else if q.cmd.val = NVPKT_IOCTL_SUBMIT_IO then
    let r := nvpktIoctlSubmitIo k ns q.submit q.io
    ⟨.ret r.ret, r.trace.map .io⟩
  else ⟨.ret (-EINVAL.val), []⟩

/-! ## Device and wire -/

structure World (Byte : Type) where
  disk : Nat → Byte
  wire : List (List Byte)

/-- What becomes of a command. -/
inductive Outcome (Byte : Type) where
  | done
  | failed (junk : Nat → Byte)

/-- The bytes that are moved in place of `src`. -/
def Outcome.bytes (src : Nat → Byte) : Outcome Byte → Nat → Byte
  | .done => src
  | .failed junk => junk

/-- `n` bytes from `base` on replaced. -/
def overwrite (cells : Nat → Byte) (base n : Nat) (bytes : Nat → Byte) (a : Nat) : Byte :=
  if base ≤ a ∧ a < base + n then bytes (a - base) else cells a

/-- A call that has not returned: the steps before it, its memory, and for SUBMIT_IO the
command and the mapping of its request. -/
structure InFlight (Byte : Type) where
  todo : List DriverEvent
  memory : Nat → Byte
  command : Option NvmeRwCommand
  mapping : Option (Nat × Nat)

/-- The device executes a user's command on `length` mapped bytes at `addr`. -/
def executeUser (ns : NvmeNs) (other : NvmeRwCommand → (Nat → Byte) → Nat → Byte)
    (c : NvmeRwCommand) (addr length : Nat) (outcome : Outcome Byte)
    (w : World Byte) (memory : Nat → Byte) : World Byte × (Nat → Byte) :=
  let base := c.slba <<< ns.lbaShift
  let n := min (transferBytes ns c.toRwCommand) length
  if c.opcode = nvmeCmdWrite then
    ({ w with disk := overwrite w.disk base n (outcome.bytes fun i => memory (addr + i)) }, memory)
  else if c.opcode = nvmeCmdRead then
    (w, overwrite memory addr n (outcome.bytes fun i => w.disk (base + i)))
  else if c.opcode = nvmeCmdFlush ∨ c.opcode = nvmeCmdCompare then (w, memory)
  else ({ w with disk := other c w.disk }, memory)

/-- What a step of a call does. The frame is right for packets at least as long as the
shared info: the read of a shorter one runs over the list of its fragments, which is kept
outside `memory` here (`SharedInfo`). -/
def effect (k : Kernel) (ns : NvmeNs) (other : NvmeRwCommand → (Nat → Byte) → Nat → Byte)
    (w : World Byte) (call : InFlight Byte) (outcome : Outcome Byte) :
    DriverEvent → World Byte × InFlight Byte
  | .packet (.executeRq c bio) =>
    (w, { call with
      memory := fill k.byteAddr (outcome.bytes (readByte ns w.disk c)) (transferBytes ns c) bio 0
        call.memory })
  | .packet (.devQueueXmit skb) =>
    ({ w with wire := w.wire ++ [gather k.byteAddr call.memory skb.segs] }, call)
  | .packet _ => (w, call)
  | .io (.allocRequest c) => (w, { call with command := some c })
  | .io (.mapUser addr length) => (w, { call with mapping := some (addr, length) })
  | .io .executeRq =>
    match call.command, call.mapping with
    | some c, some (addr, length) =>
      let moved := executeUser ns other c addr length outcome w call.memory
      (moved.1, { call with memory := moved.2 })
    | _, _ => (w, call)
  | .io _ => (w, call)

/-- The loaded driver with its device: ioctls begin at any time and take their steps in
any order. -/
def driver (k : Kernel) (ns : NvmeNs) (other : NvmeRwCommand → (Nat → Byte) → Nat → Byte) :
    Machine (World Byte) (InFlight Byte) (Ioctl Byte) (Outcome Byte) where
  init q := ⟨(nvpktIoctl k ns q).trace, q.memory, none, none⟩
  action _ w call outcome :=
    match call.todo with
    | [] => none
    | ev :: rest =>
      let next := effect k ns other w call outcome ev
      some (next.1, { next.2 with todo := rest })

end Nvpkt.Source.NvpktIoctl
