import Nvpkt.Source.TxpktOne

/-!
# The submit ioctl

`nvpkt_ioctl_submit_io` of `native-driver/nvpkt.c`. The user's request has the
widths of `struct nvme_user_io`; the command is `struct nvme_rw_command` as stored
in memory, every assignment converted to the field's width. The length of the
mapping is computed as an int and assigned to an unsigned int.
-/

set_option autoImplicit false

namespace Nvpkt.Source.SubmitIo
open Nvpkt.Library.FixedWidth
open Nvpkt.Source.KernelObjects Nvpkt.Source.TxpktOne

def EINVAL : Errno := ⟨22, by decide, by decide⟩

/-- `struct nvme_user_io`, less the fields the ioctl does not read. -/
structure NvmeUserIo where
  opcode : Fin (2 ^ 8)
  flags : Fin (2 ^ 8)
  control : Fin (2 ^ 16)
  nblocks : Fin (2 ^ 16)
  addr : Fin (2 ^ 64)
  slba : Fin (2 ^ 64)
  dsmgmt : Fin (2 ^ 32)
  reftag : Fin (2 ^ 32)
  apptag : Fin (2 ^ 16)
  appmask : Fin (2 ^ 16)
  deriving DecidableEq, Repr

/-- `struct nvme_ns` with the format of its blocks. -/
structure NvmeNsFormat extends NvmeNs where
  ms : Fin (2 ^ 16)
  ext : Bool
  nsId_lt : nsId < 2 ^ 32
  deriving DecidableEq, Repr

/-- All the fields the ioctl fills. -/
structure NvmeRwCommand extends RwCommand where
  control : Nat
  dsmgmt : Nat
  reftag : Nat
  apptag : Nat
  appmask : Nat
  deriving DecidableEq, Repr

/-- Outcomes of the kernel calls; `copyFromUser` says that something was not copied. -/
structure SubmitCalls where
  copyFromUser : Bool
  allocRequest : Option Errno
  mapUser : Option Errno
  cancelled : Bool
  status : Nat

/-- Nothing is refused and the command completes with status 0. -/
def succeedingSubmit : SubmitCalls :=
  { copyFromUser := false, allocRequest := none, mapUser := none, cancelled := false, status := 0 }

/-- A namespace of 512-byte blocks, each with `ms` bytes of metadata behind it. -/
def blocks512 (ms : Fin (2 ^ 16)) : NvmeNsFormat :=
  { nsId := 1, lbaShift := 9, ms := ms, ext := true, nsId_lt := by decide }

/-- A read of `nblocks + 1` blocks, with the given control bits and every other field 0. -/
def readAt (slba : Fin (2 ^ 64)) (nblocks control : Fin (2 ^ 16)) : NvmeUserIo :=
  { opcode := 2, flags := 0, control := control, nblocks := nblocks, addr := 4096, slba := slba,
    dsmgmt := 0, reftag := 0, apptag := 0, appmask := 0 }

inductive SubmitEvent where
  | allocRequest (c : NvmeRwCommand)
  | mapUser (addr length : Nat)
  | executeRq
  | unmapUser
  | freeRequest
  deriving DecidableEq, Repr

structure SubmitResult where
  ret : Int
  trace : List SubmitEvent
  deriving DecidableEq, Repr

/-- `(io.nblocks + 1) << ns->lba_shift` -/
def submitLength (ns : NvmeNs) (io : NvmeUserIo) : Nat :=
  wrap 32 ((io.nblocks.val + 1) <<< ns.lbaShift)

/-- The command; `control` is converted as if it had 32 bits and stored in 16. -/
def submitCommand (k : Kernel) (ns : NvmeNs) (io : NvmeUserIo) : NvmeRwCommand where
  opcode := io.opcode.val
  nsid := cpuToLe k.host 4 ns.nsId
  slba := cpuToLe k.host 8 io.slba.val
  length := cpuToLe k.host 2 io.nblocks.val
  control := wrap 16 (cpuToLe k.host 4 io.control.val)
  dsmgmt := cpuToLe k.host 4 io.dsmgmt.val
  reftag := cpuToLe k.host 4 io.reftag.val
  apptag := cpuToLe k.host 2 io.apptag.val
  appmask := cpuToLe k.host 2 io.appmask.val

def nvpktIoctlSubmitIo (k : Kernel) (ns : NvmeNs) (calls : SubmitCalls) (io : NvmeUserIo) :
    SubmitResult :=
  if calls.copyFromUser then ⟨-EINVAL.val, []⟩
  else if io.flags.val ≠ 0 then ⟨-EINVAL.val, []⟩
  else
    let length := submitLength ns io
    let c := submitCommand k ns io
    match calls.allocRequest with
    | some e => ⟨-e.val, [.allocRequest c]⟩
    | none =>
      match calls.mapUser with
      | some e => ⟨-e.val, [.allocRequest c, .mapUser io.addr.val length, .freeRequest]⟩
      | none =>
        let ret : Int := if calls.cancelled then -EINTR.val else calls.status
        ⟨ret, [.allocRequest c, .mapUser io.addr.val length, .executeRq, .unmapUser,
          .freeRequest]⟩

/-- A request is refused without a trace, or stops at one of three points. -/
theorem nvpktIoctlSubmitIo_trace (k : Kernel) (ns : NvmeNs) (calls : SubmitCalls)
    (io : NvmeUserIo) :
    (nvpktIoctlSubmitIo k ns calls io).trace = [] ∨
    (io.flags.val = 0 ∧
      ((nvpktIoctlSubmitIo k ns calls io).trace = [.allocRequest (submitCommand k ns io)] ∨
        (nvpktIoctlSubmitIo k ns calls io).trace =
          [.allocRequest (submitCommand k ns io), .mapUser io.addr.val (submitLength ns io),
            .freeRequest] ∨
        (nvpktIoctlSubmitIo k ns calls io).trace =
          [.allocRequest (submitCommand k ns io), .mapUser io.addr.val (submitLength ns io),
            .executeRq, .unmapUser, .freeRequest])) := by
  unfold nvpktIoctlSubmitIo
  split
  · exact Or.inl rfl
  split
  · exact Or.inl rfl
  case isFalse hflags =>
    refine Or.inr ⟨Classical.not_not.mp hflags, ?_⟩
    cases calls.allocRequest with
    | some e => exact Or.inl rfl
    | none =>
      cases calls.mapUser with
      | some e => exact Or.inr (Or.inl rfl)
      | none => exact Or.inr (Or.inr rfl)

end Nvpkt.Source.SubmitIo
