import Mathlib.Tactic.Ring
import Nvpkt.Source.SubmitIo

/-!
# The user pages of SUBMIT_IO

The ioctl maps `(nblocks + 1) << lba_shift` bytes for any request with no flags. The
command transfers that many only if its opcode is one with a block count, the
namespace does not interleave metadata with its blocks, and the shift stays within an
int (`submit_maps_iff`); the ioctl looks at none of the three.
-/

set_option autoImplicit false

namespace Nvpkt.Guarantees.SubmitLength
open Nvpkt.Library.FixedWidth
open Nvpkt.Source.KernelObjects Nvpkt.Source.TxpktOne Nvpkt.Source.SubmitIo

def nvmeCmdWrite : Nat := 0x01
def nvmeCmdCompare : Nat := 0x05

/-- Metadata bytes that travel with each block in the data buffer. -/
def extBytes (ns : NvmeNsFormat) : Nat := if ns.ext then ns.ms.val else 0

/-- Bytes that a read, write or compare of the request moves. -/
def commandBytes (ns : NvmeNsFormat) (io : NvmeUserIo) : Nat :=
  (io.nblocks.val + 1) * (1 <<< ns.lbaShift + extBytes ns)

/-- The block count governs the transfer and the mapping is as long as the transfer;
`fits` says that the int shift does not overflow. -/
structure MapsExactly (ns : NvmeNsFormat) (io : NvmeUserIo) (trace : List SubmitEvent) :
    Prop where
  opcode : io.opcode.val ∈ [nvmeCmdWrite, nvmeCmdRead, nvmeCmdCompare]
  mapped : ∀ addr length, .mapUser addr length ∈ trace → length = commandBytes ns io
  fits : (io.nblocks.val + 1) <<< ns.lbaShift < 2 ^ 31

section Issued
variable {k : Kernel} {ns : NvmeNsFormat} {calls : SubmitCalls} {io : NvmeUserIo}

/-- A request that is issued has been mapped, with the one length. -/
theorem issued_mapUser (h : .executeRq ∈ (nvpktIoctlSubmitIo k ns.toNvmeNs calls io).trace)
    (addr length : Nat) :
    .mapUser addr length ∈ (nvpktIoctlSubmitIo k ns.toNvmeNs calls io).trace ↔
      addr = io.addr.val ∧ length = submitLength ns.toNvmeNs io := by
  obtain htrace | ⟨-, htrace | htrace | htrace⟩ :=
    nvpktIoctlSubmitIo_trace k ns.toNvmeNs calls io
  all_goals rw [htrace] at h ⊢; simp at h ⊢

/-- Within an int the mapping has the blocks' bytes, so it lacks the metadata. -/
theorem submitLength_eq_iff (hfits : (io.nblocks.val + 1) <<< ns.lbaShift < 2 ^ 31) :
    submitLength ns.toNvmeNs io = commandBytes ns io ↔ extBytes ns = 0 := by
  have hlength : submitLength ns.toNvmeNs io = (io.nblocks.val + 1) <<< ns.lbaShift :=
    wrap_of_lt (Nat.lt_trans hfits (by decide))
  have hcommand : commandBytes ns io =
      (io.nblocks.val + 1) <<< ns.lbaShift + (io.nblocks.val + 1) * extBytes ns := by
    unfold commandBytes
    rw [Nat.shiftLeft_eq, Nat.shiftLeft_eq]
    ring
  rw [hlength, hcommand]
  constructor
  · intro h
    have hzero : (io.nblocks.val + 1) * extBytes ns = 0 := by omega
    exact (Nat.mul_eq_zero.mp hzero).resolve_left (Nat.succ_ne_zero _)
  · intro h
    rw [h, Nat.mul_zero]
    exact (Nat.add_zero _).symm

/-- What an issued request maps is what it transfers exactly for a read, write or
compare of a namespace without metadata in its blocks, of less than 2^31 bytes. -/
theorem submit_maps_iff (h : .executeRq ∈ (nvpktIoctlSubmitIo k ns.toNvmeNs calls io).trace) :
    MapsExactly ns io (nvpktIoctlSubmitIo k ns.toNvmeNs calls io).trace ↔
      io.opcode.val ∈ [nvmeCmdWrite, nvmeCmdRead, nvmeCmdCompare] ∧
        (ns.ext = false ∨ ns.ms.val = 0) ∧ (io.nblocks.val + 1) <<< ns.lbaShift < 2 ^ 31 := by
  have hext : extBytes ns = 0 ↔ ns.ext = false ∨ ns.ms.val = 0 := by
    unfold extBytes
    cases ns.ext <;> simp
  rw [← hext]
  constructor
  · intro hmaps
    have hlength := hmaps.mapped _ _ ((issued_mapUser h _ _).mpr ⟨rfl, rfl⟩)
    exact ⟨hmaps.opcode, (submitLength_eq_iff hmaps.fits).mp hlength, hmaps.fits⟩
  · intro hcond
    obtain ⟨hopcode, hmeta, hfits⟩ := hcond
    refine ⟨hopcode, fun addr length hmem => ?_, hfits⟩
    rw [((issued_mapUser h addr length).mp hmem).2]
    exact (submitLength_eq_iff hfits).mpr hmeta

end Issued

theorem submit_maps_no_metadata : MapsExactly (blocks512 0) (readAt 0 7 0)
    (nvpktIoctlSubmitIo x86_64 (blocks512 0).toNvmeNs succeedingSubmit (readAt 0 7 0)).trace :=
  (submit_maps_iff (by decide)).mpr (by decide)

/-- Eight blocks with eight bytes of metadata each: 4096 bytes are mapped and 4160
transferred. -/
theorem metadata_not_mapped :
    .executeRq ∈ (nvpktIoctlSubmitIo x86_64 (blocks512 8).toNvmeNs succeedingSubmit
      (readAt 0 7 0)).trace ∧
    .mapUser 4096 4096 ∈ (nvpktIoctlSubmitIo x86_64 (blocks512 8).toNvmeNs succeedingSubmit
      (readAt 0 7 0)).trace ∧
    commandBytes (blocks512 8) (readAt 0 7 0) = 4160 ∧
    ¬ MapsExactly (blocks512 8) (readAt 0 7 0)
      (nvpktIoctlSubmitIo x86_64 (blocks512 8).toNvmeNs succeedingSubmit
        (readAt 0 7 0)).trace := by
  refine ⟨by decide, by decide, by decide, fun h => ?_⟩
  have hlength := h.mapped 4096 4096 (by decide)
  exact absurd hlength (by decide)

end Nvpkt.Guarantees.SubmitLength
