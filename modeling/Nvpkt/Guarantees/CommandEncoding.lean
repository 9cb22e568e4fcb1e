import Nvpkt.Guarantees.TxpktPaths
import Nvpkt.Library.ByteOrder
import Nvpkt.Source.SubmitIo

/-!
# The commands as the device reads them

A command is little-endian in memory. A field stored through `cpu_to_le` of its own
width reads back as the requested value on either kind of host
(`readLe_cpuToLe`). Two fields are not: `length` of the TXPKT command is stored
without a conversion, and `control` of the SUBMIT_IO command is converted in 32 bits
and cut to 16. On a big-endian host the first reads back with its bytes swapped and
the second as 0 (`commands_decode_iff`).
-/

set_option autoImplicit false

namespace Nvpkt.Guarantees.CommandEncoding
open Nvpkt.Library.ByteOrder Nvpkt.Library.FixedWidth
open Nvpkt.Source.KernelObjects Nvpkt.Source.TxpktOne Nvpkt.Source.SubmitIo
open Nvpkt.Guarantees.TxpktPaths

/-- The bytes of a stored field, in the order of their addresses. -/
def memory (host : Host) (width v : Nat) : List Nat :=
  match host with
  | .little => bytes width v
  | .big => (bytes width v).reverse

/-- A stored field read as little-endian. -/
def readLe (host : Host) (width v : Nat) : Nat := Nat.ofDigits 256 (memory host width v)

structure SubmitDecodes (host : Host) (ns : NvmeNs) (io : NvmeUserIo) (c : NvmeRwCommand) :
    Prop where
  nsid : readLe host 4 c.nsid = ns.nsId
  slba : readLe host 8 c.slba = io.slba.val
  length : readLe host 2 c.length = io.nblocks.val
  control : readLe host 2 c.control = io.control.val
  dsmgmt : readLe host 4 c.dsmgmt = io.dsmgmt.val
  reftag : readLe host 4 c.reftag = io.reftag.val
  apptag : readLe host 2 c.apptag = io.apptag.val
  appmask : readLe host 2 c.appmask = io.appmask.val

structure TxpktDecodes (host : Host) (ns : NvmeNs) (npr : NvpktXmit) (c : RwCommand) : Prop where
  nsid : readLe host 4 c.nsid = ns.nsId
  slba : readLe host 8 c.slba = npr.slba.val
  length : readLe host 2 c.length = nblocks ns npr.len.val

/-! ## Single fields -/

/-- A byte swap reads the bytes in the other order. -/
theorem swab_eq (width v : Nat) : swab width v = Nat.ofDigits 256 (bytes width v).reverse := by
  induction width generalizing v with
  | zero => rfl
  | succ width ih =>
    rw [swab, bytes, List.reverse_cons, Nat.ofDigits_append, ih, List.length_reverse, length_bytes,
      Nat.ofDigits_singleton, Nat.mul_comm, Nat.add_comm]

theorem readLe_cpuToLe (host : Host) {width v : Nat} (h : v < 256 ^ width) :
    readLe host width (cpuToLe host width v) = v := by
  cases host with
  | little =>
    simp only [readLe, memory, cpuToLe]
    rw [ofDigits_bytes, Nat.mod_mod, Nat.mod_eq_of_lt h]
  | big =>
    have hswab : bytes width (swab width v) = (bytes width v).reverse := by
      have hstored := bytes_ofDigits (l := (bytes width v).reverse)
        (fun b hb => bytes_lt width v b (List.mem_reverse.mp hb))
      rwa [List.length_reverse, length_bytes, ← swab_eq] at hstored
    simp only [readLe, memory, cpuToLe]
    rw [hswab, List.reverse_reverse, ofDigits_bytes, Nat.mod_eq_of_lt h]

/-- Without a conversion a big-endian host needs a value with two equal bytes. -/
theorem readLe_unconverted_iff (host : Host) {n : Nat} (h : n < 2 ^ 16) :
    readLe host 2 (wrap 16 n) = n ↔ host = .little ∨ n % 256 = n / 256 := by
  rw [wrap_of_lt h]
  cases host with
  | little =>
    simp only [readLe, memory]
    rw [ofDigits_bytes, Nat.mod_eq_of_lt (by omega)]
    simp
  | big =>
    have hread : readLe .big 2 n = n / 256 % 256 + 256 * (n % 256) := by
      simp [readLe, memory, bytes, Nat.ofDigits_cons]
    rw [hread]
    simp only [reduceCtorEq, false_or]
    omega

/-- The upper half of a byte-swapped 32-bit value is lost in a 16-bit field. -/
theorem readLe_truncated_iff (host : Host) {v : Nat} (h : v < 2 ^ 16) :
    readLe host 2 (wrap 16 (cpuToLe host 4 v)) = v ↔ host = .little ∨ v = 0 := by
  cases host with
  | little =>
    have hv : wrap 16 (cpuToLe .little 4 v) = v := by
      simp only [cpuToLe, wrap]
      omega
    rw [hv]
    simp only [readLe, memory]
    rw [ofDigits_bytes, Nat.mod_eq_of_lt (by omega)]
    simp
  | big =>
    have hv : wrap 16 (cpuToLe .big 4 v) = 0 := by
      -- only the two lower bytes of the value are there to be swapped
      have hupper : v / 256 / 256 = 0 := by omega
      simp only [cpuToLe, swab, wrap, hupper]
      omega
    rw [hv]
    have hzero : readLe .big 2 0 = 0 := rfl
    rw [hzero]
    simp only [reduceCtorEq, false_or]
    exact eq_comm

/-! ## The two commands -/

section Commands
variable {k : Kernel} {ns : NvmeNsFormat} {io : NvmeUserIo} {npr : NvpktXmit}

/-- The one command an accepted request issues. -/
theorem submit_allocRequest {calls : SubmitCalls} {c : NvmeRwCommand}
    (h : .allocRequest c ∈ (nvpktIoctlSubmitIo k ns.toNvmeNs calls io).trace) :
    c = submitCommand k ns.toNvmeNs io := by
  obtain htrace | ⟨-, htrace | htrace | htrace⟩ :=
    nvpktIoctlSubmitIo_trace k ns.toNvmeNs calls io
  · rw [htrace] at h
    cases h
  all_goals simpa [htrace] using h

theorem txpkt_executeRq {calls : Calls} {c : RwCommand} {bio : List Sg}
    (h : .executeRq c bio ∈ (nvpktIoctlTxpktOne k ns.toNvmeNs calls npr).trace) :
    c = txpktCommand k ns.toNvmeNs npr := by
  obtain ⟨sgl, skb, pre, -, -, hquiet, hrun⟩ | ⟨-, hquiet, -⟩ :=
    txpktOne_paths k ns.toNvmeNs calls npr
  · rw [hrun, executeRq_mem hquiet] at h
    exact h.1
  · exact absurd (hquiet _ h) (by simp [Quiet])

theorem submitCommand_decodes_iff :
    SubmitDecodes k.host ns.toNvmeNs io (submitCommand k ns.toNvmeNs io) ↔
      k.host = .little ∨ io.control.val = 0 := by
  rw [← readLe_truncated_iff k.host io.control.isLt]
  constructor
  · exact fun h => h.control
  · intro h
    exact {
      nsid := readLe_cpuToLe k.host ns.nsId_lt
      slba := readLe_cpuToLe k.host io.slba.isLt
      length := readLe_cpuToLe k.host io.nblocks.isLt
      control := h
      dsmgmt := readLe_cpuToLe k.host io.dsmgmt.isLt
      reftag := readLe_cpuToLe k.host io.reftag.isLt
      apptag := readLe_cpuToLe k.host io.apptag.isLt
      appmask := readLe_cpuToLe k.host io.appmask.isLt }

theorem txpktCommand_decodes_iff (hlen : npr.len.val >>> ns.lbaShift < 2 ^ 16) :
    TxpktDecodes k.host ns.toNvmeNs npr (txpktCommand k ns.toNvmeNs npr) ↔
      k.host = .little ∨
        nblocks ns.toNvmeNs npr.len.val % 256 = nblocks ns.toNvmeNs npr.len.val / 256 := by
  have hlt : nblocks ns.toNvmeNs npr.len.val < 2 ^ 16 := by
    have hwrap : wrap 32 (npr.len.val >>> ns.lbaShift) = npr.len.val >>> ns.lbaShift :=
      wrap_of_lt (Nat.lt_trans hlen (by decide))
    unfold nblocks
    rw [hwrap]
    dsimp only
    split
    · decide
    · exact hlen
  rw [← readLe_unconverted_iff k.host hlt]
  constructor
  · exact fun h => h.length
  · intro h
    exact {
      nsid := readLe_cpuToLe k.host ns.nsId_lt
      slba := readLe_cpuToLe k.host npr.slba.isLt
      length := h }

/-- The commands of an accepted request and an accepted packet read back as
requested exactly on a little-endian host, or with no control bits and a block count
of two equal bytes. -/
theorem commands_decode_iff (k : Kernel) (ns : NvmeNsFormat) (ioCalls : SubmitCalls)
    (io : NvmeUserIo) (calls : Calls) (npr : NvpktXmit) {c : NvmeRwCommand} {c' : RwCommand}
    {bio : List Sg}
    (hio : .allocRequest c ∈ (nvpktIoctlSubmitIo k ns.toNvmeNs ioCalls io).trace)
    (hnpr : .executeRq c' bio ∈ (nvpktIoctlTxpktOne k ns.toNvmeNs calls npr).trace)
    (hlen : npr.len.val >>> ns.lbaShift < 2 ^ 16) :
    SubmitDecodes k.host ns.toNvmeNs io c ∧ TxpktDecodes k.host ns.toNvmeNs npr c' ↔
      k.host = .little ∨ (io.control.val = 0 ∧
        nblocks ns.toNvmeNs npr.len.val % 256 = nblocks ns.toNvmeNs npr.len.val / 256) := by
  rw [submit_allocRequest hio, txpkt_executeRq hnpr, submitCommand_decodes_iff,
    txpktCommand_decodes_iff hlen, or_and_left]

end Commands

def bigEndian : Kernel := { x86_64 with host := .big }

/-- 257 blocks, of which both bytes are 1. -/
theorem commands_decode_257 :
    SubmitDecodes .big (blocks512 0).toNvmeNs (readAt 5 0 0)
        (submitCommand bigEndian (blocks512 0).toNvmeNs (readAt 5 0 0)) ∧
      TxpktDecodes .big (blocks512 0).toNvmeNs ⟨131584, 1, 0⟩
        (txpktCommand bigEndian (blocks512 0).toNvmeNs ⟨131584, 1, 0⟩) :=
  (commands_decode_iff bigEndian (blocks512 0) succeedingSubmit (readAt 5 0 0)
    (succeedingCalls [⟨⟨7, 0⟩, 4096⟩]) ⟨131584, 1, 0⟩ (by decide)
    (show Event.executeRq _ [⟨⟨7, 0⟩, 3776⟩] ∈ _ by decide) (by decide)).mpr (Or.inr (by decide))

/-- A request with the FUA bit set and a packet of two blocks, on a big-endian host:
the device reads no control bits and 512 blocks. -/
theorem big_endian_misread :
    (submitCommand bigEndian (blocks512 0).toNvmeNs (readAt 5 0 0x4000)).control = 0 ∧
      readLe .big 2 (txpktCommand bigEndian (blocks512 0).toNvmeNs ⟨1024, 1, 0⟩).length = 512 ∧
      ¬ SubmitDecodes .big (blocks512 0).toNvmeNs (readAt 5 0 0x4000)
        (submitCommand bigEndian (blocks512 0).toNvmeNs (readAt 5 0 0x4000)) ∧
      ¬ TxpktDecodes .big (blocks512 0).toNvmeNs ⟨1024, 1, 0⟩
        (txpktCommand bigEndian (blocks512 0).toNvmeNs ⟨1024, 1, 0⟩) := by
  refine ⟨by decide, by decide, fun h => ?_, fun h => ?_⟩
  · exact absurd h.control (by decide)
  · exact absurd h.length (by decide)

end Nvpkt.Guarantees.CommandEncoding
