import Nvpkt.Guarantees.StoredPackets

/-!
# What is written is read back

A write of SUBMIT_IO that gets to the device, and then any interleaving of ioctls that do
not write to its blocks: a read of SUBMIT_IO that has returned has put into its caller's
buffer what was written, where the two meet, and has left everything around the buffer
alone (`written_read_back`).
-/

set_option autoImplicit false

namespace Nvpkt.Guarantees.ReadBack
open Nvpkt.Library.FixedWidth Nvpkt.Library.Interleaving
open Nvpkt.Source.KernelObjects Nvpkt.Source.TxpktOne Nvpkt.Source.SubmitIo
open Nvpkt.Source.NvpktIoctl
open Nvpkt.Guarantees.TxpktPaths (succeedingCalls)
open Nvpkt.Guarantees.TxpktPayload (onePage)
open Nvpkt.Guarantees.PacketStore Nvpkt.Guarantees.DriverRefines Nvpkt.Guarantees.StoredPackets

variable {Byte : Type}

/-- Nothing is refused on the way to the device. -/
structure Reaches (calls : SubmitCalls) : Prop where
  copyFromUser : calls.copyFromUser = false
  allocRequest : calls.allocRequest = none
  mapUser : calls.mapUser = none

/-- A SUBMIT_IO with the opcode that gets to the device. -/
structure Submits (opcode : Nat) (q : Ioctl Byte) : Prop where
  cmd : q.cmd.val = NVPKT_IOCTL_SUBMIT_IO
  flags : q.io.flags.val = 0
  opcode : q.io.opcode.val = opcode
  reaches : Reaches q.submit

theorem submits_trace (k : Kernel) (ns : NvmeNs) {opcode : Nat} {q : Ioctl Byte}
    (h : Submits opcode q) : (nvpktIoctl k ns q).trace =
      [.io (.allocRequest (submitCommand k ns q.io)),
        .io (.mapUser q.io.addr.val (submitLength ns q.io)), .io .executeRq, .io .unmapUser,
        .io .freeRequest] := by
  have hone : ¬ q.cmd.val = NVPKT_IOCTL_TXPKT := by
    rw [h.cmd]
    decide
  have hcount : ¬ q.cmd.val = NVPKT_IOCTL_TXPKT_COUNT := by
    rw [h.cmd]
    decide
  simp only [nvpktIoctl, if_neg hone, if_neg hcount, if_pos h.cmd, nvpktIoctlSubmitIo,
    h.reaches.copyFromUser, h.reaches.allocRequest, h.reaches.mapUser, h.flags, ne_eq,
    not_true_eq_false, if_false, Bool.false_eq_true]
  rfl

/-! ## A write on its own -/

/-- The blocks of a write, with what it writes. -/
def writtenRegion (ns : NvmeNs) (q : Ioctl Byte) : Region Byte where
  base := q.io.slba.val <<< ns.lbaShift
  size := submitLength ns q.io
  bytes := fun i => q.memory (q.io.addr.val + i)

/-- A request from its ioctl to the return of it, with nothing in between. -/
def requestAlone (n : Nat) (q : Ioctl Byte) : List (Label (Ioctl Byte) (Outcome Byte)) :=
  .spawn q :: (List.replicate 5 Outcome.done).map (.act n)

section Write
variable {k : Kernel} {ns : NvmeNs} {other : NvmeRwCommand → (Nat → Byte) → Nat → Byte}
  {sys : System (World Byte) (InFlight Byte)} {q : Ioctl Byte}

/-- The device's part of it. -/
theorem write_executes (ns : NvmeNs) (other : NvmeRwCommand → (Nat → Byte) → Nat → Byte)
    (hh : k.host = .little) {io : NvmeUserIo} (hwrite : io.opcode.val = nvmeCmdWrite)
    (w : World Byte) (memory : Nat → Byte) :
    executeUser ns other (submitCommand k ns io) io.addr.val (submitLength ns io) .done w memory =
      ({ w with
        disk := overwrite w.disk (io.slba.val <<< ns.lbaShift) (submitLength ns io)
          fun i => memory (io.addr.val + i) }, memory) := by
  obtain ⟨hslba, hmoved⟩ := submit_moves ns hh io
  have hop : (submitCommand k ns io).opcode = nvmeCmdWrite := hwrite
  simp only [executeUser, hslba, hmoved, hop, if_pos, Outcome.bytes]

/-- The blocks hold what was written, and no ioctl is under way. -/
theorem writeAlone_run (ns : NvmeNs) (other : NvmeRwCommand → (Nat → Byte) → Nat → Byte)
    (hh : k.host = .little) (hidle : Idle sys) (hwrite : Submits nvmeCmdWrite q) :
    ∃ mid, (driver k ns other).run sys (requestAlone sys.threads.length q) = some mid ∧
      Idle mid ∧ mid.threads.length = sys.threads.length + 1 ∧
      mid.shared.wire = sys.shared.wire ∧
      Region.Stored (writtenRegion ns q) mid.shared.disk := by
  let w : World Byte := { sys.shared with
    disk := overwrite sys.shared.disk (q.io.slba.val <<< ns.lbaShift) (submitLength ns q.io)
      fun i => q.memory (q.io.addr.val + i) }
  let call : InFlight Byte := ⟨[], q.memory, some (submitCommand k ns q.io),
    some (q.io.addr.val, submitLength ns q.io)⟩
  have hacts : (List.replicate 5 Outcome.done).foldlM
      (fun sl e => (driver k ns other).action sys.threads.length sl.1 sl.2 e)
      (sys.shared, (driver k ns other).init q) = some (w, call) := by
    have hexec := write_executes ns other hh hwrite.opcode sys.shared q.memory
    have hinit : (driver k ns other).init q =
        ⟨(nvpktIoctl k ns q).trace, q.memory, none, none⟩ := rfl
    rw [hinit, submits_trace k ns hwrite]
    simp only [List.replicate, List.foldlM_cons, List.foldlM_nil, driver, effect, hexec,
      Option.bind_eq_bind, Option.bind_some]
    rfl
  refine ⟨⟨w, sys.threads ++ [call]⟩, run_alone hacts, ?_, by simp, rfl, ?_⟩
  · intro c hc
    rcases List.mem_append.mp hc with hc | hc
    · exact hidle c hc
    · rw [List.mem_singleton.mp hc]
  · intro a ha
    exact if_pos ha

end Write

/-! ## What the other calls leave alone -/

/-- A call that does not write to the region. -/
inductive Leaves (k : Kernel) (ns : NvmeNs) (r : Region Byte) : InFlight Byte → Prop
  | packets {evs : List Event} {memory : Nat → Byte} {command : Option NvmeRwCommand}
      {mapping : Option (Nat × Nat)} :
      Leaves k ns r ⟨evs.map .packet, memory, command, mapping⟩
  | request {io : NvmeUserIo} {evs : List SubmitEvent} {memory : Nat → Byte}
      {command : Option NvmeRwCommand} {mapping : Option (Nat × Nat)}
      (hprep : Prepared k ns io evs command mapping) (havoids : Avoids ns r io) :
      Leaves k ns r ⟨evs.map .io, memory, command, mapping⟩

theorem Leaves.idle {k : Kernel} {ns : NvmeNs} {r : Region Byte} {memory : Nat → Byte}
    {command : Option NvmeRwCommand} {mapping : Option (Nat × Nat)} :
    Leaves k ns r ⟨[], memory, command, mapping⟩ :=
  @Leaves.packets _ k ns r [] memory command mapping

section Steps
variable {k : Kernel} {ns : NvmeNs} {other : NvmeRwCommand → (Nat → Byte) → Nat → Byte}
  {r : Region Byte} {w w' : World Byte} {call call' : InFlight Byte} {outcome : Outcome Byte}
  {i : Nat} {q : Ioctl Byte}

theorem leaves_init (q : Ioctl Byte)
    (havoids : q.cmd.val = NVPKT_IOCTL_SUBMIT_IO → Avoids ns r q.io) :
    Leaves k ns r ((driver k ns other).init q) := by
  simp only [driver, nvpktIoctl]
  split
  · exact .packets
  · split
    · exact .packets
    · split
      · exact .request (submit_prepared ns q.submit q.io) (havoids (by assumption))
      · exact .idle

/-- A packet only reads the device. -/
theorem packet_disk (ev : Event) :
    (effect k ns other w call outcome (.packet ev)).1.disk = w.disk := by
  cases ev <;> rfl

/-- A request that avoids the region leaves it as it was, also when it fails. -/
theorem avoids_stored (hh : k.host = .little) {io : NvmeUserIo} (havoids : Avoids ns r io)
    (hstored : Region.Stored r w.disk) (memory : Nat → Byte) :
    Region.Stored r (executeUser ns other (submitCommand k ns io) io.addr.val (submitLength ns io)
      outcome w memory).1.disk := by
  obtain ⟨hslba, hmoved⟩ := submit_moves ns hh io
  have hop : (submitCommand k ns io).opcode = io.opcode.val := rfl
  unfold executeUser
  simp only [hslba, hmoved, hop]
  rcases havoids with hkeeps | ⟨hwrite, hapart⟩
  · have hnot : ¬ io.opcode.val = nvmeCmdWrite := by
      intro hw
      rw [hw] at hkeeps
      revert hkeeps
      decide
    rw [if_neg hnot]
    split
    · exact hstored
    · next hread =>
      have hother : io.opcode.val = nvmeCmdFlush ∨ io.opcode.val = nvmeCmdCompare := by
        simpa [hread] using hkeeps
      rw [if_pos hother]
      exact hstored
  · rw [if_pos hwrite]
    intro a ha
    have ha' := ha
    obtain ⟨hlow, hhigh⟩ := ha
    refine Eq.trans (if_neg ?_) (hstored a ha')
    omega

theorem leaves_step (hh : k.host = .little) (hstored : Region.Stored r w.disk)
    (h : Leaves k ns r call)
    (hact : (driver k ns other).action i w call outcome = some (w', call')) :
    Region.Stored r w'.disk ∧ Leaves k ns r call' := by
  obtain ⟨ev, rest, htodo, rfl, rfl⟩ := driver_action hact
  cases h with
  | @packets evs memory command mapping =>
    cases evs with
    | nil => cases htodo
    | cons e evs =>
      obtain ⟨rfl, rfl⟩ := List.cons.inj htodo
      refine ⟨?_, .packets⟩
      rw [packet_disk]
      exact hstored
  | @request io evs memory command mapping hprep havoids =>
    cases evs with
    | nil => cases htodo
    | cons e evs =>
      obtain ⟨rfl, rfl⟩ := List.cons.inj htodo
      cases e with
      | executeRq =>
        obtain ⟨rfl, rfl, -, hrest⟩ := hprep
        exact ⟨avoids_stored hh havoids hstored memory, .request hrest havoids⟩
      | _ => exact ⟨hstored, .request hprep havoids⟩

/-! ## A read -/

/-- The caller's buffer shows the region where the read meets it, and what is around the
buffer is as the caller had it. -/
structure ReadFrom (ns : NvmeNs) (r : Region Byte) (q : Ioctl Byte) (memory : Nat → Byte) :
    Prop where
  shown : ∀ j < submitLength ns q.io, r.Contains (q.io.slba.val <<< ns.lbaShift + j) →
    memory (q.io.addr.val + j) = r.bytes (q.io.slba.val <<< ns.lbaShift + j - r.base)
  kept : ∀ a, a < q.io.addr.val ∨ q.io.addr.val + submitLength ns q.io ≤ a →
    memory a = q.memory a

inductive Reading (k : Kernel) (ns : NvmeNs) (r : Region Byte) (q : Ioctl Byte) :
    InFlight Byte → Prop
  | before {evs : List SubmitEvent} {command : Option NvmeRwCommand}
      {mapping : Option (Nat × Nat)} (hprep : Prepared k ns q.io evs command mapping)
      (hexec : .executeRq ∈ evs) : Reading k ns r q ⟨evs.map .io, q.memory, command, mapping⟩
  | after {evs : List SubmitEvent} {memory : Nat → Byte} {command : Option NvmeRwCommand}
      {mapping : Option (Nat × Nat)} (hexec : .executeRq ∉ evs) (hread : ReadFrom ns r q memory) :
      Reading k ns r q ⟨evs.map .io, memory, command, mapping⟩

theorem reading_init (h : Submits nvmeCmdRead q) :
    Reading k ns r q ((driver k ns other).init q) := by
  have hprep := submit_prepared (k := k) ns q.submit q.io
  have hinit : (driver k ns other).init q =
      ⟨(nvpktIoctl k ns q).trace, q.memory, none, none⟩ := rfl
  have hevs : (nvpktIoctl k ns q).trace =
      [SubmitEvent.allocRequest (submitCommand k ns q.io),
        .mapUser q.io.addr.val (submitLength ns q.io), .executeRq, .unmapUser,
        .freeRequest].map .io := submits_trace k ns h
  rw [hinit, hevs]
  exact .before (by simp [Prepared]) (by simp)

/-- The device's part of a read. -/
theorem read_executes (hh : k.host = .little) (hread : q.io.opcode.val = nvmeCmdRead)
    (hstored : Region.Stored r w.disk) :
    ReadFrom ns r q (executeUser ns other (submitCommand k ns q.io) q.io.addr.val
      (submitLength ns q.io) .done w q.memory).2 := by
  obtain ⟨hslba, hmoved⟩ := submit_moves ns hh q.io
  have hop : (submitCommand k ns q.io).opcode = nvmeCmdRead := hread
  have hnot : ¬ nvmeCmdRead = nvmeCmdWrite := by decide
  unfold executeUser
  simp only [hslba, hmoved, hop, if_neg hnot, if_pos, Outcome.bytes]
  constructor
  · intro j hj hin
    rw [overwrite, if_pos ⟨by omega, by omega⟩, Nat.add_sub_cancel_left, hstored _ hin]
  · intro a ha
    rw [overwrite, if_neg (by omega)]

theorem reading_step (hh : k.host = .little) (hread : q.io.opcode.val = nvmeCmdRead)
    (hstored : Region.Stored r w.disk) (h : Reading k ns r q call)
    (hact : (driver k ns other).action i w call .done = some (w', call')) :
    Reading k ns r q call' := by
  obtain ⟨ev, rest, htodo, rfl, rfl⟩ := driver_action hact
  cases h with
  | @before evs command mapping hprep hexec =>
    cases evs with
    | nil => cases htodo
    | cons e evs =>
      obtain ⟨rfl, rfl⟩ := List.cons.inj htodo
      cases e with
      | executeRq =>
        obtain ⟨rfl, rfl, hlast, -⟩ := hprep
        exact .after hlast (read_executes hh hread hstored)
      | _ => exact .before hprep (by simpa using hexec)
  | @after evs memory command mapping hexec hdone =>
    cases evs with
    | nil => cases htodo
    | cons e evs =>
      obtain ⟨rfl, rfl⟩ := List.cons.inj htodo
      rw [List.mem_cons, not_or] at hexec
      cases e with
      | executeRq => exact absurd rfl hexec.1
      | _ => exact .after hexec.2 hdone

/-- A read that has returned. -/
theorem reading_done (h : Reading k ns r q call) (htodo : call.todo = []) :
    ReadFrom ns r q call.memory := by
  cases h with
  | before hprep hexec =>
    rw [List.map_eq_nil_iff.mp htodo] at hexec
    exact absurd hexec List.not_mem_nil
  | after hexec hread => exact hread

end Steps

/-! ## Runs -/

/-- The state of a call, which is the read of `q` if that was started as number `j`. -/
def CallOk (k : Kernel) (ns : NvmeNs) (r : Region Byte) (first : Nat) (started : List (Ioctl Byte))
    (i : Nat) (call : InFlight Byte) : Prop :=
  Leaves k ns r call ∧ ∀ j q, i = first + j → started[j]? = some q → Submits nvmeCmdRead q →
    Reading k ns r q call

/-- From a region that is stored: every read that has returned shows it. -/
theorem stored_read {k : Kernel} {ns : NvmeNs}
    {other : NvmeRwCommand → (Nat → Byte) → Nat → Byte} (hh : k.host = .little)
    {sys out : System (World Byte) (InFlight Byte)} (hidle : Idle sys)
    {labels : List (Label (Ioctl Byte) (Outcome Byte))}
    (hdone : ∀ e ∈ inputs labels, e = Outcome.done) {r : Region Byte}
    (hstored : Region.Stored r sys.shared.disk)
    (havoids : ∀ q ∈ spawned labels, q.cmd.val = NVPKT_IOCTL_SUBMIT_IO → Avoids ns r q.io)
    (hrun : (driver k ns other).run sys labels = some out) {j : Nat} {q : Ioctl Byte}
    (hq : (spawned labels)[j]? = some q) (hread : Submits nvmeCmdRead q) {call : InFlight Byte}
    (hcall : out.threads[sys.threads.length + j]? = some call) (htodo : call.todo = []) :
    ReadFrom ns r q call.memory := by
  have hend : Holds (fun w => Region.Stored r w.disk)
      (fun i _ call => CallOk k ns r sys.threads.length (spawned labels) i call) out := by
    refine run_keeps_at ?_ ?_ (fun _ _ _ _ _ _ _ _ _ _ _ _ _ hm => hm) ⟨hstored, ?_⟩ hrun
    · intro j q hq w _
      refine ⟨leaves_init q (havoids q (List.mem_of_getElem? hq)), fun j' q' hj hq' hread => ?_⟩
      obtain rfl : j = j' := by omega
      obtain rfl := Option.some.inj (hq.symm.trans hq')
      exact reading_init hread
    · intro e he i w call w' call' hact hstored hok
      obtain rfl := hdone e he
      obtain ⟨hstored', hleaves⟩ := leaves_step hh hstored hok.1 hact
      refine ⟨hstored', hleaves, fun j q hj hq hread => ?_⟩
      exact reading_step hh hread.opcode hstored (hok.2 j q hj hq hread) hact
    · intro i call hi
      obtain ⟨todo, memory, command, mapping⟩ := call
      obtain rfl : todo = [] := hidle _ (List.mem_of_getElem? hi)
      refine ⟨.idle, fun j q hj _ _ => ?_⟩
      have hlt := (List.getElem?_eq_some_iff.mp hi).1
      omega
  exact reading_done ((hend.threads _ call hcall).2 j q rfl hq hread) htodo

/-- A write on its own, and then any interleaving of ioctls that write elsewhere and of
which none fails: a read that has returned holds what was written, byte for byte, where
its blocks are among those of the write. -/
theorem written_read_back (k : Kernel) (ns : NvmeNs)
    (other : NvmeRwCommand → (Nat → Byte) → Nat → Byte) (hh : k.host = .little)
    (sys out : System (World Byte) (InFlight Byte)) (hidle : Idle sys) (written : Ioctl Byte)
    (hwrite : Submits nvmeCmdWrite written) (labels : List (Label (Ioctl Byte) (Outcome Byte)))
    (hdone : ∀ e ∈ inputs labels, e = Outcome.done)
    (havoids : ∀ q ∈ spawned labels, q.cmd.val = NVPKT_IOCTL_SUBMIT_IO →
      Avoids ns (writtenRegion ns written) q.io)
    (hrun : (driver k ns other).run sys
      (requestAlone sys.threads.length written ++ labels) = some out) (j : Nat) (q : Ioctl Byte)
    (hq : (spawned labels)[j]? = some q) (hread : Submits nvmeCmdRead q) (call : InFlight Byte)
    (hcall : out.threads[sys.threads.length + 1 + j]? = some call) (htodo : call.todo = []) :
    ReadFrom ns (writtenRegion ns written) q call.memory := by
  obtain ⟨mid, hmid, hquiet, hlen, -, hstored⟩ := writeAlone_run ns other hh hidle hwrite
  rw [run_append hmid] at hrun
  rw [← hlen] at hcall
  exact stored_read hh hquiet hdone hstored havoids hrun hq hread hcall htodo

/-- A request of two blocks at `slba` for which every kernel call succeeds. -/
def twoBlocks (opcode slba : Nat) (memory : Nat → Nat) : Ioctl Nat :=
  { cmd := word 32 NVPKT_IOCTL_SUBMIT_IO, npr := ⟨word 64 0, word 64 0, word 64 0⟩
    io := { readAt (word 64 slba) (word 16 1) (word 16 0) with opcode := word 8 opcode }
    copyFromUser := 0
    calls := fun _ => succeedingCalls (onePage 1344), submit := succeedingSubmit
    memory := memory }

/-- A read of the second block and the one behind it, while another caller writes
elsewhere. -/
def readAndWrite : List (Label (Ioctl Nat) (Outcome Nat)) :=
  .spawn (twoBlocks 2 5 fun _ => 0) :: .spawn (twoBlocks 1 8 fun _ => 1) ::
    (List.replicate 5 [.act 1 .done, .act 2 .done]).flatten

theorem written_read_back_block : ∃ out call,
    (driver x86_64 ⟨1, 9⟩ fun _ disk => disk).run freshSystem
      (requestAlone 0 (twoBlocks 1 4 fun a => a % 256) ++ readAndWrite) = some out ∧
    out.threads[1]? = some call ∧
    ReadFrom ⟨1, 9⟩ (writtenRegion ⟨1, 9⟩ (twoBlocks 1 4 fun a => a % 256))
      (twoBlocks 2 5 fun _ => 0) call.memory := by
  have hrun : (driver x86_64 ⟨1, 9⟩ fun _ disk => disk).run freshSystem
      (requestAlone freshSystem.threads.length (twoBlocks 1 4 fun a => a % 256) ++ readAndWrite) =
        some _ := rfl
  refine ⟨_, _, hrun, rfl, ?_⟩
  refine written_read_back x86_64 ⟨1, 9⟩ (fun _ disk => disk) rfl freshSystem _ freshSystem_idle
    (twoBlocks 1 4 fun a => a % 256) ⟨rfl, rfl, rfl, ⟨rfl, rfl, rfl⟩⟩ readAndWrite
    (by simp [readAndWrite, inputs]) ?_ hrun 0 (twoBlocks 2 5 fun _ => 0) rfl
    ⟨rfl, rfl, rfl, ⟨rfl, rfl, rfl⟩⟩ _ rfl rfl
  intro q hq _
  have hboth : spawned readAndWrite = [twoBlocks 2 5 fun _ => 0, twoBlocks 1 8 fun _ => 1] := rfl
  rw [hboth, List.mem_pair] at hq
  rcases hq with rfl | rfl
  · exact .inl (by decide)
  · exact .inr ⟨rfl, .inr (by decide)⟩

end Nvpkt.Guarantees.ReadBack
