import Nvpkt.Guarantees.BuiltPackets
import Nvpkt.Guarantees.ReadBack
import Nvpkt.Source.NativeTools

/-!
# From `store-pkt` to the wire

When `store-pkt` has run, every frame that a later `xmit-pkt` gets sent, among any other
ioctls that leave the two blocks alone, is the stored packet up to the bytes that the
driver does not read: a receiver finds the headers `store-pkt` built, with the lengths of
a packet of 1024 bytes (`stored_packet_sent`).
-/

set_option autoImplicit false

namespace Nvpkt.Guarantees.StoreThenXmit
open Nvpkt.Library.FixedWidth Nvpkt.Library.Interleaving Nvpkt.Library.OnesComplement
open Nvpkt.Source.KernelObjects Nvpkt.Source.TxpktOne Nvpkt.Source.SubmitIo
open Nvpkt.Source.NvpktIoctl Nvpkt.Source.BuildPkt Nvpkt.Source.NativeTools
open Nvpkt.Guarantees.TxpktPaths (succeedingCalls)
open Nvpkt.Guarantees.TxpktPayload Nvpkt.Guarantees.FrameContent Nvpkt.Guarantees.PacketStore
open Nvpkt.Guarantees.DriverRefines Nvpkt.Guarantees.StoredPackets Nvpkt.Guarantees.ReadBack
open Nvpkt.Guarantees.BuiltPackets (parse)

variable {Byte : Type}

/-- `store-pkt` gets to the device. -/
theorem storePkt_submits (addr : Fin (2 ^ 64)) {answers : Ioctl Byte}
    (hok : Reaches answers.submit) : Submits nvmeCmdWrite (storePkt addr answers) :=
  ⟨rfl, rfl, rfl, hok⟩

section Frames
variable {k : Kernel} {ns : NvmeNs} {addr : Fin (2 ^ 64)} {answers : Ioctl Nat} {buf : Mapping}

/-- Of a packet of `xmit-pkt` all is read that the bio covers. -/
theorem xmit_intact (hinfo : k.sharedInfo ≤ 982) {npr : NvpktXmit} (hlen : npr.len.val = 1024) :
    intact k ns npr = 1024 - k.sharedInfo := by
  have hfit : npr.len.val >>> ns.lbaShift < 2 ^ 16 :=
    Nat.lt_of_le_of_lt (Nat.shiftRight_le _ _) (by omega)
  have hmore := transferBytes_gt k ns npr hfit
  rw [intact, hlen]
  omega

/-- The two blocks are long enough for it. -/
theorem region_size (addr : Fin (2 ^ 64)) (answers : Ioctl Nat) (hlow : 9 ≤ ns.lbaShift)
    (hhigh : ns.lbaShift ≤ 12) : 1024 ≤ (writtenRegion ns (storePkt addr answers)).size := by
  have hpow : 2 ^ 9 ≤ 2 ^ ns.lbaShift := Nat.pow_le_pow_right (by decide) hlow
  have hpow' : 2 ^ ns.lbaShift ≤ 2 ^ 12 := Nat.pow_le_pow_right (by decide) hhigh
  have hblocks : (storePktIo addr).nblocks.val = 1 := rfl
  have hsize : submitLength ns (storePktIo addr) = 2 * 2 ^ ns.lbaShift := by
    rw [submitLength, hblocks, Nat.shiftLeft_eq]
    exact wrap_of_lt (by omega)
  have hregion : (writtenRegion ns (storePkt addr answers)).size =
      submitLength ns (storePktIo addr) := rfl
  omega

theorem parse_stored (rest : List Nat) :
    ∃ h, parse (storedHeaders ++ rest) = some h ∧ h.ipLen = 1010 ∧ h.udpLen = 990 := by
  have hrange : List.range 10 = [0, 1, 2, 3, 4, 5, 6, 7, 8, 9] := rfl
  simp [parse, BuiltPackets.wordAt, BuiltPackets.byteAt, storedHeaders, storedEtherHeader, ipHeader,
    udpHeader, htons, u16, Library.ByteOrder.bytes, hrange]

/-- A frame sent from the region has the packet's headers. -/
theorem frame_parses {frame : List Nat} {n : Nat} (hn : 42 ≤ n)
    (htake : frame.take n = (storePktBuf buf).bytes.take n) :
    ∃ h, parse frame = some h ∧ h.ipLen = 1010 ∧ h.udpLen = 990 := by
  have hheaders : storedHeaders.length = 42 := rfl
  have hfront : frame.take 42 = storedHeaders := by
    have hmin := congrArg (List.take 42) htake
    rw [List.take_take, List.take_take, Nat.min_eq_left hn] at hmin
    rw [hmin, storePktBuf, List.take_left' hheaders]
  rw [← List.take_append_drop 42 frame, hfront]
  exact parse_stored _

theorem sentFrom_take (hinfo : k.sharedInfo ≤ 982) (hlow : 9 ≤ ns.lbaShift)
    (hhigh : ns.lbaShift ≤ 12) {argv : List (List Char)} {given : Ioctl Nat}
    (hbuf : ∀ i < 4096, (storePktBuf buf).bytes[i]? = some (answers.memory (addr.val + i)))
    {frame : List Nat}
    (hsent : SentFrom k ns (writtenRegion ns (storePkt addr answers)) (xmitPkt argv given).npr
      frame) :
    frame.length = 1024 ∧
      frame.take (1024 - k.sharedInfo) = (storePktBuf buf).bytes.take (1024 - k.sharedInfo) := by
  obtain ⟨hlen, hbytes⟩ := hsent
  have hnpr : (xmitPkt argv given).npr.len.val = 1024 := rfl
  have hslba : (xmitPkt argv given).npr.slba.val = 1 := rfl
  have hbase : (writtenRegion ns (storePkt addr answers)).base = 1 <<< ns.lbaShift := rfl
  have hsize := region_size addr answers hlow hhigh
  rw [xmit_intact hinfo hnpr, hslba] at hbytes
  refine ⟨hlen.trans hnpr, ?_⟩
  apply List.ext_getElem?
  intro i
  rw [List.getElem?_take, List.getElem?_take]
  split
  · rw [hbytes i (by assumption) ⟨by omega, by omega⟩, hbuf i (by omega), hbase,
      Nat.add_sub_cancel_left]
    rfl
  · rfl

end Frames

/-- `store-pkt`, and then any interleaving of ioctls in which only `xmit-pkt` transmits and
nothing writes to the two blocks: every frame sent has 1024 bytes, begins with the stored
packet, and parses as it. -/
theorem stored_packet_sent (k : Kernel) (ns : NvmeNs)
    (other : NvmeRwCommand → (Nat → Nat) → Nat → Nat) (hh : k.host = .little)
    (hinfo : k.sharedInfo ≤ 982) (hlow : 9 ≤ ns.lbaShift) (hhigh : ns.lbaShift ≤ 12)
    (sys out : System (World Nat) (InFlight Nat)) (hidle : Idle sys) (buf : Mapping)
    (addr : Fin (2 ^ 64)) (answers : Ioctl Nat) (hok : Reaches answers.submit)
    (hbuf : ∀ i < 4096, (storePktBuf buf).bytes[i]? = some (answers.memory (addr.val + i)))
    (labels : List (Label (Ioctl Nat) (Outcome Nat)))
    (hxmit : ∀ q ∈ spawned labels, Transmits q → Sane k q ∧ ∃ argv given, q = xmitPkt argv given)
    (hdone : ∀ e ∈ inputs labels, e = Outcome.done)
    (havoids : ∀ q ∈ spawned labels, q.cmd.val = NVPKT_IOCTL_SUBMIT_IO →
      Avoids ns (writtenRegion ns (storePkt addr answers)) q.io)
    (hrun : (driver k ns other).run sys
      (requestAlone sys.threads.length (storePkt addr answers) ++ labels) = some out) :
    ∃ sent, out.shared.wire = sys.shared.wire ++ sent ∧ ∀ frame ∈ sent, frame.length = 1024 ∧
      frame.take (1024 - k.sharedInfo) = (storePktBuf buf).bytes.take (1024 - k.sharedInfo) ∧
      ∃ h, parse frame = some h ∧ h.ipLen = 1010 ∧ h.udpLen = 990 := by
  obtain ⟨mid, hmid, hquiet, -, hwire, hstored⟩ :=
    writeAlone_run ns other hh hidle (storePkt_submits addr hok)
  rw [run_append hmid] at hrun
  rw [← hwire]
  refine frames_sent hh hquiet (fun q hq htransmits => (hxmit q hq htransmits).1) hdone hstored
    havoids (fun q hq htransmits frame hfrom => ?_) hrun
  obtain ⟨-, argv, given, rfl⟩ := hxmit q hq htransmits
  obtain ⟨hlen, htake⟩ := sentFrom_take hinfo hlow hhigh hbuf hfrom
  exact ⟨hlen, htake, frame_parses (by omega) htake⟩

/-- A buffer of zeros before its headers are written. -/
def zeroBuf : Mapping := ⟨List.replicate 4096 0, List.length_replicate⟩

/-- Everything succeeds; the caller's memory begins with the buffer. -/
def storeAnswers : Ioctl Nat :=
  { cmd := word 32 0, npr := ⟨word 64 0, word 64 0, word 64 0⟩
    io := readAt (word 64 0) (word 16 0) (word 16 0), copyFromUser := 0
    calls := fun _ => succeedingCalls (onePage 1344), submit := succeedingSubmit
    memory := fun a => (storePktBuf zeroBuf).bytes.getD a 0 }

/-- `xmit-pkt` without an argument. -/
def xmitOnce : Ioctl Nat := xmitPkt [] storeAnswers

theorem xmitOnce_sane : Sane x86_64 xmitOnce where
  long := by decide
  pages := by decide
  alloc _ sgl h := by
    obtain rfl := Option.some.inj h
    exact ⟨by decide, by decide, by decide, by decide⟩
  full _ _ _ := rfl

def xmitAlone : List (Label (Ioctl Nat) (Outcome Nat)) :=
  .spawn xmitOnce :: List.replicate 12 (.act 1 .done)

theorem stored_packet_sent_once : ∃ out sent,
    (driver x86_64 ⟨1, 9⟩ fun _ disk => disk).run freshSystem
      (requestAlone 0 (storePkt 0 storeAnswers) ++ xmitAlone) = some out ∧
    out.shared.wire = freshSystem.shared.wire ++ sent ∧ sent.length = 1 ∧
    ∀ frame ∈ sent, frame.length = 1024 ∧
      frame.take (1024 - x86_64.sharedInfo) =
        (storePktBuf zeroBuf).bytes.take (1024 - x86_64.sharedInfo) ∧
      ∃ h, parse frame = some h ∧ h.ipLen = 1010 ∧ h.udpLen = 990 := by
  obtain ⟨sent, hwire, hframes⟩ := stored_packet_sent x86_64 ⟨1, 9⟩ (fun _ disk => disk) rfl
    (by decide) (by decide) (by decide) freshSystem _ freshSystem_idle zeroBuf 0 storeAnswers
    ⟨rfl, rfl, rfl⟩
    (by
      intro i hi
      have hlen := (storePktBuf zeroBuf).length_eq
      have hmem : storeAnswers.memory ((0 : Fin (2 ^ 64)).val + i) =
          (storePktBuf zeroBuf).bytes.getD i 0 := congrArg storeAnswers.memory (Nat.zero_add i)
      rw [hmem, List.getD_eq_getElem?_getD, List.getElem?_eq_getElem (by omega), Option.getD_some])
    xmitAlone
    (by
      intro q hq _
      have hone : spawned xmitAlone = [xmitOnce] := rfl
      rw [hone] at hq
      obtain rfl := List.mem_singleton.mp hq
      exact ⟨xmitOnce_sane, [], storeAnswers, rfl⟩)
    (by simp [xmitAlone, inputs])
    (by
      intro q hq hcmd
      have hone : spawned xmitAlone = [xmitOnce] := rfl
      rw [hone] at hq
      obtain rfl := List.mem_singleton.mp hq
      exact absurd hcmd (by decide))
    rfl
  refine ⟨_, sent, rfl, hwire, ?_, hframes⟩
  have hlen := congrArg List.length hwire
  exact hlen.symm

end Nvpkt.Guarantees.StoreThenXmit
