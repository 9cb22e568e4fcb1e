import Nvpkt.Library.OnesComplement
import Nvpkt.Source.BuildPkt

/-!
# What a receiver reads of a built packet

The slot carries the first `pktlen` bytes of the mapping, all lengths in sixteen bits. The
ones a receiver finds in the headers are those of the frame exactly from 42 to 4096 bytes
(`lengthsAgree_iff`). `ip_sum` stays 0, so the IPv4 header verifies for one length only,
which the mapping does not have (`checksumVerifies_iff`).
-/

set_option autoImplicit false

namespace Nvpkt.Guarantees.BuiltPackets
open Nvpkt.Library.ByteOrder Nvpkt.Library.OnesComplement
open Nvpkt.Source.BuildPkt Nvpkt.Source.XmitFromPram Nvpkt.Source.Netmap

/-! ## The receiver -/

def byteAt (frame : List Nat) (i : Nat) : Nat := frame.getD i 0

/-- Sixteen bits in network byte order. -/
def wordAt (frame : List Nat) (i : Nat) : Nat := byteAt frame i * 256 + byteAt frame (i + 1)

/-- What the headers of a UDP packet say; `headerSum` is the sum over the IPv4 header. -/
structure Headers where
  ipLen : Nat
  udpLen : Nat
  headerSum : Nat

/-- The headers, if the frame has those of a UDP packet over IPv4. -/
def parse (frame : List Nat) : Option Headers :=
  let ihl := byteAt frame 14 % 16 * 4
  if 14 + ihl + 8 ≤ frame.length ∧ wordAt frame 12 = 0x0800 ∧ byteAt frame 14 / 16 = 4 ∧
      20 ≤ ihl ∧ byteAt frame 23 = 17 then
    some
      { ipLen := wordAt frame 16
        udpLen := wordAt frame (14 + ihl + 4)
        headerSum := onesSum 65535 ((List.range (ihl / 2)).map fun i => wordAt frame (14 + 2 * i)) }
  else none

/-- The frame in the slot parses, with lengths that are all those of `pktlen` bytes. -/
def LengthsAgree (pktlen : Int) (slotLen : Nat) (buf : Mapping) : Prop :=
  ∃ h, parse (buf.bytes.take slotLen) = some h ∧ (slotLen : Int) = pktlen ∧
    pktlen = 14 + h.ipLen ∧ pktlen = 34 + h.udpLen ∧ 42 ≤ slotLen ∧ slotLen ≤ buf.bytes.length

/-- The frame in the slot parses, and the IPv4 header adds up with its checksum. -/
def ChecksumVerifies (slotLen : Nat) (buf : Mapping) : Prop :=
  ∃ h, parse (buf.bytes.take slotLen) = some h ∧ h.headerSum = 0xffff

/-- A receiver takes the frame for the packet it was built as. -/
def ParsesBack (pktlen : Int) (slotLen : Nat) (buf : Mapping) : Prop :=
  LengthsAgree pktlen slotLen buf ∧ ChecksumVerifies slotLen buf

/-! ## The built packet -/

section Built
variable {buf : Mapping} {pktlen : Int} {slotLen : Nat}

theorem htons_word {v : Nat} (hv : v < 65536) : v / 256 % 256 * 256 + v % 256 = v := by
  omega

/-- The words of the IPv4 header add up to `0x6924` and `ip_len`. -/
theorem headerSum_eq_iff {len : Nat} (hlen : len < 65536) :
    onesSum 65535 [0x4510, len, 0, 0, 0x1011, 0, 0x0a00, 2, 0x0a00, 1] = 0xffff ↔
      len = 38619 := by
  rw [onesSum_eq_iff (by decide) (by simp; omega)]
  simp only [List.sum_cons, List.sum_nil]
  omega

theorem parse_headers (rest : List Nat) :
    parse (etherHeader ++ ipHeader pktlen ++ udpHeader pktlen ++ rest) = some
      { ipLen := u16 (pktlen - 14)
        udpLen := u16 (pktlen - 14 - 20)
        headerSum := onesSum 65535
          [0x4510, u16 (pktlen - 14), 0, 0, 0x1011, 0, 0x0a00, 2, 0x0a00, 1] } := by
  have hip := htons_word (u16_lt (pktlen - 14))
  have hudp := htons_word (u16_lt (pktlen - 14 - 20))
  have hrange : List.range 10 = [0, 1, 2, 3, 4, 5, 6, 7, 8, 9] := rfl
  simp [parse, wordAt, byteAt, etherHeader, ipHeader, udpHeader, htons, bytes, hip, hudp, hrange]

/-- The slot holds the three headers when it is long enough for them. -/
theorem parse_built (h : 42 ≤ slotLen) :
    parse ((buildPkt buf pktlen).bytes.take slotLen) = some
      { ipLen := u16 (pktlen - 14)
        udpLen := u16 (pktlen - 14 - 20)
        headerSum := onesSum 65535
          [0x4510, u16 (pktlen - 14), 0, 0, 0x1011, 0, 0x0a00, 2, 0x0a00, 1] } := by
  have hheaders : (etherHeader ++ ipHeader pktlen ++ udpHeader pktlen).length = 42 := rfl
  rw [buildPkt, List.take_append, List.take_of_length_le (by omega), parse_headers]

theorem parse_short (h : slotLen < 42) :
    parse ((buildPkt buf pktlen).bytes.take slotLen) = none := by
  unfold parse
  refine if_neg fun hparse => ?_
  have hlength := hparse.1
  have hihl := hparse.2.2.2.1
  rw [List.length_take] at hlength
  omega

theorem lengthsAgree_iff :
    LengthsAgree pktlen (u16 pktlen) (buildPkt buf pktlen) ↔ 42 ≤ pktlen ∧ pktlen ≤ 4096 := by
  have hmapping := (buildPkt buf pktlen).length_eq
  constructor
  · intro h
    obtain ⟨_, _, hslot, _, _, hlow, hhigh⟩ := h
    omega
  · intro h
    have hslot := u16_of_nonneg (n := pktlen) (by omega) (by omega)
    have hip := u16_of_nonneg (n := pktlen - 14) (by omega) (by omega)
    have hudp := u16_of_nonneg (n := pktlen - 14 - 20) (by omega) (by omega)
    refine ⟨_, parse_built (by omega), hslot, ?_, ?_, by omega, by omega⟩
    · dsimp only
      omega
    · dsimp only
      omega

theorem checksumVerifies_iff :
    ChecksumVerifies (u16 pktlen) (buildPkt buf pktlen) ↔ u16 pktlen = 38633 := by
  have hip : u16 (pktlen - 14) = 38619 ↔ u16 pktlen = 38633 := by
    unfold u16
    omega
  rw [← hip, ← headerSum_eq_iff (u16_lt _)]
  constructor
  · intro h
    obtain ⟨headers, hparse, hsum⟩ := h
    by_cases hlong : 42 ≤ u16 pktlen
    · rw [parse_built hlong] at hparse
      obtain rfl := Option.some.inj hparse
      exact hsum
    · rw [parse_short (by omega)] at hparse
      cases hparse
  · intro hsum
    have hlong := hip.mp ((headerSum_eq_iff (u16_lt _)).mp hsum)
    exact ⟨_, parse_built (by omega), hsum⟩

end Built

/-- For every packet length: the frame in the slot parses with lengths that agree exactly
when the headers fit into it and it into the mapping, and its IPv4 header verifies for one
length only, which none of these is. -/
theorem built_packet (buf : Mapping) (args : Args) (txring : NetmapRing Slot) :
    let slot := (queueSlot args txring).slot txring.cur
    let built := buildPkt buf args.pktlen
    (LengthsAgree args.pktlen slot.len built ↔ 42 ≤ args.pktlen ∧ args.pktlen ≤ 4096) ∧
      (ChecksumVerifies slot.len built ↔ slot.len = 38633) ∧
      ¬ ParsesBack args.pktlen slot.len built := by
  dsimp only
  rw [ParsesBack, queueSlot_len, lengthsAgree_iff, checksumVerifies_iff]
  refine ⟨Iff.rfl, Iff.rfl, fun hboth => ?_⟩
  have hslot := u16_of_nonneg (n := args.pktlen) (by omega) (by omega)
  omega

/-- The default packet of 512 bytes has no valid checksum; a packet of 9000 bytes does not
fit into the mapping. -/
theorem packets_rejected :
    let buf : Mapping := ⟨List.replicate 4096 0, List.length_replicate⟩
    ¬ ParsesBack 512 (u16 512) (buildPkt buf 512) ∧
      ¬ LengthsAgree 9000 (u16 9000) (buildPkt buf 9000) := by
  dsimp only
  rw [ParsesBack, checksumVerifies_iff, lengthsAgree_iff, lengthsAgree_iff]
  decide

end Nvpkt.Guarantees.BuiltPackets
