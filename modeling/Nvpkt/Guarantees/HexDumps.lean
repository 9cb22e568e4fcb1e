import Nvpkt.Guarantees.RecvLoop
import Nvpkt.Source.HexDump

/-!
# What the dumps say

A dump can be read back: behind its first line, the digits in pairs are the bytes that
were to be printed, and the digits of each byte stand where its number says
(`hexdump_exact`). So `dump-nvme` prints the blocks it is asked for exactly when their
bytes can be counted by an `int` (`dump_complete_iff`), and `recv-to-pram` prints what has
arrived, packet by packet (`recv_prints_arrivals`).
-/

set_option autoImplicit false

namespace Nvpkt.Guarantees.HexDumps
open Nvpkt.Library.FixedWidth Nvpkt.Library.HexText
open Nvpkt.Source.HexDump Nvpkt.Source.Netmap Nvpkt.Source.RecvToPram
open Nvpkt.Guarantees.RecvLoop

/-- The bytes that a dump shows. -/
def readDump (text : Text) : Option (List Nat) :=
  if header.isPrefixOf text then readHex (digitsOf (text.drop header.length)) else none

/-- Where the digits of byte `n` stand. -/
def position (n : Nat) : Nat := header.length + 2 * n + n / 2 + n / 32

section Dump
variable {ending : Text} {p : Nat → Nat} {n : Nat}

theorem blanks_blank (n : Nat) : ∀ c ∈ blanks n, digitValue c = none := by
  intro c hc
  have hchar : c = ' ' ∨ c = '\n' := by
    unfold blanks at hc
    rcases List.mem_append.mp hc with h | h
    · split at h
      · exact .inl (List.mem_singleton.mp h)
      · exact absurd h List.not_mem_nil
    · split at h
      · exact .inr (List.mem_singleton.mp h)
      · exact absurd h List.not_mem_nil
  rcases hchar with rfl | rfl <;> decide

theorem newlines_blank (n : Nat) : ∀ c ∈ List.replicate n '\n', digitValue c = none := by
  intro c hc
  rw [List.eq_of_mem_replicate hc]
  rfl

theorem length_blanks (n : Nat) :
    (blanks n).length = (n + 1) / 2 - n / 2 + ((n + 1) / 32 - n / 32) := by
  unfold blanks
  rw [List.length_append]
  split <;> split <;> simp only [List.length_nil, List.length_singleton] <;> omega

theorem length_body (hp : ∀ i < n, p i < 256) :
    ((List.range n).flatMap fun i => hex02 (p i) ++ blanks i).length = 2 * n + n / 2 + n / 32 := by
  induction n with
  | zero => rfl
  | succ n ih =>
    rw [List.range_succ, List.flatMap_append, List.length_append,
      ih (fun i hi => hp i (by omega))]
    simp only [List.flatMap_cons, List.flatMap_nil, List.append_nil, List.length_append,
      length_hex02 (hp n (by omega)), length_blanks]
    omega

theorem hexdump_read (hending : ∀ c ∈ ending, digitValue c = none) (len : Int)
    (hp : ∀ i < len.toNat, p i < 256) :
    readDump (hexdump ending p len) = some ((List.range len.toNat).map p) := by
  have hfront : header.isPrefixOf (hexdump ending p len) = true := by
    rw [List.isPrefixOf_iff_prefix, hexdump, List.append_assoc]
    exact List.prefix_append _ _
  rw [readDump, if_pos hfront, hexdump, List.append_assoc, List.drop_left, digitsOf_append,
    digitsOf_blank hending, List.append_nil]
  exact readHex_digitsOf (fun i hi => hp i (List.mem_range.mp hi)) blanks_blank

/-- For every buffer, every length and either ending: the dump reads back as the bytes, and
byte `n` is printed at its position: 32 bytes to a line, in groups of two. -/
theorem hexdump_exact (ending : Text) (p : Nat → Nat) (len : Int)
    (hending : ∀ c ∈ ending, digitValue c = none) (hp : ∀ i < len.toNat, p i < 256) :
    readDump (hexdump ending p len) = some ((List.range len.toNat).map p) ∧
    ∀ n < len.toNat, ∃ before after, hexdump ending p len = before ++ hex02 (p n) ++ after ∧
      before.length = position n := by
  refine ⟨hexdump_read hending len hp, fun n hn => ?_⟩
  obtain ⟨m, hm⟩ := Nat.exists_eq_add_of_lt hn
  have hsplit : List.range len.toNat = List.range n ++ n :: (List.range m).map (n + 1 + ·) := by
    rw [hm, Nat.add_right_comm, List.range_add, List.range_succ, List.append_assoc]
    rfl
  rw [hexdump, hsplit, List.flatMap_append, List.flatMap_cons]
  refine ⟨header ++ (List.range n).flatMap fun i => hex02 (p i) ++ blanks i,
    blanks n ++ (((List.range m).map (n + 1 + ·)).flatMap fun i => hex02 (p i) ++ blanks i) ++
      ending, ?_, ?_⟩
  · simp only [List.append_assoc]
  · rw [List.length_append, length_body (fun i hi => hp i (by omega)), position]
    omega

end Dump

/-- The first 40 bytes of a buffer. -/
theorem hexdump_exact_two_lines :
    readDump (hexdump ['\n'] (fun i => i % 256) 40) =
      some ((List.range (40 : Int).toNat).map fun i => i % 256) ∧
    ∀ n < (40 : Int).toNat, ∃ before after,
      hexdump ['\n'] (fun i => i % 256) 40 = before ++ hex02 (n % 256) ++ after ∧
        before.length = position n :=
  hexdump_exact ['\n'] (fun i => i % 256) 40 (newlines_blank 1) fun i _ => Nat.mod_lt i (by decide)

/-! ## dump-nvme -/

section DumpNvme
variable {nblocks : Nat}

theorem dumpLen_of_lt (h : nblocks < 2 ^ 22) : dumpLen nblocks = (nblocks * 512 : Nat) := by
  rw [dumpLen, wrap_of_lt (by omega), toSigned, wrap_of_lt (by omega), if_pos (by omega)]

/-- No `int` counts more bytes. -/
theorem dumpLen_lt (nblocks : Nat) : dumpLen nblocks < 2 ^ 31 := by
  have hmod : wrap 32 (wrap 64 (nblocks * 512)) < 2 ^ 32 := Nat.mod_lt _ (by decide)
  rw [dumpLen, toSigned]
  split <;> omega

/-- `dump-nvme` returns 0 when it has opened the device and got its buffer, also where the
read fails. The blocks are all printed, if they are read, exactly when they are fewer than
2^22, so that an `int` can count their bytes. -/
theorem dump_complete_iff (unvme : Unvme) (pci : Text) (slba nblocks : Nat) (disk : Nat → Nat)
    (hopens : unvme.opens = true) (hallocs : unvme.allocs = true)
    (hread : ∀ i < nblocks * 512, unvme.buf i = disk (slba * 512 + i)) :
    (dumpNvme unvme pci nblocks).1 = 0 ∧
    (readDump (dumpNvme unvme pci nblocks).2 =
        some ((List.range (nblocks * 512)).map fun i => disk (slba * 512 + i)) ↔
      nblocks < 2 ^ 22) := by
  have hmain : dumpNvme unvme pci nblocks = (0, hexdump ['\n'] unvme.buf (dumpLen nblocks)) := by
    rw [dumpNvme, hopens, hallocs]
    rfl
  have hdump : readDump (hexdump ['\n'] unvme.buf (dumpLen nblocks)) =
      some ((List.range (dumpLen nblocks).toNat).map unvme.buf) :=
    hexdump_read (newlines_blank 1) _ fun i _ => unvme.buf_lt i
  rw [hmain, hdump]
  refine ⟨rfl, fun hall => ?_, fun hfew => ?_⟩
  · have hcount := congrArg List.length (Option.some.inj hall)
    rw [List.length_map, List.length_map, List.length_range, List.length_range] at hcount
    have hlt := dumpLen_lt nblocks
    omega
  · rw [dumpLen_of_lt hfew, Int.toNat_natCast]
    exact congrArg some (List.map_congr_left fun i hi => hread i (List.mem_range.mp hi))

end DumpNvme

/-- A device whose blocks are read from block 3 on. -/
def thirdBlock : Unvme :=
  { opens := true, allocs := true, buf := fun i => (1536 + i) % 256
    buf_lt := fun _ => Nat.mod_lt _ (by decide) }

theorem dump_complete_two : (dumpNvme thirdBlock [] 2).1 = 0 ∧
    (readDump (dumpNvme thirdBlock [] 2).2 =
        some ((List.range (2 * 512)).map fun i => (3 * 512 + i) % 256) ↔ 2 < 2 ^ 22) :=
  dump_complete_iff thirdBlock [] 3 2 (fun i => i % 256) rfl rfl fun _ _ => rfl

/-! ## recv-to-pram -/

/-- What is shown of a packet: at most its first 128 bytes. -/
def shownBytes (s : Packet) : List Nat := (List.range (min s.len 128)).map s.bytes

/-- The dumps that the passes over a ring have printed. -/
def printed (x : RxRing Packet) : List Text :=
  x.passes.map fun ring => packetDump (ring.slot ring.head)

theorem packetDump_read (s : Packet) : readDump (packetDump s) = some (shownBytes s) := by
  have hcount : (if 128 < s.len then 128 else s.len : Int).toNat = min s.len 128 := by
    split <;> omega
  have hending : ∀ c ∈ (['\n', '\n'] : Text), digitValue c = none := newlines_blank 2
  rw [packetDump, hexdump_read hending _ (fun i _ => s.bytes_lt i), hcount, shownBytes]

/-- The dumps show the packets that the passes have read. -/
theorem printed_read (x : RxRing Packet) : (printed x).map readDump =
    (x.passes.map taken).map fun a => some (shownBytes a.2) := by
  simp only [printed, List.map_map]
  exact List.map_congr_left fun ring _ => packetDump_read (ring.slot ring.head)

/-- For every port whose rings enter in step, and any arrivals over any number of turns in
which no system call fails: the loop goes on, and the dumps printed for a ring read back,
in order and without a gap, as the beginnings of the packets that waited in it and of those
that arrived and found a slot. Where a system call fails, or before the first turn, they are
the first of these. -/
theorem recv_prints_arrivals (desc : NmDesc Packet) (fuel : Nat) (turns : List (Turn Packet))
    (hentry : ∀ ri, desc.Visits ri →
      (desc.rxring ri).Synced ∧ (desc.rxring ri).numSlots ≤ fuel) :
    ∃ r, recvLoop fuel desc turns (fun ri => .enter (desc.rxring ri)) = some r ∧
      (r.outcome = .receiving ↔ ∀ turn ∈ turns, turn.Served) ∧
      ∀ ri, desc.Visits ri →
        let arrived := (desc.rxring ri).pending.map Prod.snd ++
          received (desc.rxring ri).numSlots ri (desc.rxring ri).kernelFree turns
        (printed (r.rings ri)).map readDump <+: arrived.map (fun s => some (shownBytes s)) ∧
        (turns ≠ [] → (∀ turn ∈ turns, turn.Served) →
          (printed (r.rings ri)).map readDump = arrived.map fun s => some (shownBytes s)) := by
  obtain ⟨r, hrun, hout, hhistory⟩ := recvLoop_history desc fuel turns hentry
  refine ⟨r, hrun, hout, fun ri hri => ?_⟩
  obtain ⟨haccounted, hpublished, hdrained⟩ := hhistory ri hri
  have harrived : (r.rings ri).published.map (fun a => some (shownBytes a.2)) =
      ((desc.rxring ri).pending.map Prod.snd ++
        received (desc.rxring ri).numSlots ri (desc.rxring ri).kernelFree turns).map
          fun s => some (shownBytes s) := by
    have hshown := congrArg (List.map fun s => some (shownBytes s)) hpublished
    rwa [List.map_map] at hshown
  dsimp only
  rw [printed_read, ← harrived]
  constructor
  · rw [haccounted.published_eq, List.map_append]
    exact List.prefix_append _ _
  · intro hturns hserved
    rw [drained_exact haccounted (hdrained hturns hserved)]

/-- A packet of 200 bytes. -/
def longPacket : Packet :=
  { len := 200, bytes := fun i => i % 256, bytes_lt := fun _ => Nat.mod_lt _ (by decide) }

/-- A ring of four slots, entered with one packet waiting. -/
def packetWaiting : NetmapRing Packet :=
  { numSlots := 4, head := 2, cur := 2, tail := 3, slot := fun _ => longPacket }

theorem packetWaiting_synced : packetWaiting.Synced := ⟨by decide, by decide, rfl⟩

def oneRing : NmDesc Packet where
  firstRxRing := 0
  lastRxRing := 0
  rxring := fun _ => packetWaiting
  last_lt := by decide
  slots_lt := fun _ => by decide

/-- A packet arrives in the poll. -/
def oneArrival : Turn Packet :=
  { syncRet := 0, syncArrivals := fun _ => [], pollRet := 1, pollArrivals := fun _ => [longPacket] }

theorem recv_prints_waiting :
    ∃ r, recvLoop 4 oneRing [oneArrival] (fun ri => .enter (oneRing.rxring ri)) = some r ∧
      (r.outcome = .receiving ↔ ∀ turn ∈ [oneArrival], turn.Served) ∧
      ∀ ri, oneRing.Visits ri →
        let arrived := (oneRing.rxring ri).pending.map Prod.snd ++
          received (oneRing.rxring ri).numSlots ri (oneRing.rxring ri).kernelFree [oneArrival]
        (printed (r.rings ri)).map readDump <+: arrived.map (fun s => some (shownBytes s)) ∧
        ([oneArrival] ≠ [] → (∀ turn ∈ [oneArrival], turn.Served) →
          (printed (r.rings ri)).map readDump = arrived.map fun s => some (shownBytes s)) :=
  recv_prints_arrivals oneRing 4 [oneArrival]
    fun _ _ => ⟨packetWaiting_synced, Nat.le_refl 4⟩

end Nvpkt.Guarantees.HexDumps
