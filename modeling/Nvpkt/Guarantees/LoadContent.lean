import Mathlib.Data.Nat.ModEq
import Nvpkt.Guarantees.LoadRing

/-!
# What is sent for a packet of `load-and-xmit`

Every slot points at the one buffer, which the next read overwrites and which is freed
behind the loops. `Fetch` lists the moments at which a queued slot may be fetched with
what the buffer holds then. The bytes sent are those of the packet's own read exactly
when a block fills the 1024 bytes, no packet is pending when another block is read into
the buffer, and none when it is freed (`content_stable_iff`).
-/

set_option autoImplicit false

namespace Nvpkt.Guarantees.LoadContent
open Nvpkt.Library.FixedWidth
open Nvpkt.Source.Netmap
open Nvpkt.Source.LoadAndXmit
open Nvpkt.Guarantees.LoadRing

abbrev Byte := Fin 256

/-- The buffer after reads of these blocks, of `size` bytes each. -/
def bufferAfter (size : Nat) (disk initial : Nat → Byte) (reads : List Nat) : Nat → Byte :=
  reads.foldl (fun buf block i => if i < size then disk (block * size + i) else buf i) initial

/-- Slot of packet `k`, as the loop leaves it, sends 1024 bytes of the shared buffer. -/
def PointsAtBuf (args : Args) (s : State) (k : Nat) : Prop :=
  ∃ q, s.queued[k]? = some q ∧
    q.after.slot q.before.cur = { len := 1024, flags := args.nsIndirect, ptr := args.buf }

/-- What a fetch of packet `k` may find in the buffer. The kernel returns slots in
order, so the packets pending after a sync are the last `kernelFree` ones queued. -/
inductive Fetch (args : Args) (s : State) (size : Nat) (disk initial freed : Nat → Byte) :
    Nat → (Nat → Byte) → Prop
  /-- In the packet's own sync or before the next read. -/
  | own {k : Nat} (hptr : PointsAtBuf args s k) (hk : k < s.synced.length) :
      Fetch args s size disk initial freed k
        (bufferAfter size disk initial (s.reads.take (k + 1)))
  /-- Still pending after sync `j`, once the following read is through. -/
  | later {k j : Nat} {txring : NetmapRing Slot} (hptr : PointsAtBuf args s k)
      (hj : s.synced[j]? = some txring) (hkj : k ≤ j) (hpending : j - k < txring.kernelFree)
      (hread : j + 1 < s.reads.length) :
      Fetch args s size disk initial freed k
        (bufferAfter size disk initial (s.reads.take (j + 2)))
  /-- Still pending after the last sync, when the buffer has been freed. -/
  | freed {k j : Nat} {txring : NetmapRing Slot} (hptr : PointsAtBuf args s k)
      (hj : s.synced[j]? = some txring) (hkj : k ≤ j) (hpending : j - k < txring.kernelFree)
      (hlast : j + 1 = s.synced.length) :
      Fetch args s size disk initial freed k freed

/-- Whatever the device holds, every byte fetched for packet `k` is one that the read of
its pass took from block `slba + (k mod nblocks)`. -/
def Stable (args : Args) (size : Nat) (s : State) : Prop :=
  ∀ disk initial freed k content, Fetch args s size disk initial freed k content →
    ∀ i < 1024, i < size ∧
      content i = disk (blockAt args (k % args.nblocks.toNat) * size + i)

/-! ## Blocks of a run -/

section Blocks
variable {args : Args} {answers : Nat → Nat → Answer} {r : NetmapRing Slot}

theorem blocks_eq_range (args : Args) :
    blocks args = (List.range (args.count.toNat * args.nblocks.toNat)).map fun k =>
      blockAt args (k % args.nblocks.toNat) := by
  unfold blocks
  induction args.count.toNat with
  | zero => simp
  | succ a ih =>
    rw [List.range_succ, List.flatMap_append, ih, Nat.succ_mul, List.range_add, List.map_append,
      List.map_map, List.flatMap_singleton]
    congr 1
    refine List.map_congr_left fun n hn => ?_
    rw [Function.comp_apply, Nat.mul_add_mod', Nat.mod_eq_of_lt (List.mem_range.mp hn)]

/-- What the state of a finished run has kept. -/
structure Log (args : Args) (s : State) : Prop where
  reads : s.reads <+: blocks args
  synced_le : s.synced.length ≤ s.queued.length
  queued_le : s.queued.length ≤ s.reads.length
  made : ∀ q ∈ s.queued, Queued.Made args q

theorem reads_prefix {done later : List Pass} (hall : passes args = done ++ later) :
    (done.map fun p => blockAt args p.2) <+: blocks args :=
  ⟨later.map fun p => blockAt args p.2, by rw [blocks_eq, hall, List.map_append]⟩

theorem live_log {done later : List Pass} {s : State} (h : Live args answers r done s)
    (hall : passes args = done ++ later) : Log args s := by
  have hqueued := h.length_queued
  have hreads : s.reads.length = done.length := by
    rw [h.reads, List.length_map]
  have hsynced := h.synced
  refine ⟨?_, by omega, by omega, h.made⟩
  rw [h.reads]
  exact reads_prefix hall

theorem xmitLoop_log (args : Args) (answers : Nat → Nat → Answer) (h : r.Synced) :
    Log args (xmitLoop args answers r).1 := by
  have hends := xmitLoop_ends args answers h
  generalize xmitLoop args answers r = result at hends
  cases hends with
  | finished hlive => exact live_log hlive (List.append_nil _).symm
  | @stopped done later p s _ hall hlive hfails =>
    have hlog := live_log hlive hall
    have hreads : s.reads ++ [blockAt args p.2] <+: blocks args := by
      rw [← List.singleton_append, ← List.append_assoc] at hall
      have hnext := reads_prefix hall
      rwa [List.map_append, List.map_singleton, ← hlive.reads] at hnext
    have hsynced := hlog.synced_le
    have hqueued := hlog.queued_le
    cases hfails with
    | readFailed _ => exact ⟨hlog.reads, hsynced, hqueued, hlog.made⟩
    | ringFull _ _ =>
      refine ⟨hreads, hsynced, ?_, hlog.made⟩
      simpa using Nat.le_succ_of_le hqueued
    | syncFailed _ hroom _ =>
      refine ⟨hreads, ?_, ?_, ?_⟩
      · simpa using Nat.le_succ_of_le hsynced
      · simpa using hqueued
      · exact List.forall_mem_append.mpr ⟨hlog.made,
          List.forall_mem_singleton.mpr ⟨hlive.ring, hroom, rfl⟩⟩

variable {s : State}

/-- The `k`-th read is of block `slba + (k mod nblocks)`. -/
theorem Log.read_eq (h : Log args s) {k : Nat} (hk : k < s.reads.length) :
    s.reads[k]? = some (blockAt args (k % args.nblocks.toNat)) := by
  have hle := h.reads.length_le
  have hget := h.reads.getElem hk
  rw [List.getElem?_eq_getElem hk, hget]
  simp only [blocks_eq_range, List.getElem_map, List.getElem_range]

theorem Log.nblocks_pos (h : Log args s) {k : Nat} (hk : k < s.reads.length) :
    0 < args.nblocks.toNat := by
  have hle := h.reads.length_le
  rw [blocks_eq_range, List.length_map, List.length_range] at hle
  exact Nat.pos_of_mul_pos_left (Nat.lt_of_lt_of_le (Nat.zero_lt_of_lt hk) hle)

/-- In the mode without `build_pkt` every queued slot points at the buffer. -/
theorem Log.pointsAtBuf (h : Log args s) (hmode : args.useBuildPkt = false) {k : Nat}
    (hk : k < s.queued.length) : PointsAtBuf args s k := by
  refine ⟨s.queued[k], List.getElem?_eq_getElem hk, ?_⟩
  rw [(h.made _ (List.getElem_mem hk)).after_eq]
  simp [queuePacket, NetmapRing.setSlot, hmode]

end Blocks

/-! ## The buffer -/

section Buffer
variable {args : Args} {size : Nat} {disk initial freed : Nat → Byte} {reads : List Nat}

/-- The buffer begins with the block read last. -/
theorem bufferAfter_last {m b i : Nat} (hb : reads[m]? = some b) (hi : i < size) :
    bufferAfter size disk initial (reads.take (m + 1)) i = disk (b * size + i) := by
  rw [List.take_add_one, hb, bufferAfter, List.foldl_append]
  exact if_pos hi

/-- Two passes in a row read different blocks, unless there is only one. -/
theorem blockAt_succ_ne (hn : args.nblocks ≠ 1) (hpos : 0 < args.nblocks.toNat) (j : Nat) :
    blockAt args ((j + 1) % args.nblocks.toNat) ≠ blockAt args (j % args.nblocks.toNat) := by
  have hlt := args.nblocks_lt
  have h1 := Nat.mod_lt j hpos
  have h2 := Nat.mod_lt (j + 1) hpos
  intro heq
  have hmod : (j + 1) % args.nblocks.toNat = j % args.nblocks.toNat := by
    simp only [blockAt, wrap] at heq
    omega
  have hone : 1 ≡ 0 [MOD args.nblocks.toNat] := Nat.ModEq.add_left_cancel' j hmod
  have hdvd := (Nat.modEq_zero_iff_dvd.mp hone)
  have := Nat.dvd_one.mp hdvd
  omega

end Buffer

/-! ## Stability -/

section Stability
variable {args : Args} {size : Nat} {s : State}

/-- A packet's own fetch needs a block of 1024 bytes. -/
theorem Stable.size_le (hst : Stable args size s) (h : Log args s)
    (hmode : args.useBuildPkt = false) (hne : s.synced ≠ []) : 1024 ≤ size := by
  have hk : 0 < s.synced.length := List.length_pos_iff.mpr hne
  have hptr := h.pointsAtBuf hmode (Nat.lt_of_lt_of_le hk h.synced_le)
  have hlast := (hst (fun _ => 0) (fun _ => 0) (fun _ => 0) 0 _ (.own hptr hk) 1023 (by decide)).1
  omega

/-- A packet that is pending when the next block is read shows the difference. -/
theorem Stable.nblocks_eq (hst : Stable args size s) (h : Log args s)
    (hmode : args.useBuildPkt = false) {j : Nat} {txring : NetmapRing Slot}
    (hj : s.synced[j]? = some txring) (hpending : 0 < txring.kernelFree)
    (hread : j + 1 < s.reads.length) : args.nblocks = 1 := by
  by_contra hn
  have hlt := (List.getElem?_eq_some_iff.mp hj).1
  have hsize := hst.size_le h hmode (List.ne_nil_of_length_pos (Nat.zero_lt_of_lt hlt))
  have hptr := h.pointsAtBuf hmode (Nat.lt_of_lt_of_le hlt h.synced_le)
  have hne := blockAt_succ_ne hn (h.nblocks_pos hread) j
  -- a device that holds 1 at the start of packet `j`'s block and 0 elsewhere
  have hsame := (hst
    (fun a => if a = blockAt args (j % args.nblocks.toNat) * size then 1 else 0) (fun _ => 0)
    (fun _ => 0) j _ (.later hptr hj (Nat.le_refl j) (by omega) hread) 0 (by decide)).2
  rw [bufferAfter_last (h.read_eq hread) (by omega)] at hsame
  simp only [Nat.add_zero, if_true] at hsame
  rw [if_neg (fun heq => hne (Nat.eq_of_mul_eq_mul_right (by omega) heq))] at hsame
  exact absurd hsame (by decide)

/-- Nothing is pending when the buffer is freed. -/
theorem Stable.not_last (hst : Stable args size s) (h : Log args s)
    (hmode : args.useBuildPkt = false) {j : Nat} {txring : NetmapRing Slot}
    (hj : s.synced[j]? = some txring) (hpending : 0 < txring.kernelFree) :
    j + 1 ≠ s.synced.length := by
  intro hlast
  have hlt := (List.getElem?_eq_some_iff.mp hj).1
  have hptr := h.pointsAtBuf hmode (Nat.lt_of_lt_of_le hlt h.synced_le)
  have hsame := (hst (fun _ => 0) (fun _ => 0) (fun _ => 1) j _
    (.freed hptr hj (Nat.le_refl j) (by omega) hlast) 0 (by decide)).2
  exact absurd hsame (by decide)

/-- The bytes of every packet are stable exactly when a block fills a packet, no
packet is pending when a different block is read, and none when the buffer is freed. -/
theorem content_stable_iff (answers : Nat → Nat → Answer) {r : NetmapRing Slot}
    (h : r.Synced) (hmode : args.useBuildPkt = false) :
    Stable args size (xmitLoop args answers r).1 ↔
      ((xmitLoop args answers r).1.synced ≠ [] → 1024 ≤ size) ∧
      ∀ j txring, (xmitLoop args answers r).1.synced[j]? = some txring → 0 < txring.kernelFree →
        (j + 1 < (xmitLoop args answers r).1.reads.length → args.nblocks = 1) ∧
          j + 1 ≠ (xmitLoop args answers r).1.synced.length := by
  have hlog := xmitLoop_log args answers h
  generalize (xmitLoop args answers r).1 = s at hlog ⊢
  constructor
  · intro hst
    exact ⟨hst.size_le hlog hmode, fun j txring hj hpending =>
      ⟨hst.nblocks_eq hlog hmode hj hpending, hst.not_last hlog hmode hj hpending⟩⟩
  · rintro ⟨hsize, hreturned⟩ disk initial freed k content hfetch i hi
    cases hfetch with
    | own hptr hk =>
      have hsize := hsize (List.ne_nil_of_length_pos (Nat.zero_lt_of_lt hk))
      have hread : k < s.reads.length :=
        Nat.lt_of_lt_of_le hk (Nat.le_trans hlog.synced_le hlog.queued_le)
      exact ⟨by omega, bufferAfter_last (hlog.read_eq hread) (by omega)⟩
    | later hptr hj hkj hpending hread =>
      have hlt := (List.getElem?_eq_some_iff.mp hj).1
      have hsize := hsize (List.ne_nil_of_length_pos (Nat.zero_lt_of_lt hlt))
      -- there is only one block, so the later read brings the same bytes
      have hone := (hreturned _ _ hj (Nat.zero_lt_of_lt hpending)).1 hread
      have hblock := hlog.read_eq hread
      rw [hone, show Int.toNat 1 = 1 from rfl, Nat.mod_one] at hblock ⊢
      exact ⟨by omega, bufferAfter_last hblock (by omega)⟩
    | freed hptr hj hkj hpending hlast =>
      exact absurd hlast (hreturned _ _ hj (Nat.zero_lt_of_lt hpending)).2

end Stability

/-- Every sync returns all that has been queued. -/
def promptKernel (_i _n : Nat) : Answer := { read := 0, sync := 0, released := 4 }

theorem twoFree_synced : twoFree.Synced := ⟨by decide, by decide, rfl⟩

/-- Blocks of 4096 bytes and a prompt kernel. -/
theorem content_stable_prompt :
    Stable fourPackets 4096 (xmitLoop fourPackets promptKernel twoFree).1 := by
  refine (content_stable_iff promptKernel twoFree_synced rfl).mpr
    ⟨fun _ => by decide, fun j txring hj hpending => ?_⟩
  have hall : ∀ txring ∈ (xmitLoop fourPackets promptKernel twoFree).1.synced,
      txring.kernelFree = 0 := by decide
  rw [hall txring (List.mem_of_getElem? hj)] at hpending
  exact absurd hpending (Nat.lt_irrefl 0)

/-- Blocks of 512 bytes leave half of each packet to the buffer's former contents; and
with blocks of 4096 bytes the first packet is pending when the second block is read. -/
theorem content_overwritten :
    ¬ Stable fourPackets 512 (xmitLoop fourPackets promptKernel twoFree).1 ∧
      ¬ Stable fourPackets 4096 (xmitLoop fourPackets slowKernel twoFree).1 := by
  constructor
  · intro hst
    have hsize := hst.size_le (xmitLoop_log fourPackets promptKernel twoFree_synced) rfl
      (List.ne_nil_of_length_pos (by decide))
    omega
  · intro hst
    have hone := hst.nblocks_eq (xmitLoop_log fourPackets slowKernel twoFree_synced) rfl
      (j := 0) rfl (by decide) (by decide)
    exact absurd hone (by decide)

end Nvpkt.Guarantees.LoadContent
