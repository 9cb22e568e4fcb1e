import Nvpkt.Guarantees.BioMapping
import Nvpkt.Guarantees.TxpktPayload

/-!
# How much the device transfers, and where to

The block count of an NVMe command is zero-based, but `c.rw.length` is set to
`npr.len >> lba_shift` itself, so the device is asked for one block more than the
packet has and always for more than `npr.len` bytes, while the walk asks
`bio_add_pc_page` for `npr.len - sizeof(struct skb_shared_info)`. The transfer leaves
the mapped segments for every length whose block count fits the sixteen-bit field; a
larger count loses its upper bits on the way into the command, and only then can the
command ask for no more than was added (`dma_contained_iff`).
-/

set_option autoImplicit false

namespace Nvpkt.Guarantees.TxpktDma
open Nvpkt.Library.SegmentList Nvpkt.Library.FixedWidth
open Nvpkt.Source.KernelObjects Nvpkt.Source.TxpktOne
open Nvpkt.Guarantees.SgWalk Nvpkt.Guarantees.TxpktPaths Nvpkt.Guarantees.TxpktPayload
open Nvpkt.Guarantees.BioMapping

/-- `a` belongs to the `skb_shared_info` at the end of the first entry. -/
def InSharedInfo (k : Kernel) (sgl : List Sg) (a : Nat) : Prop :=
  ∃ e rest, sgl = e :: rest ∧ a < k.byteAddr e.base e.len ∧
    k.byteAddr e.base e.len ≤ a + k.sharedInfo

/-- The transfer ends inside the mapped segments and spares the shared info. -/
structure Contained (k : Kernel) (ns : NvmeNs) (sgl : List Sg) (c : RwCommand) (bio : List Sg) :
    Prop where
  fits : transferBytes ns c ≤ total bio
  spared : ∀ a, Written k ns c bio a → ¬ InSharedInfo k sgl a

/-- Every command the call issues is contained. -/
def DmaContained (k : Kernel) (ns : NvmeNs) (sgl : List Sg) (r : TxResult) : Prop :=
  ∀ c bio, .executeRq c bio ∈ r.trace → Contained k ns sgl c bio

/-- Bytes that `bio_add_pc_page` adds in the walk over the first `length` bytes of the list,
where it is asked for the shared info less of the first entry. -/
def bytesAdded (k : Kernel) (calls : Calls) (sgl : List Sg) (length : Nat) : Nat :=
  ((trimHead k.sharedInfo (clip sgl length)).mapIdx fun j s => calls.addPcPage j s.len).sum

/-! ## What is added -/

/-- The segments that `bio_add_pc_page` adds when it is asked for `segs`. -/
def addedSegs (calls : Calls) (segs : List Sg) : List Sg :=
  segs.mapIdx fun j s => ⟨s.base, calls.addPcPage j s.len⟩

theorem bioLoop_added (k : Kernel) (calls : Calls) (sgl : List Sg) (length : Nat) :
    (bioLoop k calls length sgl ⟨0, []⟩).bio = addedSegs calls (requests k length sgl 0) := by
  have hbio := bioLoop_requests k calls length sgl ⟨0, []⟩
  simp only [List.nil_append, List.length_nil, Nat.zero_add] at hbio
  exact hbio

theorem addedSegs_full {calls : Calls} (full : ∀ j n, calls.addPcPage j n = n) (segs : List Sg) :
    addedSegs calls segs = segs :=
  (mapped_eq_iff segs calls.addPcPage).mpr fun j r _ => full j r.len

/-- The walk asks for what it would map if everything were added. -/
theorem requests_eq (k : Kernel) (e : Sg) (rest : List Sg) (length : Nat) (hl : length < 2 ^ 32)
    (hpos : 0 < length) (he : 0 < e.len) :
    requests k length (e :: rest) 0 = mappedBio k e rest length := by
  have full : ∀ j n, (succeedingCalls []).addPcPage j n = n := fun _ _ => rfl
  rw [← bioLoop_eq k (succeedingCalls []) e rest length full hl hpos he, bioLoop_added,
    addedSegs_full full]

/-- The request for a list of one entry, for every 64-bit length. -/
theorem requests_single (k : Kernel) (e : Sg) (length : Nat) (hpos : 0 < length)
    (he : e.len < 2 ^ 32) : requests k length [e] 0 = mappedBio k e [] length := by
  have hmin : wrap 32 (min e.len length) = min e.len length := wrap_of_lt (by omega)
  simp [requests, hpos, hmin, mappedBio, clip]

theorem total_added (calls : Calls) (segs : List Sg) :
    total (addedSegs calls segs) = (segs.mapIdx fun j s => calls.addPcPage j s.len).sum := by
  rw [total_eq_sum, addedSegs, List.mapIdx_eq_zipIdx_map, List.map_map,
    List.mapIdx_eq_zipIdx_map]
  rfl

theorem sum_added_le {add : Nat → Nat → Nat} (hadd : ∀ j n, add j n ≤ n) (segs : List Sg) :
    (segs.mapIdx fun j s => add j s.len).sum ≤ total segs := by
  induction segs generalizing add with
  | nil => exact Nat.le_refl 0
  | cons s rest ih =>
    rw [List.mapIdx_cons, List.sum_cons, total_cons]
    exact Nat.add_le_add (hadd 0 s.len) (ih fun j => hadd (j + 1))

/-- A byte that was added is one that was asked for. -/
theorem addedSegs_addr {k : Kernel} {calls : Calls} {segs : List Sg} {i a : Nat}
    (h : addr? k.byteAddr (addedSegs calls segs) i = some a) :
    ∃ j, addr? k.byteAddr segs j = some a := by
  obtain ⟨s, hs, j, hj, rfl⟩ := addr?_mem k.byteAddr _ i a h
  obtain ⟨m, hm, rfl⟩ := List.mem_mapIdx.mp hs
  exact addr?_of_mem k.byteAddr (List.getElem_mem hm)
    (Nat.lt_of_lt_of_le hj (calls.addPcPage_le m _))

/-! ## The transfer and the bio -/

/-- An unwrapped walk maps bytes of the list that the shared info does not occupy. -/
theorem added_spared (k : Kernel) (ns : NvmeNs) (calls : Calls) (c : RwCommand) (n length : Nat)
    (e : Sg) (rest : List Sg) (alloc : SglAllocated k n (e :: rest)) (hl : length < 2 ^ 32)
    (hpos : 0 < length) (hinfo : k.sharedInfo ≤ min e.len length) (a : Nat)
    (hw : Written k ns c (addedSegs calls (mappedBio k e rest length)) a) :
    ¬ InSharedInfo k (e :: rest) a := by
  rintro ⟨e', rest', heq, hlo, hhi⟩
  obtain ⟨rfl, rfl⟩ := List.cons.inj heq
  obtain ⟨i, -, hi⟩ := hw
  obtain ⟨j, hj⟩ := addedSegs_addr hi
  have houtside := mappedBio_outside alloc hl hpos hinfo hj
  simp only [OutsideInfo, Kernel.byteAddr] at houtside hlo hhi
  omega

/-- What is added of the segment of a single short entry is too little, or the transfer
reaches its shared info. -/
theorem underflow_not_contained (k : Kernel) (ns : NvmeNs) (calls : Calls) (c : RwCommand)
    (e : Sg) (length i : Nat) (hinfo : min e.len length < k.sharedInfo)
    (hi : i < transferBytes ns c) (hie : i < e.len) (hnear : e.len ≤ i + k.sharedInfo) :
    ¬ Contained k ns [e] c (addedSegs calls (mappedBio k e [] length)) := by
  intro h
  have hfits := h.fits
  rw [mappedBio_underflow k e length hinfo] at hfits h
  have hwritten : Written k ns c (addedSegs calls
      [⟨e.base, 2 ^ 32 - (k.sharedInfo - min e.len length)⟩]) (k.byteAddr e.base i) := by
    refine ⟨i, hi, if_pos ?_⟩
    exact Nat.lt_of_lt_of_le hi hfits
  refine h.spared _ hwritten ⟨e, [], rfl, ?_, ?_⟩ <;> simp only [Kernel.byteAddr] <;> omega

/-- What is left in its field of a block count of seventeen bits or more. -/
theorem transferBytes_truncated (k : Kernel) (ns : NvmeNs) (npr : NvpktXmit)
    (hlen : npr.len.val < 2 ^ 32) (hover : 2 ^ 16 ≤ npr.len.val >>> ns.lbaShift) :
    transferBytes ns (txpktCommand k ns npr) =
      ((npr.len.val >>> ns.lbaShift) % 2 ^ 16 + 1) <<< ns.lbaShift := by
  have hle : npr.len.val >>> ns.lbaShift ≤ npr.len.val := Nat.shiftRight_le _ _
  have hblocks : nblocks ns npr.len.val = npr.len.val >>> ns.lbaShift := by
    rw [nblocks, wrap_of_lt (by omega)]
    exact if_neg (by omega)
  rw [transferBytes, txpktCommand, hblocks]
  rfl

/-- Lengths that do not wrap around, with the list they are given. -/
theorem contained_iff (k : Kernel) (ns : NvmeNs) (npr : NvpktXmit) (calls : Calls) (e : Sg)
    (rest : List Sg) (hpos : 1 ≤ npr.len.val)
    (alloc : SglAllocated k (sglLength k npr) (e :: rest))
    (hn : sglLength k npr = npr.len.val + k.sharedInfo) :
    Contained k ns (e :: rest) (txpktCommand k ns npr)
        (addedSegs calls (mappedBio k e rest npr.len.val)) ↔
      2 ^ 16 ≤ npr.len.val >>> ns.lbaShift ∧
        ((npr.len.val >>> ns.lbaShift) % 2 ^ 16 + 1) <<< ns.lbaShift ≤
          bytesAdded k calls (e :: rest) npr.len.val := by
  have hS := k.sharedInfo_lt
  have hS2 := k.two_sharedInfo_le
  have hl := alloc.fits
  have htotal := alloc.total_eq
  have helen := alloc.head_len
  have hpage := k.pageSize_pos
  by_cases hover : 2 ^ 16 ≤ npr.len.val >>> ns.lbaShift
  · have hge : 2 ^ 16 ≤ npr.len.val := Nat.le_trans hover (Nat.shiftRight_le _ _)
    have hadded : total (addedSegs calls (mappedBio k e rest npr.len.val)) =
        bytesAdded k calls (e :: rest) npr.len.val := by
      rw [total_added, mappedBio_trimHead k e rest _ (by omega) hpos (by omega), bytesAdded]
    rw [and_iff_right hover, ← transferBytes_truncated k ns npr (by omega) hover, ← hadded]
    refine ⟨fun h => h.fits, fun hfits => ⟨hfits, fun a hw => ?_⟩⟩
    exact added_spared k ns calls _ _ _ e rest alloc (by omega) hpos (by omega) a hw
  · refine ⟨fun h => ?_, fun h => absurd h.1 hover⟩
    exfalso
    have hT := transferBytes_gt k ns npr (by omega)
    by_cases hlt : npr.len.val < k.sharedInfo
    · obtain ⟨e', hsingle, _, _⟩ := alloc.singleton (by omega) (by omega)
      obtain ⟨rfl, rfl⟩ := List.cons.inj hsingle
      exact underflow_not_contained k ns calls _ e _ npr.len.val (by omega) hT (by omega)
        (by omega) h
    · have hmapped := mappedBio_total k e rest npr.len.val (by omega) (by omega) (by omega)
      have hadded := sum_added_le calls.addPcPage_le (mappedBio k e rest npr.len.val)
      have hfits := h.fits
      rw [total_added] at hfits
      omega

/-- A sum that wraps around leaves a list of less than the shared info, or none. -/
theorem wrapped_sgl (k : Kernel) (npr : NvpktXmit) (sgl : List Sg)
    (hwrap : 2 ^ 64 ≤ npr.len.val + k.sharedInfo) (alloc : SglAllocated k (sglLength k npr) sgl) :
    (npr.len.val + k.sharedInfo = 2 ^ 64 ∧ sgl = []) ∨
      (npr.len.val + k.sharedInfo ≠ 2 ^ 64 ∧
        ∃ e, sgl = [e] ∧ 0 < e.len ∧ e.len < k.sharedInfo) := by
  have hS := k.sharedInfo_lt
  have hS2 := k.two_sharedInfo_le
  have hlen := npr.len.isLt
  have hn : sglLength k npr = npr.len.val + k.sharedInfo - 2 ^ 64 := by
    simp only [sglLength, wrap]
    omega
  by_cases hz : npr.len.val + k.sharedInfo = 2 ^ 64
  · refine Or.inl ⟨hz, ?_⟩
    cases sgl with
    | nil => rfl
    | cons e rest =>
      have htotal := alloc.total_eq
      have hb := alloc.len_bounds e (by simp)
      rw [total_cons] at htotal
      omega
  · obtain ⟨e, rfl, he, _⟩ := alloc.singleton (by omega) (by omega)
    exact Or.inr ⟨hz, e, rfl, by omega, by omega⟩

/-- The command for a list shorter than the shared info. -/
theorem wrapped_not_contained (k : Kernel) (ns : NvmeNs) (npr : NvpktXmit) (calls : Calls) (e : Sg)
    (hpos : 1 ≤ npr.len.val) (he : 0 < e.len) (heS : e.len < k.sharedInfo)
    (hn : sglLength k npr = e.len) (issued : Issues calls [e]) :
    ¬ DmaContained k ns [e] (nvpktIoctlTxpktOne k ns calls npr) := by
  intro h
  have hS := k.sharedInfo_lt
  rcases txpktOne_paths k ns calls npr with ⟨sgl, skb, pre, hreach, _, hquiet, hrun⟩ | ⟨hno, _⟩
  · have hsgl := hreach.sglAlloc
    rw [issued.sglAlloc] at hsgl
    obtain rfl := Option.some.inj hsgl
    rw [bioLoop_added, requests_single k e _ hpos (by omega)] at hrun
    have hexec := (executeRq_mem hquiet calls (txpktCommand k ns npr) _
      (addedSegs calls (mappedBio k e [] npr.len.val)) _ skb).mpr ⟨rfl, rfl⟩
    rw [← hrun] at hexec
    have hT : 0 < transferBytes ns (txpktCommand k ns npr) := by
      rw [transferBytes, Nat.shiftLeft_eq]
      exact Nat.mul_pos (Nat.succ_pos _) (Nat.two_pow_pos _)
    exact underflow_not_contained k ns calls _ e _ 0 (by omega) hT he (by omega) (h _ _ hexec)
  · exact hno [e] ⟨issued, by simp, by omega⟩

/-- An empty list makes no command. -/
theorem empty_contained (k : Kernel) (ns : NvmeNs) (npr : NvpktXmit) (calls : Calls)
    (issued : Issues calls []) : DmaContained k ns [] (nvpktIoctlTxpktOne k ns calls npr) := by
  intro c bio hexec
  rcases txpktOne_paths k ns calls npr with ⟨sgl, _, _, hreach, _⟩ | ⟨_, hquiet, _⟩
  · have hsgl := hreach.sglAlloc
    rw [issued.sglAlloc] at hsgl
    exact absurd (Option.some.inj hsgl).symm hreach.entries
  · exact absurd (hquiet _ hexec) (by simp [Quiet])

/-- The command of a call is contained exactly when its block count loses upper bits and
what is left of it asks for no more than was added, or when there is no command because
`npr.len` plus the shared info is 2^64. -/
theorem dma_contained_iff (k : Kernel) (ns : NvmeNs) (npr : NvpktXmit) (calls : Calls)
    (sgl : List Sg) (hpos : 1 ≤ npr.len.val) (alloc : SglAllocated k (sglLength k npr) sgl)
    (issued : Issues calls sgl) :
    DmaContained k ns sgl (nvpktIoctlTxpktOne k ns calls npr) ↔
      npr.len.val + k.sharedInfo = 2 ^ 64 ∨
        (npr.len.val + k.sharedInfo < 2 ^ 64 ∧ 2 ^ 16 ≤ npr.len.val >>> ns.lbaShift ∧
          ((npr.len.val >>> ns.lbaShift) % 2 ^ 16 + 1) <<< ns.lbaShift ≤
            bytesAdded k calls sgl npr.len.val) := by
  have hS := k.sharedInfo_lt
  by_cases hfit : npr.len.val + k.sharedInfo < 2 ^ 64
  · obtain ⟨e, rest, rfl, hn, hl, _, _, hinfo⟩ := sgl_shape k npr sgl hfit alloc
    have hS0 := k.sharedInfo_pos
    obtain ⟨pre, hquiet, hrun⟩ := txpktOne_walks k ns npr calls e rest issued hpos hn hl hinfo
    rw [bioLoop_added, requests_eq k e rest _ (by omega) hpos (by omega)] at hrun
    have hiff := contained_iff k ns npr calls e rest hpos alloc hn
    constructor
    · intro h
      refine Or.inr ⟨hfit, hiff.mp (h _ _ ?_)⟩
      rw [hrun, executeRq_mem hquiet]
      exact ⟨rfl, rfl⟩
    · rintro (hz | ⟨-, hcond⟩) c bio hexec
      · omega
      · rw [hrun, executeRq_mem hquiet] at hexec
        obtain ⟨rfl, rfl⟩ := hexec
        exact hiff.mpr hcond
  · rcases wrapped_sgl k npr sgl (by omega) alloc with ⟨hz, rfl⟩ | ⟨hz, e, rfl, he, heS⟩
    · exact ⟨fun _ => Or.inl hz, fun _ => empty_contained k ns npr calls issued⟩
    · have hn : sglLength k npr = e.len := by simpa using alloc.total_eq.symm
      refine iff_of_false (wrapped_not_contained k ns npr calls e hpos he heS hn issued) ?_
      rintro (hz' | ⟨hlt, -⟩) <;> omega

/-- A packet of 65536 blocks asks for one block only, which its bio can hold. -/
theorem dma_contained_truncated :
    DmaContained x86_64 ⟨1, 0⟩ ((List.range 17).map fun i => ⟨⟨i, 0⟩, if i = 16 then 320 else 4096⟩)
      (nvpktIoctlTxpktOne x86_64 ⟨1, 0⟩ (succeedingCalls
        ((List.range 17).map fun i => ⟨⟨i, 0⟩, if i = 16 then 320 else 4096⟩)) ⟨65536, 1, 0⟩) :=
  (dma_contained_iff x86_64 ⟨1, 0⟩ ⟨65536, 1, 0⟩ _ _ (by decide)
    ⟨by decide, by decide, by decide, by decide⟩ (succeedingCalls_succeeds _).toIssues).mpr
    (Or.inr ⟨by decide, by decide, by decide⟩)

/-- The 1024-byte packet of `tools/xmit-pkt.c` makes a 512-byte namespace send 1536
bytes into a bio of 704. -/
theorem dma_overrun_1024 :
    SglAllocated x86_64 (sglLength x86_64 ⟨1024, 1, 0⟩) (onePage 1344) ∧
      Issues (succeedingCalls (onePage 1344)) (onePage 1344) ∧
      ¬ DmaContained x86_64 ⟨1, 9⟩ (onePage 1344)
        (nvpktIoctlTxpktOne x86_64 ⟨1, 9⟩ (succeedingCalls (onePage 1344)) ⟨1024, 1, 0⟩) := by
  refine ⟨⟨by decide, by decide, by decide, by decide⟩,
    (succeedingCalls_succeeds _).toIssues, fun h => ?_⟩
  have hfits := (h ⟨2, 1, 1, 2⟩ [⟨⟨7, 0⟩, 704⟩] (by decide)).fits
  exact absurd hfits (by decide)

end Nvpkt.Guarantees.TxpktDma
