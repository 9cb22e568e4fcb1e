import Nvpkt.Guarantees.SgWalk
import Nvpkt.Guarantees.TxpktPaths

/-!
# The payload of a transmitted packet

The frame built by `skb_from_sgvec` has `npr.len` bytes and lies over the whole
scatterlist. The bio is mapped by `blk_rq_map_from_sgl` with `npr.len` instead of
`npr.len + sizeof(struct skb_shared_info)` as its length, and the shared info is
subtracted from its first segment as well, so it stops that many bytes early: the
last `sizeof(struct skb_shared_info)` bytes of the frame are never read from the
device. A packet shorter than the shared info has a `dma_len` that wraps around to
almost 4 GiB. Its read covers the frame and goes on over the shared info, so that
what is sent depends on the device's bytes that are then taken for fragments
(`payload_correct_iff`).
-/

set_option autoImplicit false

namespace Nvpkt.Guarantees.TxpktPayload
open Nvpkt.Library.SegmentList Nvpkt.Library.FixedWidth
open Nvpkt.Source.KernelObjects Nvpkt.Source.SharedInfo Nvpkt.Source.TxpktOne
open Nvpkt.Guarantees.SgWalk Nvpkt.Guarantees.TxpktPaths

variable {Byte : Type} {k : Kernel}

/-- The device stores a byte at `a` during the transfer. -/
def Written (k : Kernel) (ns : NvmeNs) (c : RwCommand) (bio : List Sg) (a : Nat) : Prop :=
  ∃ i, i < transferBytes ns c ∧ addr? k.byteAddr bio i = some a

/-- Memory when the read has filled `bio`. -/
def afterRead (lay : InfoLayout Byte k) (ns : NvmeNs) (disk memory : Nat → Byte) (c : RwCommand)
    (bio : List Sg) (skb : SkBuff) : Nat → Byte :=
  deviceRead k ns disk c bio (builtMemory lay skb memory)

/-- What `dev_queue_xmit` finds then. Nothing is known of the `sk_buff` any more where the
read has run over pages that are not those of the list. -/
structure Found (lay : InfoLayout Byte k) (ns : NvmeNs) (disk memory : Nat → Byte) (sgl : List Sg)
    (c : RwCommand) (bio : List Sg) (skb : SkBuff) (segs : List Sg) : Prop where
  inPages : ∀ a, Written k ns c bio a →
    ∃ e ∈ sgl, e.base.page * k.pageSize ≤ a ∧ a < (e.base.page + 1) * k.pageSize
  sent : sentSegs lay skb (afterRead lay ns disk memory c bio skb) = some segs

/-- The bytes of the frame. -/
def frame (lay : InfoLayout Byte k) (ns : NvmeNs) (disk memory : Nat → Byte) (c : RwCommand)
    (bio : List Sg) (skb : SkBuff) (segs : List Sg) : List Byte :=
  gather k.byteAddr (afterRead lay ns disk memory c bio skb) segs

/-- The frame is the requested stretch of the device, and none of it is what the
freshly allocated pages held. -/
structure FramePayload (lay : InfoLayout Byte k) (ns : NvmeNs) (npr : NvpktXmit)
    (disk memory : Nat → Byte) (c : RwCommand) (bio : List Sg) (skb : SkBuff) (segs : List Sg) :
    Prop where
  length : (frame lay ns disk memory c bio skb segs).length = npr.len.val
  bytes : ∀ i, i < npr.len.val → (frame lay ns disk memory c bio skb segs)[i]? =
    some (disk (npr.slba.val <<< ns.lbaShift + i))
  written : ∀ i a, i < npr.len.val → addr? k.byteAddr segs i = some a → Written k ns c bio a

/-- The command and bio that were executed and the frame that was handed on satisfy it. -/
def PayloadCorrect (lay : InfoLayout Byte k) (ns : NvmeNs) (npr : NvpktXmit)
    (disk memory : Nat → Byte) (sgl : List Sg) (r : TxResult) : Prop :=
  ∃ c bio skb segs, .executeRq c bio ∈ r.trace ∧ .devQueueXmit skb ∈ r.trace ∧
    Found lay ns disk memory sgl c bio skb segs ∧
    FramePayload lay ns npr disk memory c bio skb segs

/-- A block count that fits its sixteen-bit field asks for more than `len` bytes. -/
theorem transferBytes_gt (k : Kernel) (ns : NvmeNs) (npr : NvpktXmit)
    (hfit : npr.len.val >>> ns.lbaShift < 2 ^ 16) :
    npr.len.val < transferBytes ns (txpktCommand k ns npr) := by
  have hp : 0 < 2 ^ ns.lbaShift := Nat.two_pow_pos _
  have hdiv := Nat.lt_div_mul_add hp (a := npr.len.val)
  rw [Nat.shiftRight_eq_div_pow] at hfit
  simp only [transferBytes, txpktCommand, nblocks, Nat.shiftRight_eq_div_pow, Nat.shiftLeft_eq]
  rw [wrap_of_lt (show npr.len.val / 2 ^ ns.lbaShift < 2 ^ 32 by omega)]
  split
  · next hz =>
    rw [hz] at hdiv
    rw [wrap_of_lt (by decide)]
    omega
  · rw [wrap_of_lt hfit, Nat.add_mul]
    omega

theorem slba_little (k : Kernel) (ns : NvmeNs) (npr : NvpktXmit) (hh : k.host = .little) :
    (txpktCommand k ns npr).slba = npr.slba.val := by
  have := npr.slba.isLt
  simp only [txpktCommand, cpuToLe, hh]
  omega

/-- What `sgl_alloc` returns for a packet whose length does not wrap around. -/
theorem sgl_shape (k : Kernel) (npr : NvpktXmit) (sgl : List Sg)
    (hfit : npr.len.val + k.sharedInfo < 2 ^ 64) (alloc : SglAllocated k (sglLength k npr) sgl) :
    ∃ e rest, sgl = e :: rest ∧ sglLength k npr = npr.len.val + k.sharedInfo ∧
      sglLength k npr < 2 ^ 32 ∧ total (e :: rest) = sglLength k npr ∧
      e.len = min k.pageSize (sglLength k npr) ∧ k.sharedInfo ≤ e.len := by
  have hn : sglLength k npr = npr.len.val + k.sharedInfo := wrap_of_lt hfit
  have hfits := alloc.fits
  have htotal := alloc.total_eq
  have hS := k.sharedInfo_pos
  have hS2 := k.two_sharedInfo_le
  cases sgl with
  | nil =>
    simp at htotal
    omega
  | cons e rest =>
    have hlen := alloc.head_len
    exact ⟨e, rest, rfl, hn, by omega, htotal, hlen, by omega⟩

/-- From the shared info's size on, the last byte of the frame is not transferred. -/
theorem last_byte_unwritten (k : Kernel) (ns : NvmeNs) (npr : NvpktXmit) (c : RwCommand)
    (e : Sg) (rest : List Sg) (alloc : SglAllocated k (sglLength k npr) (e :: rest))
    (hn : sglLength k npr = npr.len.val + k.sharedInfo) (hl : sglLength k npr < 2 ^ 32)
    (hS : k.sharedInfo ≤ npr.len.val) :
    ∃ a, addr? k.byteAddr (walkedSkb k e rest (sglLength k npr)).segs (npr.len.val - 1) = some a ∧
      ¬ Written k ns c (mappedBio k e rest npr.len.val) a := by
  have hpos := k.sharedInfo_pos
  have hS2 := k.two_sharedInfo_le
  have htotal := alloc.total_eq
  have hlen := alloc.head_len
  have hinfo : k.sharedInfo ≤ min e.len npr.len.val := by omega
  have haddr := walkedSkb_addr k e rest _ hl (by omega) htotal (by omega) (npr.len.val - 1)
    (by omega)
  obtain ⟨a, ha⟩ := addr?_isSome k.byteAddr (e :: rest)
    (if npr.len.val - 1 < e.len - k.sharedInfo then npr.len.val - 1
      else npr.len.val - 1 + k.sharedInfo) (by rw [htotal]; split <;> omega)
  refine ⟨a, haddr.trans ha, ?_⟩
  intro hwritten
  obtain ⟨i, _, hi⟩ := hwritten
  have hmapped := mappedBio_total k e rest npr.len.val (by omega) hinfo (by omega)
  have hil : i < npr.len.val - k.sharedInfo := by
    rw [← hmapped]
    by_contra hge
    rw [(addr?_eq_none_iff k.byteAddr _ i).mpr (by omega)] at hi
    cases hi
  obtain ⟨w, hw, hwa, hwi⟩ := mappedBio_addr k e rest npr.len.val (by omega) (by omega) hinfo i a hi
  have hsame := alloc.separated.addr?_injective _ _ a ha hwa
  split at hsame <;> split at hwi <;> omega

/-- As long as the packet's blocks fit the sixteen-bit field. -/
def readBytes (ns : NvmeNs) (npr : NvpktXmit) : Nat :=
  (max 1 (npr.len.val >>> ns.lbaShift) + 1) <<< ns.lbaShift

theorem transferBytes_eq (k : Kernel) (ns : NvmeNs) (npr : NvpktXmit)
    (hfit : npr.len.val >>> ns.lbaShift < 2 ^ 16) :
    transferBytes ns (txpktCommand k ns npr) = readBytes ns npr := by
  have hblocks : nblocks ns npr.len.val = max 1 (npr.len.val >>> ns.lbaShift) := by
    rw [nblocks, wrap_of_lt (by omega)]
    generalize npr.len.val >>> ns.lbaShift = blocks
    split <;> omega
  rw [transferBytes, txpktCommand, hblocks, wrap_of_lt (by omega), readBytes]

/-- Where the first entry begins. -/
def firstByte (k : Kernel) : List Sg → Nat
  | [] => 0
  | e :: _ => k.byteAddr e.base 0

/-- The bytes in the place of a short packet's shared info after the read: the device's as
far as the read goes, and behind them those of an `sk_buff` without fragments. -/
def infoAfterRead (lay : InfoLayout Byte k) (ns : NvmeNs) (npr : NvpktXmit)
    (disk memory : Nat → Byte) (sgl : List Sg) (i : Nat) : Byte :=
  if npr.len.val + i < readBytes ns npr then
    disk (npr.slba.val <<< ns.lbaShift + (npr.len.val + i))
  else lay.store [] (fun j => memory (firstByte k sgl + (npr.len.val + j))) i

/-! ### A packet shorter than the shared info

It lies in one entry, and its one bio segment begins where the frame does and ends far
behind it. -/

section Short
variable {ns : NvmeNs} {npr : NvpktXmit} {e : Sg} {lay : InfoLayout Byte k}
  {disk memory : Nat → Byte}

theorem short_bio (hS : npr.len.val < k.sharedInfo) (he : e.len = npr.len.val + k.sharedInfo) :
    mappedBio k e [] npr.len.val = [⟨e.base, 2 ^ 32 - (k.sharedInfo - npr.len.val)⟩] := by
  rw [mappedBio_underflow k e _ (by omega), he, Nat.min_eq_right (by omega)]

theorem short_headlen (hS : npr.len.val < k.sharedInfo)
    (he : e.len = npr.len.val + k.sharedInfo)
    (hn : sglLength k npr = npr.len.val + k.sharedInfo) :
    headlen (walkedSkb k e [] (sglLength k npr)) = npr.len.val := by
  have hS16 := k.sharedInfo_lt
  rw [walkedSkb_headlen k e [] _ (by omega) (by omega) (by omega)]
  omega

variable (ns) in
theorem short_transfer (hS : npr.len.val < k.sharedInfo) :
    transferBytes ns (txpktCommand k ns npr) = readBytes ns npr ∧
      npr.len.val < readBytes ns npr := by
  have hS16 := k.sharedInfo_lt
  have hfit : npr.len.val >>> ns.lbaShift < 2 ^ 16 :=
    Nat.lt_of_le_of_lt (Nat.shiftRight_le _ _) (by omega)
  have htransfer := transferBytes_eq k ns npr hfit
  exact ⟨htransfer, htransfer ▸ transferBytes_gt k ns npr hfit⟩

/-- Its bio has all pages from the first byte of the entry on. -/
theorem short_addr (hS : npr.len.val < k.sharedInfo) (he : e.len = npr.len.val + k.sharedInfo)
    {i : Nat} (hi : i + k.sharedInfo < 2 ^ 32) :
    addr? k.byteAddr (mappedBio k e [] npr.len.val) i = some (k.byteAddr e.base i) := by
  rw [short_bio hS he]
  exact if_pos (by simp only; omega)

/-- The read from the first byte of the entry to the end of its shared info. -/
theorem short_afterRead (hh : k.host = .little) (hS : npr.len.val < k.sharedInfo)
    (he : e.len = npr.len.val + k.sharedInfo) (skb : SkBuff) {i : Nat}
    (hi : i < npr.len.val + k.sharedInfo) :
    afterRead lay ns disk memory (txpktCommand k ns npr) (mappedBio k e [] npr.len.val) skb
        (k.byteAddr e.base i) =
      if i < readBytes ns npr then disk (npr.slba.val <<< ns.lbaShift + i)
      else builtMemory lay skb memory (k.byteAddr e.base i) := by
  have hS16 := k.sharedInfo_lt
  rw [afterRead, deviceRead, (short_transfer ns hS).1]
  split
  · next hread =>
    have hsep : Separated k.byteAddr (mappedBio k e [] npr.len.val) := by
      rw [short_bio hS he]
      refine ⟨?_, List.pairwise_singleton _ _⟩
      intro s _ i _ j _ heq
      simp only [Kernel.byteAddr] at heq
      omega
    rw [fill_addr? _ _ _ _ 0 _ i _ hsep (by omega) (short_addr hS he (by omega)), readByte,
      slba_little k ns npr hh, Nat.zero_add]
  · next hread =>
    refine fill_frame _ _ _ _ _ _ _ (fun j hj hja => hread ?_)
    rw [short_bio hS he] at hja
    simp only [addr?] at hja
    split at hja
    · have hsame := Option.some.inj hja
      simp only [Kernel.byteAddr] at hsame
      omega
    · cases hja

/-- What is taken for its shared info. -/
theorem short_load (hh : k.host = .little) (hS : npr.len.val < k.sharedInfo)
    (he : e.len = npr.len.val + k.sharedInfo)
    (hn : sglLength k npr = npr.len.val + k.sharedInfo) :
    sentSegs lay (walkedSkb k e [] (sglLength k npr))
        (afterRead lay ns disk memory (txpktCommand k ns npr) (mappedBio k e [] npr.len.val)
          (walkedSkb k e [] (sglLength k npr))) =
      (lay.load (infoAfterRead lay ns npr disk memory [e])).map fun frags =>
        ⟨e.base, npr.len.val⟩ :: frags := by
  have hhead := short_headlen hS he hn
  have hinfo : ∀ i, infoAddr k (walkedSkb k e [] (sglLength k npr)) + i =
      k.byteAddr e.base (npr.len.val + i) := by
    intro i
    rw [infoAddr, hhead]
    exact Nat.add_assoc ..
  have hfirst : ∀ i, k.byteAddr e.base i = firstByte k [e] + i := fun _ => rfl
  have hload : lay.load (fun i => afterRead lay ns disk memory (txpktCommand k ns npr)
        (mappedBio k e [] npr.len.val) (walkedSkb k e [] (sglLength k npr))
        (infoAddr k (walkedSkb k e [] (sglLength k npr)) + i)) =
      lay.load (infoAfterRead lay ns npr disk memory [e]) := by
    apply lay.load_congr
    intro i hi
    rw [hinfo, short_afterRead hh hS he _ (by omega), infoAfterRead, ← hinfo,
      builtMemory_info lay _ memory hi]
    simp only [hinfo, hfirst]
    rfl
  rw [sentSegs, hload, hhead]
  rfl

variable (ns) in
/-- Its read stays in the page of the entry if and only if it is not longer. -/
theorem short_inPages_iff (hpos : 1 ≤ npr.len.val) (hS : npr.len.val < k.sharedInfo)
    (he : e.len = npr.len.val + k.sharedInfo) (hoffset : e.base.offset = 0)
    (hpage : npr.len.val + k.sharedInfo + k.pageSize ≤ 2 ^ 32) :
    (∀ a, Written k ns (txpktCommand k ns npr) (mappedBio k e [] npr.len.val) a →
      ∃ e' ∈ [e], e'.base.page * k.pageSize ≤ a ∧ a < (e'.base.page + 1) * k.pageSize) ↔
    readBytes ns npr ≤ k.pageSize := by
  obtain ⟨htransfer, -⟩ := short_transfer ns hS
  constructor
  · intro hin
    by_contra hlong
    have hbeyond := short_addr hS he (i := k.pageSize) (by omega)
    obtain ⟨e', he', -, hend⟩ := hin (k.byteAddr e.base k.pageSize)
      ⟨k.pageSize, by omega, hbeyond⟩
    obtain rfl := List.mem_singleton.mp he'
    rw [Nat.succ_mul] at hend
    simp only [Kernel.byteAddr] at hend
    omega
  · rintro hpages a ⟨i, hi, ha⟩
    refine ⟨e, List.mem_singleton_self e, ?_⟩
    rw [short_addr hS he (by omega)] at ha
    have hsame := Option.some.inj ha
    rw [Nat.succ_mul]
    simp only [Kernel.byteAddr] at hsame
    omega

/-- With fragments of no bytes its frame is the stretch of the device. -/
theorem short_payload (hh : k.host = .little) (hpos : 1 ≤ npr.len.val)
    (hS : npr.len.val < k.sharedInfo) (he : e.len = npr.len.val + k.sharedInfo)
    (hpage : npr.len.val + k.sharedInfo ≤ 2 ^ 32) {frags : List Sg} (hnone : total frags = 0) :
    FramePayload lay ns npr disk memory (txpktCommand k ns npr) (mappedBio k e [] npr.len.val)
      (walkedSkb k e [] (sglLength k npr)) (⟨e.base, npr.len.val⟩ :: frags) := by
  obtain ⟨htransfer, hcovers⟩ := short_transfer ns hS
  refine ⟨?_, ?_, ?_⟩
  · rw [frame, gather_length, total_cons, hnone]
    rfl
  · intro i hi
    rw [frame, gather_getElem?, addr?, if_pos hi, Option.map_some,
      short_afterRead hh hS he _ (by omega), if_pos (by omega)]
  · intro i a hi ha
    rw [addr?, if_pos hi] at ha
    exact ⟨i, by omega, (short_addr hS he (by omega)).trans ha⟩

variable (ns lay disk memory) in
/-- Its payload is correct exactly when the read stays in its page and leaves it without
fragments. -/
theorem short_payload_iff (hh : k.host = .little) (hpos : 1 ≤ npr.len.val)
    (hS : npr.len.val < k.sharedInfo) (he : e.len = npr.len.val + k.sharedInfo)
    (hn : sglLength k npr = npr.len.val + k.sharedInfo) (hoffset : e.base.offset = 0)
    (hpage : npr.len.val + k.sharedInfo + k.pageSize ≤ 2 ^ 32) :
    (∃ segs, Found lay ns disk memory [e] (txpktCommand k ns npr) (mappedBio k e [] npr.len.val)
        (walkedSkb k e [] (sglLength k npr)) segs ∧
      FramePayload lay ns npr disk memory (txpktCommand k ns npr) (mappedBio k e [] npr.len.val)
        (walkedSkb k e [] (sglLength k npr)) segs) ↔
    readBytes ns npr ≤ k.pageSize ∧
      ∃ frags, lay.load (infoAfterRead lay ns npr disk memory [e]) = some frags ∧
        total frags = 0 := by
  have hpages := short_inPages_iff ns hpos hS he hoffset hpage
  constructor
  · rintro ⟨segs, hfound, hp⟩
    have hsent := hfound.sent
    rw [short_load hh hS he hn, Option.map_eq_some_iff] at hsent
    obtain ⟨frags, hload, rfl⟩ := hsent
    have hlen := hp.length
    rw [frame, gather_length, total_cons] at hlen
    exact ⟨hpages.mp hfound.inPages, frags, hload, by simpa using hlen⟩
  · rintro ⟨hin, frags, hload, hnone⟩
    refine ⟨⟨e.base, npr.len.val⟩ :: frags, ⟨hpages.mpr hin, ?_⟩, ?_⟩
    · rw [short_load hh hS he hn, hload]
      rfl
    · exact short_payload hh hpos hS he (by omega) hnone

end Short

/-- The command, bio and frame of a call that issues its read. -/
theorem txpktOne_walks (k : Kernel) (ns : NvmeNs) (npr : NvpktXmit) (calls : Calls) (e : Sg)
    (rest : List Sg) (issued : Issues calls (e :: rest))
    (hpos : 1 ≤ npr.len.val) (hn : sglLength k npr = npr.len.val + k.sharedInfo)
    (hl : sglLength k npr < 2 ^ 32) (hinfo : k.sharedInfo ≤ e.len) :
    ∃ pre, (∀ ev ∈ pre, Quiet ev) ∧ nvpktIoctlTxpktOne k ns calls npr =
      (executeAndXmit calls (txpktCommand k ns npr)
        (bioLoop k calls npr.len.val (e :: rest) ⟨0, []⟩).bio
        (walkedSkb k e rest (sglLength k npr))).after pre := by
  have hS := k.sharedInfo_pos
  have hreach : Reaches k calls npr (e :: rest) := ⟨issued, by simp, by omega⟩
  rcases txpktOne_paths k ns calls npr with ⟨sgl, skb, pre, hsgl, hskb, hquiet, hrun⟩ | ⟨hno, _⟩
  · have hsame : sgl = e :: rest := by
      have := hsgl.sglAlloc
      rw [issued.sglAlloc] at this
      exact (Option.some.inj this).symm
    subst hsame
    rw [skbFromSgvec_eq k calls e rest _ issued.buildSkb hl (by omega) (by omega)] at hskb
    simp only [Except.ok.injEq, Option.some.injEq] at hskb
    rw [← hskb] at hrun
    exact ⟨pre, hquiet, hrun⟩
  · exact absurd hreach (hno _)

/-! ### A packet at least as long as it -/

/-- Its read spares the shared info, so what was built is sent. -/
theorem long_sent (lay : InfoLayout Byte k) (ns : NvmeNs) (npr : NvpktXmit) (c : RwCommand)
    (disk memory : Nat → Byte) (e : Sg) (rest : List Sg)
    (alloc : SglAllocated k (sglLength k npr) (e :: rest))
    (physical : ∀ s ∈ e :: rest, s.base.page * k.pageSize < 2 ^ 64)
    (pages : npr.len.val + k.sharedInfo ≤ k.pageSize * (k.maxSkbFrags + 1))
    (hn : sglLength k npr = npr.len.val + k.sharedInfo) (hinfo : k.sharedInfo ≤ e.len)
    (hS : k.sharedInfo ≤ npr.len.val) :
    sentSegs lay (walkedSkb k e rest (sglLength k npr))
        (afterRead lay ns disk memory c (mappedBio k e rest npr.len.val)
          (walkedSkb k e rest (sglLength k npr))) =
      some (walkedSkb k e rest (sglLength k npr)).segs := by
  have hl := alloc.fits
  have hpage := k.pageSize_pos
  have hpos := k.sharedInfo_pos
  have hfrags : (walkedSkb k e rest (sglLength k npr)).frags = rest := walkedSkb_frags alloc
  have htotal := alloc.total_eq
  rw [total_cons] at htotal
  apply sentSegs_built lay _ memory
  · have hcount : (e :: rest).length ≤ k.maxSkbFrags + 1 := (alloc.length_le_iff _).mpr (by omega)
    rw [hfrags]
    exact Nat.le_of_succ_le_succ hcount
  · intro s hs
    rw [hfrags] at hs
    have hmem : s ∈ e :: rest := List.mem_cons_of_mem e hs
    have hlen := alloc.len_bounds s hmem
    exact ⟨physical s hmem, by rw [alloc.offsets s hmem]; omega, by omega⟩
  · intro i hi
    refine fill_frame _ _ _ _ _ _ _ (fun j _ hja => ?_)
    have houtside := mappedBio_outside alloc (by omega) (by omega) (by omega) hja
    rw [infoAddr, walkedSkb_headlen k e rest _ (by omega) (by omega) (by omega)] at houtside
    simp only [OutsideInfo, Kernel.byteAddr, walkedSkb] at houtside
    omega

/-- It never carries its payload. -/
theorem payload_lost (lay : InfoLayout Byte k) (ns : NvmeNs) (npr : NvpktXmit) (calls : Calls)
    (sgl : List Sg) (disk memory : Nat → Byte) (hS : k.sharedInfo ≤ npr.len.val)
    (pages : npr.len.val + k.sharedInfo ≤ k.pageSize * (k.maxSkbFrags + 1))
    (physical : ∀ e ∈ sgl, e.base.page * k.pageSize < 2 ^ 64)
    (alloc : SglAllocated k (sglLength k npr) sgl) (ok : Succeeds calls sgl) :
    ¬ PayloadCorrect lay ns npr disk memory sgl (nvpktIoctlTxpktOne k ns calls npr) := by
  have hS1 := k.sharedInfo_pos
  have hfrags := k.frags_lt
  obtain ⟨e, rest, rfl, hn, hl, _, _, hinfo⟩ := sgl_shape k npr sgl (by omega) alloc
  obtain ⟨pre, hquiet, hrun⟩ :=
    txpktOne_walks k ns npr calls e rest ok.toIssues (by omega) hn hl hinfo
  rw [bioLoop_eq k calls e rest _ ok.addPcPage (by omega) (by omega) (by omega)] at hrun
  rintro ⟨c, bio, skb, segs, hexec, hxmit, hfound, hp⟩
  rw [hrun, executeRq_mem hquiet] at hexec
  rw [hrun, devQueueXmit_mem hquiet] at hxmit
  obtain ⟨rfl, rfl⟩ := hexec
  obtain ⟨_, rfl⟩ := hxmit
  have hsent := hfound.sent
  rw [long_sent lay ns npr _ disk memory e rest alloc physical pages hn hinfo hS] at hsent
  obtain rfl := Option.some.inj hsent
  obtain ⟨a, ha, hunwritten⟩ := last_byte_unwritten k ns npr _ e rest alloc hn hl hS
  exact hunwritten (hp.written _ a (by omega) ha)

/-- Only a packet shorter than `struct skb_shared_info` can carry its payload. It does so
exactly when its read stays in its page and puts bytes over the shared info that leave it
without fragments. -/
theorem payload_correct_iff (k : Kernel) (lay : InfoLayout Byte k) (ns : NvmeNs) (npr : NvpktXmit)
    (calls : Calls) (sgl : List Sg) (disk memory : Nat → Byte) (hh : k.host = .little)
    (hpos : 1 ≤ npr.len.val)
    (pages : npr.len.val + k.sharedInfo ≤ k.pageSize * (k.maxSkbFrags + 1))
    (physical : ∀ e ∈ sgl, e.base.page * k.pageSize < 2 ^ 64)
    (alloc : SglAllocated k (sglLength k npr) sgl) (ok : Succeeds calls sgl) :
    PayloadCorrect lay ns npr disk memory sgl (nvpktIoctlTxpktOne k ns calls npr) ↔
      npr.len.val < k.sharedInfo ∧ readBytes ns npr ≤ k.pageSize ∧
        ∃ frags, lay.load (infoAfterRead lay ns npr disk memory sgl) = some frags ∧
          total frags = 0 := by
  have hfrags := k.frags_lt
  have hS2 := k.two_sharedInfo_le
  by_cases hS : npr.len.val < k.sharedInfo
  · obtain ⟨e, rest, rfl, hn, hl, _, _, hinfo⟩ := sgl_shape k npr sgl (by omega) alloc
    obtain ⟨e', hsingle, he, hoffset⟩ := alloc.singleton (by omega) (by omega)
    obtain ⟨rfl, rfl⟩ := List.cons.inj hsingle
    obtain ⟨pre, hquiet, hrun⟩ :=
      txpktOne_walks k ns npr calls e [] ok.toIssues hpos hn hl hinfo
    rw [bioLoop_eq k calls e [] _ ok.addPcPage (by omega) (by omega) (by omega)] at hrun
    have hfits := alloc.fits
    have hshort := short_payload_iff ns lay disk memory hh hpos hS (by omega) hn hoffset (by omega)
    rw [and_iff_right hS, ← hshort]
    constructor
    · rintro ⟨c, bio, skb, segs, hexec, hxmit, hfound, hp⟩
      rw [hrun, executeRq_mem hquiet] at hexec
      rw [hrun, devQueueXmit_mem hquiet] at hxmit
      obtain ⟨rfl, rfl⟩ := hexec
      obtain ⟨_, rfl⟩ := hxmit
      exact ⟨segs, hfound, hp⟩
    · rintro ⟨segs, hfound, hp⟩
      refine ⟨_, _, _, segs, ?_, ?_, hfound, hp⟩
      · rw [hrun, executeRq_mem hquiet]
        exact ⟨rfl, rfl⟩
      · rw [hrun, devQueueXmit_mem hquiet]
        exact ⟨ok.cancelled, rfl⟩
  · have hlost := payload_lost lay ns npr calls sgl disk memory (by omega) pages physical alloc ok
    exact ⟨fun hp => absurd hp hlost, fun h => absurd h.1 hS⟩

/-- A list for `n` bytes of one page. -/
def onePage (n : Nat) : List Sg := [⟨⟨7, 0⟩, n⟩]

/-- A device with 64 bytes at its block 1 and nothing behind them. -/
def oneShort (i : Nat) : Nat := if i < 576 then i % 256 else 0

/-- The 64-byte packet of that block is sent as it is: the zeros behind it are no fragments. -/
theorem payload_correct_64 :
    PayloadCorrect x86Info ⟨1, 9⟩ ⟨64, 1, 0⟩ oneShort (fun _ => 0) (onePage 384)
      (nvpktIoctlTxpktOne x86_64 ⟨1, 9⟩ (succeedingCalls (onePage 384)) ⟨64, 1, 0⟩) :=
  (payload_correct_iff x86_64 x86Info ⟨1, 9⟩ ⟨64, 1, 0⟩ (succeedingCalls (onePage 384))
    (onePage 384) oneShort _ rfl (by decide) (by decide) (by decide)
    ⟨by decide, by decide, by decide, by decide⟩ (succeedingCalls_succeeds _)).mpr
    ⟨by decide, by decide, [], x86Info_zeros (by decide), rfl⟩

/-- The 1024-byte packet that `tools/xmit-pkt.c` asks for, on a 512-byte namespace,
is sent with bytes the device never wrote. -/
theorem payload_lost_1024 :
    SglAllocated x86_64 (sglLength x86_64 ⟨1024, 1, 0⟩) (onePage 1344) ∧
      Succeeds (succeedingCalls (onePage 1344)) (onePage 1344) ∧
      ¬ PayloadCorrect x86Info ⟨1, 9⟩ ⟨1024, 1, 0⟩ (fun i => i % 256) (fun _ => 0) (onePage 1344)
        (nvpktIoctlTxpktOne x86_64 ⟨1, 9⟩ (succeedingCalls (onePage 1344)) ⟨1024, 1, 0⟩) := by
  have alloc : SglAllocated x86_64 (sglLength x86_64 ⟨1024, 1, 0⟩) (onePage 1344) :=
    ⟨by decide, by decide, by decide, by decide⟩
  have ok := succeedingCalls_succeeds (onePage 1344)
  exact ⟨alloc, ok, payload_lost x86Info ⟨1, 9⟩ ⟨1024, 1, 0⟩ _ _ _ _ (by decide) (by decide)
    (by decide) alloc ok⟩

end Nvpkt.Guarantees.TxpktPayload
