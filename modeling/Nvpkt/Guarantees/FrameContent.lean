import Nvpkt.Guarantees.TxpktPayload

/-!
# What is in a transmitted frame

The frame of a TXPKT at least as long as `struct skb_shared_info` begins with the bytes of
the read, and its last `sizeof(struct skb_shared_info)` bytes are those that the freshly
allocated pages held: the bio was mapped without them (`frame_content`). Nothing clears
the pages, so every such packet carries that many bytes of earlier kernel memory to the
wire. The read of a shorter packet overwrites the shared info (`TxpktPayload`).
-/

set_option autoImplicit false

namespace Nvpkt.Guarantees.FrameContent
open Nvpkt.Library.SegmentList Nvpkt.Library.FixedWidth
open Nvpkt.Source.KernelObjects Nvpkt.Source.SharedInfo Nvpkt.Source.TxpktOne
open Nvpkt.Guarantees.SgWalk Nvpkt.Guarantees.TxpktPaths Nvpkt.Guarantees.TxpktPayload

variable {Byte : Type}

/-- Bytes at the front of the frame that the bio covers and the device stores. -/
def intact (k : Kernel) (ns : NvmeNs) (npr : NvpktXmit) : Nat :=
  min (npr.len.val - k.sharedInfo) (transferBytes ns (txpktCommand k ns npr))

/-- A read into `bio` leaves in the frame the bytes it transfers and, behind them, what
the pages held. -/
structure Carries (Byte : Type) (k : Kernel) (ns : NvmeNs) (npr : NvpktXmit) (bio : List Sg)
    (skb : SkBuff) : Prop where
  length : total skb.segs = npr.len.val
  content : ∀ src memory : Nat → Byte,
    gather k.byteAddr
        (fill k.byteAddr src (transferBytes ns (txpktCommand k ns npr)) bio 0 memory) skb.segs =
      (List.range (intact k ns npr)).map src ++
        (gather k.byteAddr memory skb.segs).drop (intact k ns npr)

section Walked
variable {k : Kernel} {npr : NvpktXmit} {e : Sg} {rest : List Sg}

theorem walkedSkb_total (hn : sglLength k npr = npr.len.val + k.sharedInfo)
    (hl : sglLength k npr < 2 ^ 32) (htotal : total (e :: rest) = sglLength k npr)
    (hinfo : k.sharedInfo ≤ e.len) :
    total (walkedSkb k e rest (sglLength k npr)).segs = npr.len.val := by
  have hpos := k.sharedInfo_pos
  have he : e.len ≤ sglLength k npr := by
    rw [total_cons] at htotal
    omega
  have hclip := total_clip (e :: rest) (sglLength k npr)
  rw [clip_cons _ _ _ (by omega), total_cons] at hclip
  simp only at hclip
  rw [walkedSkb_segs k e rest _ hl (by omega) (by omega), clip_cons _ _ _ (by omega),
    trimHead_cons, total_cons]
  simp only
  omega

/-- The bio is the frame without as many bytes at its end as the shared info has. -/
theorem mappedBio_overlaid (hn : sglLength k npr = npr.len.val + k.sharedInfo)
    (hl : sglLength k npr < 2 ^ 32) (alloc : SglAllocated k (sglLength k npr) (e :: rest))
    (hinfo : k.sharedInfo ≤ e.len) (hS : k.sharedInfo ≤ npr.len.val) :
    Overlaid k.byteAddr (mappedBio k e rest npr.len.val)
      (walkedSkb k e rest (sglLength k npr)).segs (npr.len.val - k.sharedInfo) := by
  have hpos := k.sharedInfo_pos
  have htotal := alloc.total_eq
  have hskb := walkedSkb_addr k e rest _ hl (by omega) htotal hinfo
  have he : e.len = min k.pageSize (sglLength k npr) := alloc.head_len
  constructor
  · intro i hi
    rw [hskb i (by omega), mappedBio_trimHead k e rest _ (by omega) (by omega) (by omega),
      clip_cons _ _ _ (by omega), addr?_trimHead _ _ _ _ _ (by simp only; omega),
      ← clip_cons _ _ _ (by omega), addr?_clip]
    simp only
    -- the two cut the shared info out at the same place, unless the list is one entry
    by_cases hlong : e.len ≤ npr.len.val
    · rw [Nat.min_eq_left hlong, if_pos (by split <;> omega)]
    · rw [if_pos (show i < min e.len npr.len.val - k.sharedInfo by omega), if_pos (by omega),
        if_pos (by omega)]
  · intro i a hi ha j hj
    have hil : i < npr.len.val := by
      rw [← walkedSkb_total hn hl htotal hinfo]
      by_contra hge
      rw [(addr?_eq_none_iff k.byteAddr _ i).mpr (by omega)] at ha
      cases ha
    rw [hskb i (by omega)] at ha
    have hmapped := mappedBio_total k e rest npr.len.val (by omega) (by omega) (by omega)
    have hjl : j < npr.len.val - k.sharedInfo := by
      rw [← hmapped]
      by_contra hge
      rw [(addr?_eq_none_iff k.byteAddr _ j).mpr (by omega)] at hj
      cases hj
    obtain ⟨w, hw, hwa, hwi⟩ :=
      mappedBio_addr k e rest npr.len.val (by omega) (by omega) (by omega) j a hj
    have hsame := alloc.separated.addr?_injective _ _ a ha hwa
    split at hsame <;> split at hwi <;> omega

theorem mappedBio_separated (hl : sglLength k npr < 2 ^ 32)
    (hn : sglLength k npr = npr.len.val + k.sharedInfo)
    (alloc : SglAllocated k (sglLength k npr) (e :: rest)) (hinfo : k.sharedInfo ≤ e.len)
    (hS : k.sharedInfo ≤ npr.len.val) :
    Separated k.byteAddr (mappedBio k e rest npr.len.val) := by
  have hpos := k.sharedInfo_pos
  rw [mappedBio_trimHead k e rest _ (by omega) (by omega) (by omega)]
  exact (alloc.separated.clip _).trimHead _

/-- The read stays in the pages of the list. -/
theorem mappedBio_inPages (ns : NvmeNs) (c : RwCommand)
    (hl : sglLength k npr < 2 ^ 32) (hn : sglLength k npr = npr.len.val + k.sharedInfo)
    (alloc : SglAllocated k (sglLength k npr) (e :: rest)) (hinfo : k.sharedInfo ≤ e.len)
    (hS : k.sharedInfo ≤ npr.len.val) {a : Nat}
    (hw : Written k ns c (mappedBio k e rest npr.len.val) a) :
    ∃ s ∈ e :: rest, s.base.page * k.pageSize ≤ a ∧ a < (s.base.page + 1) * k.pageSize := by
  have hpos := k.sharedInfo_pos
  obtain ⟨i, -, hi⟩ := hw
  obtain ⟨w, -, hwa, -⟩ := mappedBio_addr k e rest _ (by omega) (by omega) (by omega) i a hi
  obtain ⟨s, hs, j, hj, rfl⟩ := addr?_mem k.byteAddr _ w a hwa
  have hlen := alloc.len_bounds s hs
  refine ⟨s, hs, ?_⟩
  rw [Nat.succ_mul]
  simp only [Kernel.byteAddr, alloc.offsets s hs]
  omega

/-- Writing the shared info changes no byte of the frame. -/
theorem gather_built {Byte : Type} (lay : InfoLayout Byte k) (memory : Nat → Byte)
    (hl : sglLength k npr < 2 ^ 32) (hn : sglLength k npr = npr.len.val + k.sharedInfo)
    (alloc : SglAllocated k (sglLength k npr) (e :: rest)) (hinfo : k.sharedInfo ≤ e.len) :
    gather k.byteAddr (builtMemory lay (walkedSkb k e rest (sglLength k npr)) memory)
        (walkedSkb k e rest (sglLength k npr)).segs =
      gather k.byteAddr memory (walkedSkb k e rest (sglLength k npr)).segs := by
  have hpos := k.sharedInfo_pos
  have helen := alloc.head_len
  apply gather_congr
  intro i a ha
  have hi : i < sglLength k npr - k.sharedInfo := by
    rw [hn, Nat.add_sub_cancel, ← walkedSkb_total hn hl alloc.total_eq hinfo]
    by_contra hge
    rw [(addr?_eq_none_iff k.byteAddr _ i).mpr (by omega)] at ha
    cases ha
  have houtside := walkedSkb_outside alloc hl (by omega) hinfo hi ha
  apply builtMemory_outside
  rw [infoAddr, walkedSkb_headlen k e rest _ hl (by omega) (by omega)]
  simp only [OutsideInfo, Kernel.byteAddr, walkedSkb] at houtside ⊢
  omega

end Walked

/-- The bio and the frame of a packet, every page of the bio added in full. -/
theorem walked_carries (k : Kernel) (ns : NvmeNs) (npr : NvpktXmit) (e : Sg) (rest : List Sg)
    (calls : Calls) (full : ∀ j n, calls.addPcPage j n = n)
    (hn : sglLength k npr = npr.len.val + k.sharedInfo) (hl : sglLength k npr < 2 ^ 32)
    (alloc : SglAllocated k (sglLength k npr) (e :: rest)) (hinfo : k.sharedInfo ≤ e.len)
    (hS : k.sharedInfo ≤ npr.len.val) :
    Carries Byte k ns npr (bioLoop k calls npr.len.val (e :: rest) ⟨0, []⟩).bio
      (walkedSkb k e rest (sglLength k npr)) := by
  have htotal := walkedSkb_total hn hl alloc.total_eq hinfo
  have hpos := k.sharedInfo_pos
  rw [bioLoop_eq k calls e rest _ full (by omega) (by omega) (by omega)]
  refine ⟨htotal, fun src memory => ?_⟩
  have hover := mappedBio_overlaid hn hl alloc hinfo hS
  have hsep := mappedBio_separated hl hn alloc hinfo hS
  exact gather_fill _ _ _ _ _ _ _ hsep hover (by omega)

/-- What a call that issues its read and hands its frame on has on the wire: the device's
bytes, and behind them what the pages held. -/
theorem frame_content (k : Kernel) (lay : InfoLayout Byte k) (ns : NvmeNs) (npr : NvpktXmit)
    (calls : Calls) (sgl : List Sg) (disk memory : Nat → Byte) (hh : k.host = .little)
    (hS : k.sharedInfo ≤ npr.len.val)
    (pages : npr.len.val + k.sharedInfo ≤ k.pageSize * (k.maxSkbFrags + 1))
    (physical : ∀ e ∈ sgl, e.base.page * k.pageSize < 2 ^ 64)
    (alloc : SglAllocated k (sglLength k npr) sgl) (issued : Issues calls sgl)
    (full : ∀ j n, calls.addPcPage j n = n) (c : RwCommand) (bio : List Sg) (skb : SkBuff)
    (hread : .executeRq c bio ∈ (nvpktIoctlTxpktOne k ns calls npr).trace)
    (hxmit : .devQueueXmit skb ∈ (nvpktIoctlTxpktOne k ns calls npr).trace) :
    Found lay ns disk memory sgl c bio skb skb.segs ∧
    frame lay ns disk memory c bio skb skb.segs =
      (List.range (intact k ns npr)).map (fun i => disk (npr.slba.val <<< ns.lbaShift + i)) ++
        (gather k.byteAddr memory skb.segs).drop (intact k ns npr) := by
  have hfrags := k.frags_lt
  have hpos := k.sharedInfo_pos
  obtain ⟨e, rest, rfl, hn, hl, -, -, hinfo⟩ := sgl_shape k npr sgl (by omega) alloc
  obtain ⟨pre, hquiet, hrun⟩ :=
    txpktOne_walks k ns npr calls e rest issued (by omega) hn hl hinfo
  rw [hrun, executeRq_mem hquiet] at hread
  rw [hrun, devQueueXmit_mem hquiet] at hxmit
  obtain ⟨rfl, rfl⟩ := hread
  obtain ⟨-, rfl⟩ := hxmit
  have hcarries : Carries Byte k ns npr _ _ :=
    walked_carries k ns npr e rest calls full hn hl alloc hinfo hS
  rw [bioLoop_eq k calls e rest _ full (by omega) (by omega) (by omega)] at hcarries ⊢
  refine ⟨⟨fun a hw => mappedBio_inPages ns _ hl hn alloc hinfo hS hw, ?_⟩, ?_⟩
  · exact long_sent lay ns npr _ disk memory e rest alloc physical pages hn hinfo hS
  · rw [frame, afterRead, deviceRead, hcarries.content, gather_built lay memory hl hn alloc hinfo]
    congr 2
    funext i
    rw [readByte, slba_little k ns npr hh]

/-- Of the 1024-byte packet 704 bytes are the device's; the other 320 are those of the page. -/
theorem frame_content_1024 : ∃ c bio skb,
    Found x86Info ⟨1, 9⟩ (fun i => i % 256) (fun a => a % 7) (onePage 1344) c bio skb skb.segs ∧
    frame x86Info ⟨1, 9⟩ (fun i => i % 256) (fun a => a % 7) c bio skb skb.segs =
      (List.range 704).map (fun i => (512 + i) % 256) ++
        (gather x86_64.byteAddr (fun a => a % 7) skb.segs).drop 704 :=
  ⟨_, _, _, frame_content x86_64 x86Info ⟨1, 9⟩ ⟨1024, 1, 0⟩ (succeedingCalls (onePage 1344))
    (onePage 1344) (fun i => i % 256) (fun a => a % 7) rfl (by decide) (by decide) (by decide)
    ⟨by decide, by decide, by decide, by decide⟩ (succeedingCalls_succeeds _).toIssues
    (fun _ _ => rfl) (txpktCommand x86_64 ⟨1, 9⟩ ⟨1024, 1, 0⟩) [⟨⟨7, 0⟩, 704⟩]
    { data := ⟨7, 0⟩, len := 1024, dataLen := 0, frags := [] } (by decide) (by decide)⟩

end Nvpkt.Guarantees.FrameContent
