import Nvpkt.Guarantees.SgWalk
import Nvpkt.Guarantees.TxpktPaths

/-!
# The frame `skb_from_sgvec` builds

Over a list that covers `length`, the walk leaves an `sk_buff` whose linear part is the
first entry without the shared info at its end and whose fragments are the other
entries, the last of them shortened to `length` (`sg_view`).
-/

set_option autoImplicit false

namespace Nvpkt.Guarantees.SgView
open Nvpkt.Library.SegmentList
open Nvpkt.Source.KernelObjects Nvpkt.Source.TxpktOne
open Nvpkt.Guarantees.SgWalk Nvpkt.Guarantees.TxpktPaths

/-- `skb` is a view of the first `length` bytes of the list `e :: rest`. -/
structure Views (k : Kernel) (e : Sg) (rest : List Sg) (length : Nat) (skb : SkBuff) : Prop where
  len_eq : skb.len = length - k.sharedInfo
  dataLen_eq : skb.dataLen = total skb.frags
  linear : skb.segs = ⟨e.base, min e.len length - k.sharedInfo⟩ :: skb.frags
  /-- Fragment `i` is entry `i + 1`, as far as the bytes in front of it leave of `length`. -/
  frag : ∀ i, skb.frags[i]? = if total ((e :: rest).take (i + 1)) < length then
    (e :: rest)[i + 1]?.map fun s => ⟨s.base, min s.len (length - total ((e :: rest).take (i + 1)))⟩
    else none
  frags_le : skb.frags.length ≤ k.maxSkbFrags
  consumed : min e.len length + total skb.frags = length
  content : ∀ {Byte : Type} (memory : Nat → Byte), gather k.byteAddr memory skb.segs =
    (gather k.byteAddr memory (e :: rest)).take (min e.len length - k.sharedInfo) ++
      ((gather k.byteAddr memory (e :: rest)).take length).drop (min e.len length)

section View
variable {k : Kernel} {e : Sg} {rest : List Sg} {length : Nat}

theorem walkedSkb_frag (k : Kernel) (e : Sg) (rest : List Sg) (length i : Nat) :
    (walkedSkb k e rest length).frags[i]? =
      if total ((e :: rest).take (i + 1)) < length then
        (e :: rest)[i + 1]?.map fun s =>
          ⟨s.base, min s.len (length - total ((e :: rest).take (i + 1)))⟩
      else none := by
  have htotal : total ((e :: rest).take (i + 1)) = e.len + total (rest.take i) := by
    rw [List.take_succ_cons, total_cons]
  rw [htotal, List.getElem?_cons_succ]
  dsimp only [walkedSkb]
  rw [clip_getElem?, Nat.sub_sub]
  congr 1
  rw [Nat.lt_sub_iff_add_lt']

/-- The walk makes no more fragments than there are entries behind the first. -/
theorem walkedSkb_frags_le : (walkedSkb k e rest length).frags.length ≤ rest.length := by
  have hend := walkedSkb_frag k e rest length rest.length
  rw [← List.getElem?_eq_none_iff, hend]
  split
  · rw [List.getElem?_cons_succ, List.getElem?_eq_none (Nat.le_refl _), Option.map_none]
  · rfl

theorem walkedSkb_content {Byte : Type} (memory : Nat → Byte) (hlt : length < 2 ^ 32)
    (hpos : 0 < length) (hinfo : k.sharedInfo ≤ min e.len length) :
    gather k.byteAddr memory (walkedSkb k e rest length).segs =
      (gather k.byteAddr memory (e :: rest)).take (min e.len length - k.sharedInfo) ++
        ((gather k.byteAddr memory (e :: rest)).take length).drop (min e.len length) := by
  rw [walkedSkb_segs k e rest length hlt hpos hinfo, clip_cons _ _ _ hpos, gather_trimHead,
    ← clip_cons _ _ _ hpos, gather_clip, List.take_take]
  congr 2
  dsimp only
  omega

theorem walkedSkb_views (hcount : rest.length ≤ k.maxSkbFrags) (hlt : length < 2 ^ 32)
    (hpos : 0 < length) (hinfo : k.sharedInfo ≤ min e.len length)
    (hcover : length ≤ total (e :: rest)) : Views k e rest length (walkedSkb k e rest length) := by
  have hclip := total_clip (e :: rest) length
  have hfrags := total_clip rest (length - e.len)
  have hcons := walkedSkb_segs k e rest length hlt hpos hinfo
  rw [clip_cons _ _ _ hpos, trimHead_cons] at hcons
  rw [total_cons] at hcover
  exact
    { len_eq := by dsimp only [walkedSkb]; rw [hclip, total_cons, Nat.min_eq_left hcover]
      dataLen_eq := rfl
      linear := hcons
      frag := walkedSkb_frag k e rest length
      frags_le := walkedSkb_frags_le.trans hcount
      consumed := by dsimp only [walkedSkb]; omega
      content := fun memory => walkedSkb_content memory hlt hpos hinfo }

end View

/-- With an `sk_buff` to build on, the walk over a list that an `sk_buff` can hold returns
0 with a view of its first `length` bytes; it has walked `length` bytes and numbered the
fragments one after the other. -/
theorem sg_view (k : Kernel) (calls : Calls) (e : Sg) (rest : List Sg) (length : Nat)
    (built : calls.buildSkb = true) (hcount : (e :: rest).length ≤ k.maxSkbFrags + 1)
    (hfirst : k.sharedInfo ≤ e.len) (hlow : k.sharedInfo ≤ length)
    (hcover : length ≤ total (e :: rest)) (hlt : length < 2 ^ 32) :
    ∃ skb, (skbFromSgvec k calls (e :: rest) length).1 = .ok (some skb) ∧
      sgvecLoop k calls.buildSkb length (e :: rest) ⟨0, 0, none⟩ =
        some ⟨skb.frags.length, length, some skb⟩ ∧
      Views k e rest length skb := by
  have hS := k.sharedInfo_pos
  have hinfo : k.sharedInfo ≤ min e.len length := Nat.le_min.mpr ⟨hfirst, hlow⟩
  have hloop := sgvecLoop_eq k e rest length hlt (by omega) hinfo
  rw [total_clip, Nat.min_eq_left hcover] at hloop
  refine ⟨walkedSkb k e rest length, ?_, ?_, ?_⟩
  · rw [skbFromSgvec_eq k calls e rest length built hlt (by omega) hinfo]
  · rw [built]
    exact hloop
  · exact walkedSkb_views (Nat.le_of_succ_le_succ hcount) hlt (by omega) hinfo hcover

/-- 5000 bytes of three pages take two of them. -/
theorem sg_view_5000 :
    let sgl : List Sg := [⟨⟨3, 0⟩, 4096⟩, ⟨⟨8, 0⟩, 4096⟩, ⟨⟨5, 0⟩, 100⟩]
    ∃ skb, (skbFromSgvec x86_64 (succeedingCalls sgl) sgl 5000).1 = .ok (some skb) ∧
      sgvecLoop x86_64 (succeedingCalls sgl).buildSkb 5000 sgl ⟨0, 0, none⟩ =
        some ⟨skb.frags.length, 5000, some skb⟩ ∧
      Views x86_64 ⟨⟨3, 0⟩, 4096⟩ [⟨⟨8, 0⟩, 4096⟩, ⟨⟨5, 0⟩, 100⟩] 5000 skb :=
  sg_view x86_64 (succeedingCalls _) _ _ 5000 rfl (by decide) (by decide) (by decide) (by decide)
    (by decide)

end Nvpkt.Guarantees.SgView
