import Mathlib.Data.ZMod.Defs
import Nvpkt.Guarantees.TxpktPayload

/-!
# Which lengths a TXPKT takes on

`nvpkt_ioctl_txpkt_one` does not look at `npr.len`. What `sgl_alloc` or `build_skb`
turns down is left early; every other length is carried only if the pages of the list
fit into the fragments of an `sk_buff`, `dma_len` stays above zero and the block count
has sixteen bits (`admitted_iff`).
-/

set_option autoImplicit false

namespace Nvpkt.Guarantees.TxpktAdmission
open Nvpkt.Library.SegmentList Nvpkt.Library.FixedWidth
open Nvpkt.Source.KernelObjects Nvpkt.Source.TxpktOne
open Nvpkt.Guarantees.SgWalk Nvpkt.Guarantees.TxpktPaths Nvpkt.Guarantees.TxpktPayload

/-- One of the two errors in front of the assignment to `skb->dev`. -/
def FailsEarly (k : Kernel) (calls : Calls) (npr : NvpktXmit) : Prop :=
  calls.sglAlloc = none ∨ ∃ sgl e, calls.sglAlloc = some sgl ∧
    (skbFromSgvec k calls sgl (sglLength k npr)).1 = .error e

/-- Nothing is cut off or wraps around on the way to the command. -/
structure Carries (k : Kernel) (ns : NvmeNs) (calls : Calls) (npr : NvpktXmit) (sgl : List Sg) :
    Prop where
  sum : npr.len.val + k.sharedInfo < 2 ^ 64
  skb : ∃ skb, (skbFromSgvec k calls sgl (sglLength k npr)).1 = .ok (some skb) ∧
    skb.frags.length ≤ k.maxSkbFrags
  put : ∀ e ∈ sgl.head?, k.sharedInfo ≤ wrap 32 (min e.len (sglLength k npr))
  /-- `dma_len` of the first iteration, if `blk_rq_map_from_sgl` comes to one. -/
  dma : calls.allocRequest = none → calls.bioKmalloc = true → 0 < npr.len.val →
    ∀ e ∈ sgl.head?, k.sharedInfo ≤ wrap 32 (min e.len npr.len.val)
  count : npr.len.val >>> ns.lbaShift < 2 ^ 16

def Admits (k : Kernel) (ns : NvmeNs) (calls : Calls) (npr : NvpktXmit) : Prop :=
  FailsEarly k calls npr ∨ ∃ sgl, calls.sglAlloc = some sgl ∧ Carries k ns calls npr sgl

section Admission
variable {k : Kernel} {ns : NvmeNs} {calls : Calls} {npr : NvpktXmit} {sgl : List Sg}

/-- A call that fails early returns its error and has not used the device. -/
theorem FailsEarly.ret (h : FailsEarly k calls npr) :
    (∃ e : Errno, (nvpktIoctlTxpktOne k ns calls npr).exit = .ret (-e.val)) ∧
      ∀ ev ∈ (nvpktIoctlTxpktOne k ns calls npr).trace, Quiet ev := by
  obtain hnone | ⟨sgl, e, hsgl, herror⟩ := h
  · rw [txpktOne_unlisted hnone]
    exact ⟨⟨ENOMEM, rfl⟩, fun ev hev => absurd hev List.not_mem_nil⟩
  · obtain ⟨hne, hpos, hb⟩ := skbFromSgvec_error_iff.mp ⟨e, herror⟩
    rw [txpktOne_failed hsgl (skbFromSgvec_failed hne hpos hb)]
    exact ⟨⟨ENOMEM, rfl⟩, by simp [Quiet]⟩

theorem failsEarly_iff (hsgl : calls.sglAlloc = some sgl) :
    FailsEarly k calls npr ↔
      sgl ≠ [] ∧ 0 < sglLength k npr ∧ calls.buildSkb = false := by
  rw [← skbFromSgvec_error_iff (k := k)]
  simp [FailsEarly, hsgl]

/-- The list has a page for each fragment and one for the linear part. -/
theorem frags_le_iff {e : Sg} {rest : List Sg} {length : Nat}
    (alloc : SglAllocated k length (e :: rest)) :
    (walkedSkb k e rest length).frags.length ≤ k.maxSkbFrags ↔
      length ≤ k.pageSize * (k.maxSkbFrags + 1) := by
  rw [walkedSkb_frags alloc, ← alloc.length_le_iff, List.length_cons, Nat.add_le_add_iff_right]

/-- A length whose sum does not wrap around, with a list and an `sk_buff` for it. -/
theorem carries_iff (hsgl : calls.sglAlloc = some sgl) (hbuilt : calls.buildSkb = true)
    (alloc : SglAllocated k (sglLength k npr) sgl) (hsum : npr.len.val + k.sharedInfo < 2 ^ 64) :
    Carries k ns calls npr sgl ↔
      npr.len.val + k.sharedInfo ≤ k.pageSize * (k.maxSkbFrags + 1) ∧
        (calls.allocRequest = none → calls.bioKmalloc = true →
          npr.len.val = 0 ∨ k.sharedInfo ≤ npr.len.val) ∧
        npr.len.val >>> ns.lbaShift < 2 ^ 16 := by
  have hS := k.sharedInfo_pos
  have hS2 := k.two_sharedInfo_le
  obtain ⟨e, rest, rfl, hn, hl, -, hlen, hinfo⟩ := sgl_shape k npr sgl hsum alloc
  have hskb := skbFromSgvec_eq k calls e rest (sglLength k npr) hbuilt hl (by omega) (by omega)
  have hfrags := frags_le_iff alloc
  have hdma : k.sharedInfo ≤ wrap 32 (min e.len npr.len.val) ↔ k.sharedInfo ≤ npr.len.val := by
    rw [wrap_of_lt (by omega)]
    omega
  constructor
  · intro h
    refine ⟨?_, ?_, h.count⟩
    · obtain ⟨skb, hsome, hle⟩ := h.skb
      rw [hskb] at hsome
      obtain rfl := Option.some.inj (Except.ok.inj hsome)
      exact hn ▸ hfrags.mp hle
    · intro hrequest hbio
      by_cases hzero : npr.len.val = 0
      · exact Or.inl hzero
      · exact Or.inr (hdma.mp (h.dma hrequest hbio (by omega) e rfl))
  · intro h
    obtain ⟨hfit, hlong, hcount⟩ := h
    refine
      { sum := hsum, skb := ⟨_, by rw [hskb], ?_⟩, put := ?_, dma := ?_, count := hcount }
    · exact hfrags.mpr (hn ▸ hfit)
    · intro first hfirst
      obtain rfl := Option.some.inj hfirst
      rw [wrap_of_lt (by omega)]
      omega
    · intro hrequest hbio hpos first hfirst
      obtain rfl := Option.some.inj hfirst
      exact hdma.mpr ((hlong hrequest hbio).resolve_left (by omega))

/-- `sgl_alloc` is asked for nothing exactly when the sum wraps around to 0. -/
theorem sglLength_pos_iff : 0 < sglLength k npr ↔ npr.len.val + k.sharedInfo ≠ 2 ^ 64 := by
  have hS := k.sharedInfo_pos
  have hS16 := k.sharedInfo_lt
  have hlen := npr.len.isLt
  rw [sglLength, wrap]
  omega

theorem ne_nil_of_length_pos (alloc : SglAllocated k (sglLength k npr) sgl)
    (hpos : 0 < sglLength k npr) : sgl ≠ [] := by
  intro hnil
  have htotal := alloc.total_eq
  rw [hnil, total_nil] at htotal
  omega

theorem admits_iff (hsgl : calls.sglAlloc = some sgl) :
    Admits k ns calls npr ↔ FailsEarly k calls npr ∨ Carries k ns calls npr sgl := by
  simp [Admits, hsgl]

/-- Without an `sk_buff` the call fails, unless it is asked for nothing. -/
theorem admits_unbuilt_iff (hsgl : calls.sglAlloc = some sgl) (hbuilt : calls.buildSkb = false)
    (alloc : SglAllocated k (sglLength k npr) sgl) :
    Admits k ns calls npr ↔ npr.len.val + k.sharedInfo ≠ 2 ^ 64 := by
  have hnot : ¬ Carries k ns calls npr sgl := by
    intro h
    obtain ⟨skb, hskb, _⟩ := h.skb
    rw [skbFromSgvec_built hskb] at hbuilt
    cases hbuilt
  rw [admits_iff hsgl, or_iff_left hnot, failsEarly_iff hsgl, ← sglLength_pos_iff]
  exact ⟨fun h => h.2.1, fun hpos => ⟨ne_nil_of_length_pos alloc hpos, hpos, hbuilt⟩⟩

theorem admits_built_iff (hsgl : calls.sglAlloc = some sgl) (hbuilt : calls.buildSkb = true)
    (alloc : SglAllocated k (sglLength k npr) sgl) :
    Admits k ns calls npr ↔
      npr.len.val + k.sharedInfo ≤ k.pageSize * (k.maxSkbFrags + 1) ∧
        (calls.allocRequest = none → calls.bioKmalloc = true →
          npr.len.val = 0 ∨ k.sharedInfo ≤ npr.len.val) ∧
        npr.len.val >>> ns.lbaShift < 2 ^ 16 := by
  have hfrags := k.frags_lt
  have hnot : ¬ FailsEarly k calls npr := by
    rw [failsEarly_iff hsgl, hbuilt]
    exact fun h => Bool.noConfusion h.2.2
  rw [admits_iff hsgl, or_iff_right hnot]
  by_cases hsum : npr.len.val + k.sharedInfo < 2 ^ 64
  · exact carries_iff hsgl hbuilt alloc hsum
  · exact ⟨fun h => absurd h.sum hsum, fun h => absurd h.1 (by omega)⟩

/-- Every 64-bit length is left early or carried, unless it takes more pages than an
`sk_buff` has fragments and its linear part, is shorter than the shared info that
`dma_len` leaves out, or has a block count of more than sixteen bits. -/
theorem admitted_iff (alloc : ∀ sgl, calls.sglAlloc = some sgl →
      SglAllocated k (sglLength k npr) sgl) :
    Admits k ns calls npr ↔
      calls.sglAlloc = none ∨
      (calls.buildSkb = false ∧ npr.len.val + k.sharedInfo ≠ 2 ^ 64) ∨
      (npr.len.val + k.sharedInfo ≤ k.pageSize * (k.maxSkbFrags + 1) ∧
        (calls.allocRequest = none → calls.bioKmalloc = true →
          npr.len.val = 0 ∨ k.sharedInfo ≤ npr.len.val) ∧
        npr.len.val >>> ns.lbaShift < 2 ^ 16) := by
  have hfrags := k.frags_lt
  cases hsgl : calls.sglAlloc with
  | none => exact ⟨fun _ => Or.inl rfl, fun _ => Or.inl (Or.inl hsgl)⟩
  | some sgl =>
    rw [or_iff_right (Option.some_ne_none sgl)]
    cases hbuilt : calls.buildSkb with
    | false =>
      rw [admits_unbuilt_iff hsgl hbuilt (alloc sgl hsgl)]
      constructor
      · exact fun hne => Or.inl ⟨rfl, hne⟩
      · intro h
        obtain h | h := h
        · exact h.2
        · omega
    | true =>
      rw [admits_built_iff hsgl hbuilt (alloc sgl hsgl)]
      exact (or_iff_right fun h => Bool.noConfusion h.1).symm

end Admission

/-- The 1024-byte packet of `tools/xmit-pkt.c` is taken on and carried. -/
theorem admits_1024 :
    Admits x86_64 ⟨1, 9⟩ (succeedingCalls (onePage 1344)) ⟨1024, 1, 0⟩ := by
  refine (admitted_iff fun sgl hsgl => ?_).mpr (by decide)
  obtain rfl := Option.some.inj hsgl
  exact ⟨by decide, by decide, by decide, by decide⟩

/-- A packet of 100 bytes is not, as `dma_len` becomes 100 - 320, nor is one of 100000
bytes, with 24 fragments in an `sk_buff` of 17, nor one whose sum wraps around to 64. -/
theorem not_admitted :
    ¬ Admits x86_64 ⟨1, 9⟩ (succeedingCalls (onePage 420)) ⟨100, 1, 0⟩ ∧
    ¬ Admits x86_64 ⟨1, 9⟩ (succeedingCalls ((List.range 25).map fun i =>
      ⟨⟨i, 0⟩, if i = 24 then 2016 else 4096⟩)) ⟨100000, 1, 0⟩ ∧
    ¬ Admits x86_64 ⟨1, 9⟩ (succeedingCalls (onePage 64)) ⟨2 ^ 64 - 256, 1, 0⟩ := by
  refine ⟨?_, ?_, ?_⟩
  · rw [admits_built_iff rfl rfl ⟨by decide, by decide, by decide, by decide⟩]
    decide
  · rw [admits_built_iff rfl rfl ⟨by decide, by decide, by decide, by decide⟩]
    decide
  · rw [admits_built_iff rfl rfl ⟨by decide, by decide, by decide, by decide⟩]
    decide

end Nvpkt.Guarantees.TxpktAdmission
