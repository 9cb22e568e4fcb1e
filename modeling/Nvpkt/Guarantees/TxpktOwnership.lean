import Mathlib.Data.List.Nodup
import Nvpkt.Guarantees.TxpktPayload
import Nvpkt.Library.Ledger

/-!
# Who frees what in TXPKT

Every event of a call acquires objects or gives them up: the scatterlist array and
its pages come from `sgl_alloc`, the pages leave with the frame, a bio belongs to its
request once it is appended. The request is given back on every path. The array is
given back on none, so a sequence of calls is balanced exactly when `sgl_alloc` fails
in each of them (`txpkt_balanced_iff`). `call_leaves` says for each path what else it
leaves behind.
-/

set_option autoImplicit false

namespace Nvpkt.Guarantees.TxpktOwnership
open Nvpkt.Library.SegmentList Nvpkt.Library.FixedWidth Nvpkt.Library.Ledger
open Nvpkt.Source.KernelObjects Nvpkt.Source.TxpktOne
open Nvpkt.Guarantees.TxpktPaths Nvpkt.Guarantees.SgWalk Nvpkt.Guarantees.TxpktPayload

inductive Object where
  | sglArray
  | page (id : Nat)
  | skb
  | request
  | bio
  | miter
  deriving DecidableEq, Repr

def pagesOf (segs : List Sg) : List Object := segs.map fun e => .page e.base.page

/-- What an event acquires, releases and hands over. -/
def moves : Event → List (Move Object)
  | .sglAlloc sgl => ⟨.acquire, .sglArray⟩ :: (pagesOf sgl).map (Move.mk .acquire)
  | .miterStart => [⟨.acquire, .miter⟩]
  | .miterStop => [⟨.release, .miter⟩]
  | .buildSkb _ => [⟨.acquire, .skb⟩]
  | .allocRequest => [⟨.acquire, .request⟩]
  | .bioKmalloc => [⟨.acquire, .bio⟩]
  | .appendBio _ => [⟨.handOver, .bio⟩]
  | .executeRq _ _ => []
  | .devQueueXmit skb => ⟨.handOver, .skb⟩ :: (pagesOf skb.segs).map (Move.mk .handOver)
  | .freeRequest => [⟨.release, .request⟩]

/-- The moves of one call. -/
def callMoves (k : Kernel) (ns : NvmeNs) (calls : Calls) (npr : NvpktXmit) : List (Move Object) :=
  (nvpktIoctlTxpktOne k ns calls npr).trace.flatMap moves

/-- The moves of one call after another; each call has objects of its own. -/
def sequenceMoves (k : Kernel) (ns : NvmeNs) :
    Nat → List (Calls × NvpktXmit) → List (Move (Nat × Object))
  | _, [] => []
  | i, (calls, npr) :: rest =>
    (callMoves k ns calls npr).map (fun m => ⟨m.kind, (i, m.obj)⟩) ++
      sequenceMoves k ns (i + 1) rest

section Sequence
variable {k : Kernel} {ns : NvmeNs}

/-- No event gives the scatterlist array up. -/
theorem sglArray_kept (ev : Event) : ∀ m ∈ moves ev, m.obj = .sglArray → m.kind = .acquire := by
  cases ev <;> simp [moves, pagesOf]

theorem callMoves_none {calls : Calls} (h : calls.sglAlloc = none) (npr : NvpktXmit) :
    callMoves k ns calls npr = [] := by
  rw [callMoves, txpktOne_unlisted h]
  rfl

/-- Where there is a scatterlist, its array is acquired. -/
theorem sglArray_acquired (k : Kernel) (ns : NvmeNs) {calls : Calls}
    (h : calls.sglAlloc ≠ none) (npr : NvpktXmit) :
    ⟨.acquire, .sglArray⟩ ∈ callMoves k ns calls npr := by
  obtain ⟨sgl, hsgl⟩ := Option.ne_none_iff_exists'.mp h
  have hmem : .sglAlloc sgl ∈ (nvpktIoctlTxpktOne k ns calls npr).trace := by
    simp only [nvpktIoctlTxpktOne, hsgl]
    split <;> simp [TxResult.after]
  exact List.mem_flatMap.mpr ⟨_, hmem, List.mem_cons_self⟩

theorem sequence_kept (i j : Nat) (calls : List (Calls × NvpktXmit)) :
    ∀ m ∈ sequenceMoves k ns i calls, m.obj = (j, .sglArray) → m.kind = .acquire := by
  induction calls generalizing i with
  | nil => exact fun m hm => absurd hm List.not_mem_nil
  | cons c calls ih =>
    intro m hm hobj
    obtain hm | hm := List.mem_append.mp hm
    · obtain ⟨m', hm', rfl⟩ := List.mem_map.mp hm
      obtain ⟨ev, -, hev⟩ := List.mem_flatMap.mp hm'
      exact sglArray_kept ev m' hev (Prod.ext_iff.mp hobj).2
    · exact ih (i + 1) m hm hobj

theorem sequence_acquired (k : Kernel) (ns : NvmeNs) (i : Nat)
    (calls : List (Calls × NvpktXmit)) (c : Calls × NvpktXmit) (hc : c ∈ calls)
    (hsgl : c.1.sglAlloc ≠ none) :
    ∃ j, ∃ m ∈ sequenceMoves k ns i calls, m.obj = (j, .sglArray) := by
  induction calls generalizing i with
  | nil => exact absurd hc List.not_mem_nil
  | cons c' calls ih =>
    obtain rfl | hc := List.mem_cons.mp hc
    · have hacq := sglArray_acquired k ns hsgl c.2
      exact ⟨i, _, List.mem_append_left _ (List.mem_map_of_mem hacq), rfl⟩
    · obtain ⟨j, m, hm, hobj⟩ := ih (i + 1) hc
      exact ⟨j, m, List.mem_append_right _ hm, hobj⟩

/-- Any number of calls is balanced exactly when no call gets a scatterlist. -/
theorem txpkt_balanced_iff (k : Kernel) (ns : NvmeNs) (calls : List (Calls × NvpktXmit)) :
    Balanced (sequenceMoves k ns 0 calls) ↔ ∀ c ∈ calls, c.1.sglAlloc = none := by
  constructor
  · intro h c hc
    by_contra hsgl
    obtain ⟨j, hacq⟩ := sequence_acquired k ns 0 calls c hc hsgl
    exact absurd (track_kept (sequence_kept 0 j calls) (h _) (Or.inr hacq)) (by decide)
  · intro h
    generalize 0 = i
    induction calls generalizing i with
    | nil => exact balanced_nil
    | cons c calls ih =>
      rw [List.forall_mem_cons] at h
      refine Balanced.append ?_ (ih h.2 (i + 1))
      rw [callMoves_none h.1]
      exact balanced_nil

end Sequence

/-! ## What a single call leaves -/

/-- The frame is handed on. -/
def transmits (calls : Calls) : Bool :=
  calls.buildSkb && calls.allocRequest.isNone && calls.bioKmalloc && calls.appendBio.isNone &&
    !calls.cancelled

/-- What nothing has taken back or over when the call returns. -/
def leftBehind (calls : Calls) (sgl : List Sg) : Object → Bool
  | .sglArray => true
  | .page id => decide (.page id ∈ pagesOf sgl) && !transmits calls
  | .skb => calls.buildSkb && !transmits calls
  | .request => false
  | .bio =>
    calls.buildSkb && calls.allocRequest.isNone && calls.bioKmalloc && calls.appendBio.isSome
  | .miter => !calls.buildSkb

section Single
variable {k : Kernel} {ns : NvmeNs} {calls : Calls} {npr : NvpktXmit} {sgl : List Sg}

theorem pagesOf_nodup {n : Nat} (alloc : SglAllocated k n sgl) : (pagesOf sgl).Nodup := by
  have hpages := List.Nodup.map (fun _ _ h => Object.page.inj h) alloc.pages
  rwa [List.map_map] at hpages

theorem track_sglAlloc {n : Nat} (alloc : SglAllocated k n sgl) (x : Object) :
    track x false (moves (.sglAlloc sgl)) = some (decide (x ∈ .sglArray :: pagesOf sgl)) := by
  have hnd : (.sglArray :: pagesOf sgl).Nodup :=
    List.nodup_cons.mpr ⟨by simp [pagesOf], pagesOf_nodup alloc⟩
  exact track_acquire hnd

/-- The frame has the pages of the scatterlist. -/
theorem pagesOf_walkedSkb {e : Sg} {rest : List Sg} {n : Nat}
    (alloc : SglAllocated k n (e :: rest)) :
    pagesOf (walkedSkb k e rest n).segs = pagesOf (e :: rest) := by
  rw [pagesOf, SkBuff.segs, walkedSkb_frags alloc]
  rfl

theorem track_devQueueXmit {e : Sg} {rest : List Sg} {n : Nat}
    (alloc : SglAllocated k n (e :: rest)) (x : Object) (owned : Bool)
    (hx : x ∈ .skb :: pagesOf (e :: rest) → owned = true) :
    track x owned (moves (.devQueueXmit (walkedSkb k e rest n))) =
      some (owned && decide (x ∉ .skb :: pagesOf (e :: rest))) := by
  have hnd : (.skb :: pagesOf (e :: rest)).Nodup :=
    List.nodup_cons.mpr ⟨by simp [pagesOf], pagesOf_nodup alloc⟩
  have hmoves : moves (.devQueueXmit (walkedSkb k e rest n)) =
      (.skb :: pagesOf (e :: rest)).map (Move.mk .handOver) := by
    rw [moves, pagesOf_walkedSkb alloc, List.map_cons]
  rw [hmoves]
  exact track_handOver hnd hx

/-- From the finished `sk_buff` to the return. -/
theorem request_leaves (ns : NvmeNs) (npr : NvpktXmit) {e : Sg} {rest : List Sg} {n : Nat}
    (alloc : SglAllocated k n (e :: rest)) (hb : calls.buildSkb = true) (x : Object) :
    track x (decide (x ∈ .sglArray :: .skb :: pagesOf (e :: rest)))
        ((requestAndXmit k ns calls npr (e :: rest) (walkedSkb k e rest n)).trace.flatMap moves) =
      some (leftBehind calls (e :: rest) x) := by
  unfold requestAndXmit
  cases hr : calls.allocRequest with
  | some err => cases x <;> simp [leftBehind, transmits, hb, hr, pagesOf]
  | none =>
    unfold blkRqMapFromSgl
    cases hk : calls.bioKmalloc with
    | false =>
      cases x <;> simp [moves, touch, Kind.apply, leftBehind, transmits, hb, hr, hk, pagesOf]
    | true =>
      cases ha : calls.appendBio with
      | some err =>
        cases x <;>
          simp [moves, touch, Kind.apply, leftBehind, transmits, hb, hr, hk, ha, pagesOf]
      | none =>
        unfold executeAndXmit
        cases hc : calls.cancelled with
        | true =>
          cases x <;> simp [TxResult.after, moves, touch, Kind.apply, leftBehind, transmits, hb, hr,
            hk, ha, hc, pagesOf]
        | false =>
          simp only [TxResult.after, if_true, if_false, Bool.false_eq_true, List.cons_append,
            List.nil_append, List.flatMap_cons, List.flatMap_nil, List.append_nil]
          have hxmit := fun owned => track_devQueueXmit alloc x owned
          generalize moves (.devQueueXmit (walkedSkb k e rest n)) = out at hxmit ⊢
          cases x with
          | page id =>
            -- a page of the list is one of the frame
            simp [track_append, moves, touch, hxmit, leftBehind, transmits, hb, hr, hk, ha, hc,
              pagesOf]
            exact fun h hne => h.resolve_left hne
          | _ =>
            simp [track_append, moves, touch, Kind.apply, hxmit, leftBehind, transmits, hb, hr, hk,
              ha, hc, pagesOf]

/-- The array always; the pages and the `sk_buff` unless the frame is handed on; the
bio when it cannot be appended; the walk of a failed `build_skb`; never the request. -/
theorem call_leaves (hfit : npr.len.val + k.sharedInfo < 2 ^ 64)
    (alloc : SglAllocated k (sglLength k npr) sgl) (hsgl : calls.sglAlloc = some sgl)
    (x : Object) : track x false (callMoves k ns calls npr) = some (leftBehind calls sgl x) := by
  obtain ⟨e, rest, rfl, hn, hl, -, hlen, hinfo⟩ := sgl_shape k npr sgl hfit alloc
  have hpos := k.sharedInfo_pos
  have htake := track_sglAlloc alloc x
  cases hb : calls.buildSkb with
  | false =>
    have hskb : skbFromSgvec k calls (e :: rest) (sglLength k npr) =
        (.error ENOMEM, [.miterStart]) :=
      skbFromSgvec_failed (List.cons_ne_nil _ _) (by omega) hb
    rw [callMoves, txpktOne_failed hsgl hskb, List.flatMap_cons, track_append, htake]
    cases x <;> simp [moves, touch, Kind.apply, leftBehind, transmits, hb, pagesOf]
  | true =>
    have hskb := skbFromSgvec_eq k calls e rest _ hb hl (by omega) (by omega)
    rw [callMoves, txpktOne_built hsgl hskb, TxResult.after, List.cons_append,
      List.flatMap_cons, track_append, htake,
      ← request_leaves ns npr alloc hb x]
    cases x <;> simp [moves, touch, Kind.apply, pagesOf]

end Single

/-- One packet of 1024 bytes, sent without a failure: its scatterlist array is still
owned when the call has returned, so a sequence of this one call is not balanced. -/
theorem sent_packet_leaks :
    (nvpktIoctlTxpktOne x86_64 ⟨1, 9⟩ (succeedingCalls [⟨⟨7, 0⟩, 1344⟩]) ⟨1024, 1, 0⟩).exit =
        .ret 0 ∧
      track .sglArray false
        (callMoves x86_64 ⟨1, 9⟩ (succeedingCalls [⟨⟨7, 0⟩, 1344⟩]) ⟨1024, 1, 0⟩) = some true ∧
      ¬ Balanced (sequenceMoves x86_64 ⟨1, 9⟩ 0
        [(succeedingCalls [⟨⟨7, 0⟩, 1344⟩], ⟨1024, 1, 0⟩)]) := by
  refine ⟨by decide, by decide, fun h => ?_⟩
  exact absurd (h (0, .sglArray)) (by decide)

end Nvpkt.Guarantees.TxpktOwnership
