import Nvpkt.Source.TxpktOne

/-!
# The paths through one TXPKT

What a call of `nvpkt_ioctl_txpkt_one` can do, said once: either it stops before
the read is issued, with an error or in a null pointer dereference and without
touching the device or the wire, or every step up to `blk_execute_rq` succeeds
and the rest is `executeAndXmit`. The results about payload, transfer size and
return value are read off these two cases.
-/

set_option autoImplicit false

namespace Nvpkt.Guarantees.TxpktPaths
open Nvpkt.Library.SegmentList Nvpkt.Library.FixedWidth
open Nvpkt.Source.KernelObjects Nvpkt.Source.TxpktOne

/-- Neither a device command nor a transmission. -/
def Quiet : Event → Prop
  | .executeRq _ _ => False
  | .devQueueXmit _ => False
  | _ => True

/-- The calls on the way to `blk_execute_rq` succeed. -/
structure Issues (calls : Calls) (sgl : List Sg) : Prop where
  sglAlloc : calls.sglAlloc = some sgl
  buildSkb : calls.buildSkb = true
  allocRequest : calls.allocRequest = none
  bioKmalloc : calls.bioKmalloc = true
  appendBio : calls.appendBio = none

/-- They do, and the walk has an entry to build the `sk_buff` from. -/
structure Reaches (k : Kernel) (calls : Calls) (npr : NvpktXmit) (sgl : List Sg) : Prop
    extends Issues calls sgl where
  entries : sgl ≠ []
  length_pos : 0 < sglLength k npr

/-- Every kernel call made for the packet succeeds and the read completes with status 0. -/
structure Succeeds (calls : Calls) (sgl : List Sg) : Prop extends Issues calls sgl where
  addPcPage : ∀ j n, calls.addPcPage j n = n
  cancelled : calls.cancelled = false
  status : calls.status = 0

def succeedingCalls (sgl : List Sg) : Calls where
  sglAlloc := some sgl
  buildSkb := true
  allocRequest := none
  bioKmalloc := true
  addPcPage _ n := n
  addPcPage_le _ n := Nat.le_refl n
  appendBio := none
  cancelled := false
  status := 0
  devQueueXmit := 0

theorem succeedingCalls_succeeds (sgl : List Sg) : Succeeds (succeedingCalls sgl) sgl :=
  ⟨⟨rfl, rfl, rfl, rfl, rfl⟩, fun _ _ => rfl, rfl, rfl⟩

/-- Once there is an `sk_buff` no iteration can fail. -/
theorem sgvecLoop_some (k : Kernel) (built : Bool) (length : Nat) (pieces : List Sg)
    (s : SgvecState) (skb : SkBuff) (hskb : s.skb = some skb) :
    ∃ n offset skb', sgvecLoop k built length pieces s = some ⟨n, offset, some skb'⟩ := by
  induction pieces generalizing s skb with
  | nil => exact ⟨s.n, s.offset, skb, by simp [sgvecLoop, ← hskb]⟩
  | cons miter rest ih =>
    unfold sgvecLoop
    split
    · simp only [sgvecStep, hskb]
      exact ih _ _ rfl
    · exact ⟨s.n, s.offset, skb, by simp [← hskb]⟩

/-- `skb_from_sgvec` leaves a null pointer when nothing is walked, fails when the
first entry cannot be wrapped, and succeeds otherwise. -/
theorem skbFromSgvec_cases (k : Kernel) (calls : Calls) (sgl : List Sg) (length : Nat) :
    ((sgl = [] ∨ length = 0) ∧
      skbFromSgvec k calls sgl length = (.ok none, [.miterStart, .miterStop])) ∨
    (sgl ≠ [] ∧ 0 < length ∧ calls.buildSkb = false ∧
      skbFromSgvec k calls sgl length = (.error ENOMEM, [.miterStart])) ∨
    (sgl ≠ [] ∧ 0 < length ∧ calls.buildSkb = true ∧ ∃ skb,
      skbFromSgvec k calls sgl length =
        (.ok (some skb), [.miterStart, .buildSkb skb.data, .miterStop])) := by
  cases sgl with
  | nil => exact Or.inl ⟨Or.inl rfl, by simp [skbFromSgvec, sgvecLoop]⟩
  | cons e rest =>
    by_cases hpos : 0 < length
    · cases hb : calls.buildSkb with
      | false =>
        refine Or.inr (Or.inl ⟨by simp, hpos, rfl, ?_⟩)
        simp [skbFromSgvec, sgvecLoop, hpos, sgvecStep, hb]
      | true =>
        refine Or.inr (Or.inr ⟨by simp, hpos, rfl, ?_⟩)
        obtain ⟨n, offset, skb, hrun⟩ := sgvecLoop_some k true length rest
          ⟨0, wrap 32 (0 + wrap 32 (min e.len (length - 0))), some ((buildSkb e.base).put
            (wsub 64 (wrap 32 (min e.len (length - 0))) k.sharedInfo))⟩ _ rfl
        refine ⟨skb, ?_⟩
        simp only [skbFromSgvec, sgvecLoop, if_pos hpos, hb, sgvecStep, if_true, hrun]
        simp
    · exact Or.inl ⟨Or.inr (by omega), by simp [skbFromSgvec, sgvecLoop, hpos]⟩

section Walk
variable {k : Kernel} {calls : Calls} {sgl : List Sg} {length : Nat}

/-- A `build_skb` that fails leaves the walk where it is. -/
theorem skbFromSgvec_failed (hne : sgl ≠ []) (hpos : 0 < length) (hb : calls.buildSkb = false) :
    skbFromSgvec k calls sgl length = (.error ENOMEM, [.miterStart]) := by
  obtain ⟨hnone, -⟩ | ⟨-, -, -, heq⟩ | ⟨-, -, hb', -⟩ := skbFromSgvec_cases k calls sgl length
  · exact absurd (hnone.resolve_left hne) hpos.ne'
  · exact heq
  · rw [hb] at hb'
    cases hb'

theorem skbFromSgvec_error_iff : (∃ e, (skbFromSgvec k calls sgl length).1 = .error e) ↔
    sgl ≠ [] ∧ 0 < length ∧ calls.buildSkb = false := by
  constructor
  · intro h
    obtain ⟨e, he⟩ := h
    obtain ⟨-, heq⟩ | ⟨hne, hpos, hb, -⟩ | ⟨-, -, -, skb, heq⟩ :=
      skbFromSgvec_cases k calls sgl length
    · rw [heq] at he
      cases he
    · exact ⟨hne, hpos, hb⟩
    · rw [heq] at he
      cases he
  · intro h
    obtain ⟨hne, hpos, hb⟩ := h
    exact ⟨ENOMEM, by rw [skbFromSgvec_failed hne hpos hb]⟩

theorem skbFromSgvec_built {skb : SkBuff}
    (h : (skbFromSgvec k calls sgl length).1 = .ok (some skb)) : calls.buildSkb = true := by
  obtain ⟨-, heq⟩ | ⟨-, -, -, heq⟩ | ⟨-, -, hb, -⟩ := skbFromSgvec_cases k calls sgl length
  · rw [heq] at h
    cases h
  · rw [heq] at h
    cases h
  · exact hb

end Walk

theorem quiet_after {pre : List Event} (hpre : ∀ ev ∈ pre, Quiet ev) (r : TxResult) (ev : Event)
    (hev : ¬ Quiet ev) : ev ∈ (r.after pre).trace ↔ ev ∈ r.trace := by
  simp only [TxResult.after, List.mem_append]
  constructor
  · intro hmem
    obtain h | h := hmem
    · exact absurd (hpre ev h) hev
    · exact h
  · exact Or.inr

/-- The only command a call executes is the one `executeAndXmit` is given. -/
theorem executeRq_mem {pre : List Event} (hpre : ∀ ev ∈ pre, Quiet ev) (calls : Calls)
    (c c' : RwCommand) (bio bio' : List Sg) (skb : SkBuff) :
    .executeRq c' bio' ∈ ((executeAndXmit calls c bio skb).after pre).trace ↔
      c' = c ∧ bio' = bio := by
  rw [quiet_after hpre _ _ (by simp [Quiet])]
  cases hc : calls.cancelled <;> simp [executeAndXmit, hc]

/-- A frame is handed on unless the read was cancelled; its status is not asked for. -/
theorem devQueueXmit_mem {pre : List Event} (hpre : ∀ ev ∈ pre, Quiet ev) (calls : Calls)
    (c : RwCommand) (bio : List Sg) (skb skb' : SkBuff) :
    .devQueueXmit skb' ∈ ((executeAndXmit calls c bio skb).after pre).trace ↔
      calls.cancelled = false ∧ skb' = skb := by
  rw [quiet_after hpre _ _ (by simp [Quiet])]
  cases hc : calls.cancelled <;> simp [executeAndXmit, hc]

theorem neg_errno_ne_zero (e : Errno) : -(e.val : Int) ≠ 0 := by
  have := e.pos
  omega

/-- The mapping neither executes nor transmits, and fails exactly as its calls do. -/
theorem blkRqMapFromSgl_cases (k : Kernel) (calls : Calls) (sgl : List Sg) (length : Nat) :
    (∀ ev ∈ (blkRqMapFromSgl k calls sgl length).2, Quiet ev) ∧
    ((calls.bioKmalloc = true ∧ calls.appendBio = none ∧
        (blkRqMapFromSgl k calls sgl length).1 = .ok (bioLoop k calls length sgl ⟨0, []⟩).bio) ∨
      (¬ (calls.bioKmalloc = true ∧ calls.appendBio = none) ∧
        ∃ e, (blkRqMapFromSgl k calls sgl length).1 = .error e)) := by
  unfold blkRqMapFromSgl
  cases hk : calls.bioKmalloc with
  | false => exact ⟨by simp, Or.inr ⟨by simp, ENOMEM, rfl⟩⟩
  | true =>
    cases ha : calls.appendBio with
    | none => exact ⟨by simp [Quiet], Or.inl ⟨rfl, rfl, rfl⟩⟩
    | some e => exact ⟨by simp [Quiet], Or.inr ⟨by simp, e, rfl⟩⟩

/-- The steps behind the `sk_buff`: the read is issued or the call fails quietly. -/
theorem requestAndXmit_cases (k : Kernel) (ns : NvmeNs) (calls : Calls) (npr : NvpktXmit)
    (sgl : List Sg) (skb : SkBuff) :
    (calls.allocRequest = none ∧ calls.bioKmalloc = true ∧ calls.appendBio = none ∧
      ∃ pre, (∀ ev ∈ pre, Quiet ev) ∧ requestAndXmit k ns calls npr sgl skb =
        (executeAndXmit calls (txpktCommand k ns npr)
          (bioLoop k calls npr.len.val sgl ⟨0, []⟩).bio skb).after pre) ∨
    (¬ (calls.allocRequest = none ∧ calls.bioKmalloc = true ∧ calls.appendBio = none) ∧
      (∀ ev ∈ (requestAndXmit k ns calls npr sgl skb).trace, Quiet ev) ∧
      (requestAndXmit k ns calls npr sgl skb).exit ≠ .ret 0) := by
  unfold requestAndXmit
  cases hr : calls.allocRequest with
  | some e => exact Or.inr ⟨by simp, by simp, by simpa using neg_errno_ne_zero e⟩
  | none =>
    obtain ⟨hquiet, hcases⟩ := blkRqMapFromSgl_cases k calls sgl npr.len.val
    cases hm : blkRqMapFromSgl k calls sgl npr.len.val with
    | mk result mapTrace =>
      rw [hm] at hquiet hcases
      simp only at hquiet hcases
      rcases hcases with ⟨hk, ha, rfl⟩ | ⟨hfail, e, rfl⟩
      · refine Or.inl ⟨rfl, hk, ha, .allocRequest :: mapTrace, ?_, rfl⟩
        simpa [Quiet] using hquiet
      · refine Or.inr ⟨by simpa using hfail, ?_, by simpa using neg_errno_ne_zero e⟩
        intro ev hev
        simp only [List.cons_append, List.mem_cons, List.mem_append, List.not_mem_nil, or_false]
          at hev
        rcases hev with rfl | hev | rfl
        · trivial
        · exact hquiet ev hev
        · trivial

section Call
variable {k : Kernel} {ns : NvmeNs} {calls : Calls} {npr : NvpktXmit} {sgl : List Sg}
  {skbTrace : List Event}

/-- A call without a scatterlist has done nothing. -/
theorem txpktOne_unlisted (hs : calls.sglAlloc = none) :
    nvpktIoctlTxpktOne k ns calls npr = ⟨.ret (-ENOMEM.val), []⟩ := by
  simp only [nvpktIoctlTxpktOne, hs]

theorem txpktOne_failed (hs : calls.sglAlloc = some sgl) {e : Errno}
    (heq : skbFromSgvec k calls sgl (sglLength k npr) = (.error e, skbTrace)) :
    nvpktIoctlTxpktOne k ns calls npr = ⟨.ret (-e.val), .sglAlloc sgl :: skbTrace⟩ := by
  simp only [nvpktIoctlTxpktOne, hs, heq]

/-- A null pointer goes through `skb_from_sgvec` and is used. -/
theorem txpktOne_null (hs : calls.sglAlloc = some sgl)
    (heq : skbFromSgvec k calls sgl (sglLength k npr) = (.ok none, skbTrace)) :
    nvpktIoctlTxpktOne k ns calls npr = ⟨.oops, .sglAlloc sgl :: skbTrace⟩ := by
  simp only [nvpktIoctlTxpktOne, hs, heq]

theorem txpktOne_built (hs : calls.sglAlloc = some sgl) {skb : SkBuff}
    (heq : skbFromSgvec k calls sgl (sglLength k npr) = (.ok (some skb), skbTrace)) :
    nvpktIoctlTxpktOne k ns calls npr =
      (requestAndXmit k ns calls npr sgl skb).after (.sglAlloc sgl :: skbTrace) := by
  simp only [nvpktIoctlTxpktOne, hs, heq]

end Call

/-- Either the read is issued and the call ends in `executeAndXmit`, or nothing
reaches the device or the wire and the call does not return 0. -/
theorem txpktOne_paths (k : Kernel) (ns : NvmeNs) (calls : Calls) (npr : NvpktXmit) :
    (∃ sgl skb pre, Reaches k calls npr sgl ∧
      (skbFromSgvec k calls sgl (sglLength k npr)).1 = .ok (some skb) ∧
      (∀ ev ∈ pre, Quiet ev) ∧
      nvpktIoctlTxpktOne k ns calls npr = (executeAndXmit calls (txpktCommand k ns npr)
        (bioLoop k calls npr.len.val sgl ⟨0, []⟩).bio skb).after pre) ∨
    ((∀ sgl, ¬ Reaches k calls npr sgl) ∧
      (∀ ev ∈ (nvpktIoctlTxpktOne k ns calls npr).trace, Quiet ev) ∧
      (nvpktIoctlTxpktOne k ns calls npr).exit ≠ .ret 0) := by
  cases hs : calls.sglAlloc with
  | none =>
    rw [txpktOne_unlisted hs]
    refine Or.inr ⟨?_, by simp, by simpa using neg_errno_ne_zero ENOMEM⟩
    intro sgl hreach
    have := hreach.sglAlloc
    simp [hs] at this
  | some sgl =>
    have honly : ∀ sgl', Reaches k calls npr sgl' → sgl' = sgl := by
      intro sgl' hreach
      have := hreach.sglAlloc
      rw [hs] at this
      exact (Option.some.inj this).symm
    rcases skbFromSgvec_cases k calls sgl (sglLength k npr) with
      ⟨hnone, heq⟩ | ⟨_, _, hb, heq⟩ | ⟨hne, hpos, hb, skb, heq⟩
    · rw [txpktOne_null hs heq]
      refine Or.inr ⟨?_, by simp [Quiet], by simp⟩
      intro sgl' hreach
      have hsame := honly sgl' hreach
      subst hsame
      rcases hnone with hnil | hzero
      · exact hreach.entries hnil
      · exact absurd hreach.length_pos (by omega)
    · rw [txpktOne_failed hs heq]
      refine Or.inr ⟨?_, by simp [Quiet], by simpa using neg_errno_ne_zero ENOMEM⟩
      intro sgl' hreach
      have := hreach.buildSkb
      simp [hb] at this
    · rw [txpktOne_built hs heq]
      rcases requestAndXmit_cases k ns calls npr sgl skb with
        ⟨hr, hk, ha, pre, hquiet, hrest⟩ | ⟨hfail, hquiet, hexit⟩
      · rw [hrest]
        refine Or.inl ⟨sgl, skb, .sglAlloc sgl :: .miterStart :: .buildSkb skb.data ::
          .miterStop :: pre, ⟨⟨hs, hb, hr, hk, ha⟩, hne, hpos⟩, by rw [heq], ?_, ?_⟩
        · simpa [Quiet] using hquiet
        · simp [TxResult.after]
      · refine Or.inr ⟨?_, ?_, hexit⟩
        · intro sgl' hreach
          exact hfail ⟨hreach.allocRequest, hreach.bioKmalloc, hreach.appendBio⟩
        · simpa [TxResult.after, Quiet] using hquiet

end Nvpkt.Guarantees.TxpktPaths
