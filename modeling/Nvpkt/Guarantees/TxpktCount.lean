import Nvpkt.Guarantees.TxpktPaths
import Nvpkt.Source.TxpktIoctl

/-!
# TXPKT_COUNT against repeated TXPKT

What the loop does to the device and the wire is what `count` single calls do, for
every sequence of outcomes (`txpktCount_trace`). What it returns is another matter:
`count + 1`, whatever became of the packets. That is an error code only when the
count lies within 4096 of 2^64, and never the number of packets sent
(`txpktCount_faithful_iff`).
-/

set_option autoImplicit false

namespace Nvpkt.Guarantees.TxpktCount
open Nvpkt.Library.FixedWidth
open Nvpkt.Source.KernelObjects Nvpkt.Source.TxpktOne Nvpkt.Source.TxpktIoctl
open Nvpkt.Guarantees.TxpktPaths

/-- What a user program gets from `n` calls of TXPKT for packets `i`, `i + 1`, ...:
an oops in one of them ends the program. -/
def successive (k : Kernel) (ns : NvmeNs) (calls : Nat → Calls) (npr : NvpktXmit) :
    (n i : Nat) → List TxResult
  | 0, _ => []
  | n + 1, i =>
    let r := nvpktIoctlTxpkt k ns 0 (calls i) npr
    match r.exit with
    | .ret _ => r :: successive k ns calls npr n (i + 1)
    | .oops => [r]

/-- The return values that the kernel and the C library take for an error. -/
def IsError (v : Int) : Prop := -4095 ≤ v ∧ v < 0

/-- A report on packets with these results. -/
def Reports (results : List TxResult) : Exit → Prop
  | .oops => ∃ r ∈ results, r.exit = .oops
  | .ret v => ((∃ r ∈ results, r.exit ≠ .ret 0) → IsError v) ∧
      ((∀ r ∈ results, r.exit = .ret 0) → v = results.length)

structure Faithful (k : Kernel) (ns : NvmeNs) (calls : Nat → Calls) (npr : NvpktXmit) : Prop where
  effects : (nvpktIoctlTxpktCount k ns 0 calls npr).trace =
    (successive k ns calls npr npr.count.val 0).flatMap (·.trace)
  report : Reports (successive k ns calls npr npr.count.val 0)
    (nvpktIoctlTxpktCount k ns 0 calls npr).exit

/-! ## Outcomes of a single packet -/

/-- The packet's call dereferences a null pointer. -/
def Oopses (k : Kernel) (npr : NvpktXmit) (calls : Calls) : Prop :=
  ∃ sgl, calls.sglAlloc = some sgl ∧ (sgl = [] ∨ sglLength k npr = 0)

/-- The packet's read is issued and survives, and `dev_queue_xmit` returns 0. -/
def Sends (k : Kernel) (npr : NvpktXmit) (calls : Calls) : Prop :=
  ∃ sgl, Reaches k calls npr sgl ∧ calls.cancelled = false ∧ calls.devQueueXmit = 0

section One
variable (k : Kernel) (ns : NvmeNs) (calls : Calls) (npr : NvpktXmit)

theorem txpktOne_exit_zero_iff :
    (nvpktIoctlTxpktOne k ns calls npr).exit = .ret 0 ↔ Sends k npr calls := by
  rcases txpktOne_paths k ns calls npr with
    ⟨sgl, skb, pre, hreach, _, _, hrun⟩ | ⟨hno, _, hexit⟩
  · rw [hrun]
    unfold executeAndXmit
    cases hc : calls.cancelled with
    | true =>
      refine iff_of_false ?_ (fun hsends => ?_)
      · simpa [TxResult.after] using neg_errno_ne_zero EINTR
      · obtain ⟨_, _, hkept, _⟩ := hsends
        rw [hc] at hkept
        cases hkept
    | false =>
      constructor
      · intro h
        exact ⟨sgl, hreach, hc, Exit.ret.inj h⟩
      · intro hsends
        obtain ⟨_, _, _, hret⟩ := hsends
        exact congrArg Exit.ret hret
  · exact iff_of_false hexit (fun hsends => hno _ hsends.choose_spec.1)

theorem requestAndXmit_returns (sgl : List Sg) (skb : SkBuff) :
    ∃ v, (requestAndXmit k ns calls npr sgl skb).exit = .ret v := by
  unfold requestAndXmit
  split
  · exact ⟨_, rfl⟩
  · dsimp only
    split
    · exact ⟨_, rfl⟩
    · unfold executeAndXmit
      split <;> exact ⟨_, rfl⟩

theorem txpktOne_exit_oops_iff :
    (nvpktIoctlTxpktOne k ns calls npr).exit = .oops ↔ Oopses k npr calls := by
  unfold Oopses
  cases hs : calls.sglAlloc with
  | none => simp [txpktOne_unlisted hs]
  | some sgl =>
    rcases skbFromSgvec_cases k calls sgl (sglLength k npr) with
      ⟨hnone, heq⟩ | ⟨hne, hpos, _, heq⟩ | ⟨hne, hpos, _, skb, heq⟩
    · simp [txpktOne_null hs heq, hnone]
    · simp [txpktOne_failed hs heq, hne, Nat.ne_of_gt hpos]
    · obtain ⟨v, hv⟩ := requestAndXmit_returns k ns calls npr sgl skb
      simp [txpktOne_built hs heq, hne, Nat.ne_of_gt hpos, TxResult.after, hv]

end One

/-! ## The loop against the single calls -/

section Loop
variable (k : Kernel) (ns : NvmeNs) (calls : Nat → Calls) (npr : NvpktXmit)

theorem txpktCountLoop_trace (rest count : Nat) :
    (txpktCountLoop k ns calls npr rest count).trace =
      (successive k ns calls npr rest count).flatMap (·.trace) := by
  induction rest generalizing count with
  | zero => rfl
  | succ rest ih =>
    simp only [txpktCountLoop, successive, nvpktIoctlTxpkt, ne_eq, not_true_eq_false, if_false]
    cases (nvpktIoctlTxpktOne k ns (calls count) npr).exit with
    | oops => simp
    | ret v => simp [TxResult.after, ih]

/-- The loop oopses with its packets and otherwise returns a number that does not
depend on them. -/
theorem txpktCountLoop_exit (rest count : Nat) :
    (∃ r ∈ successive k ns calls npr rest count, r.exit = .oops) ∧
        (txpktCountLoop k ns calls npr rest count).exit = .oops ∨
      (∀ r ∈ successive k ns calls npr rest count, r.exit ≠ .oops) ∧
        (successive k ns calls npr rest count).length = rest ∧
        (txpktCountLoop k ns calls npr rest count).exit =
          .ret (toSigned 64 (count + rest + 1)) := by
  induction rest generalizing count with
  | zero => exact Or.inr ⟨by simp [successive], rfl, rfl⟩
  | succ rest ih =>
    simp only [txpktCountLoop, successive, nvpktIoctlTxpkt, ne_eq, not_true_eq_false, if_false]
    cases hone : (nvpktIoctlTxpktOne k ns (calls count) npr).exit with
    | oops => exact Or.inl ⟨⟨_, List.mem_singleton_self _, hone⟩, hone⟩
    | ret v =>
      obtain ⟨⟨r, hr, hoops⟩, hexit⟩ | ⟨hnone, hlen, hexit⟩ := ih (count + 1)
      · exact Or.inl ⟨⟨r, List.mem_cons_of_mem _ hr, hoops⟩, hexit⟩
      · refine Or.inr ⟨List.forall_mem_cons.mpr ⟨by simp [hone], hnone⟩, by simp [hlen], ?_⟩
        rw [show count + (rest + 1) + 1 = count + 1 + rest + 1 by omega]
        exact hexit

theorem successive_oops_iff (n i : Nat) :
    (∃ r ∈ successive k ns calls npr n i, r.exit = .oops) ↔
      ∃ j < n, Oopses k npr (calls (i + j)) := by
  induction n generalizing i with
  | zero => simp [successive]
  | succ n ih =>
    simp only [successive, nvpktIoctlTxpkt, ne_eq, not_true_eq_false, if_false]
    rw [Nat.exists_lt_succ_left, Nat.add_zero, ← txpktOne_exit_oops_iff k ns]
    cases hone : (nvpktIoctlTxpktOne k ns (calls i) npr).exit with
    | oops => simp [hone]
    | ret v =>
      simp only [List.exists_mem_cons_iff, hone, ih (i + 1), Nat.add_assoc, Nat.add_comm 1]

/-- Unless one of them oopses, the single calls are those for all the packets. -/
theorem successive_forall (P : TxResult → Prop) (n i : Nat)
    (h : ∀ r ∈ successive k ns calls npr n i, r.exit ≠ .oops) :
    (∀ r ∈ successive k ns calls npr n i, P r) ↔
      ∀ j < n, P (nvpktIoctlTxpktOne k ns (calls (i + j)) npr) := by
  induction n generalizing i with
  | zero => simp [successive]
  | succ n ih =>
    simp only [successive, nvpktIoctlTxpkt, ne_eq, not_true_eq_false, if_false] at h ⊢
    cases hone : (nvpktIoctlTxpktOne k ns (calls i) npr).exit with
    | oops => simp [hone] at h
    | ret v =>
      simp only [hone, List.forall_mem_cons] at h ⊢
      rw [ih (i + 1) h.2, Nat.forall_lt_succ_left]
      simp only [Nat.add_zero, Nat.add_assoc, Nat.add_comm 1]

end Loop

/-! ## The report -/

/-- The largest counts come out as error codes, the very last one as 0. -/
theorem isError_count_iff {count : Nat} (h : count < 2 ^ 64) :
    IsError (toSigned 64 (count + 1)) ↔ 2 ^ 64 - 4096 ≤ count ∧ count ≤ 2 ^ 64 - 2 := by
  unfold IsError toSigned wrap
  split <;> omega

theorem toSigned_count_ne {count : Nat} (_ : count < 2 ^ 64) :
    toSigned 64 (count + 1) ≠ count := by
  unfold toSigned wrap
  split <;> omega

section Report
variable (k : Kernel) (ns : NvmeNs) (calls : Nat → Calls) (npr : NvpktXmit)

/-- Device reads and transmissions are those of the single calls, in their order. -/
theorem txpktCount_trace : (nvpktIoctlTxpktCount k ns 0 calls npr).trace =
    (successive k ns calls npr npr.count.val 0).flatMap (·.trace) :=
  txpktCountLoop_trace k ns calls npr npr.count.val 0

/-- TXPKT_COUNT stands for the single calls exactly when both oops, or some packet
fails and the count is one of those that `count + 1` turns into an error code. -/
theorem txpktCount_faithful_iff : Faithful k ns calls npr ↔
    (∃ i < npr.count.val, Oopses k npr (calls i)) ∨
      ((∃ i < npr.count.val, ¬ Sends k npr (calls i)) ∧
        2 ^ 64 - 4096 ≤ npr.count.val ∧ npr.count.val ≤ 2 ^ 64 - 2) := by
  have hoops := successive_oops_iff k ns calls npr npr.count.val 0
  simp only [Nat.zero_add] at hoops
  have hreport : Faithful k ns calls npr ↔ Reports (successive k ns calls npr npr.count.val 0)
      (nvpktIoctlTxpktCount k ns 0 calls npr).exit :=
    ⟨Faithful.report, fun h => ⟨txpktCount_trace k ns calls npr, h⟩⟩
  have hcount : (nvpktIoctlTxpktCount k ns 0 calls npr).exit =
    (txpktCountLoop k ns calls npr npr.count.val 0).exit := rfl
  rw [hreport, hcount, ← hoops]
  obtain ⟨hsome, hexit⟩ | ⟨hnone, hlen, hexit⟩ :=
    txpktCountLoop_exit k ns calls npr npr.count.val 0
  · rw [hexit]
    exact iff_of_true hsome (Or.inl hsome)
  · have hfail : (∃ r ∈ successive k ns calls npr npr.count.val 0, r.exit ≠ .ret 0) ↔
        ∃ i < npr.count.val, ¬ Sends k npr (calls i) := by
      have hall := successive_forall k ns calls npr (·.exit = .ret 0) npr.count.val 0 hnone
      simp only [Nat.zero_add, txpktOne_exit_zero_iff] at hall
      simpa using not_congr hall
    rw [hexit, Nat.zero_add, ← hfail, ← isError_count_iff npr.count.isLt]
    constructor
    · intro h
      by_cases hf : ∃ r ∈ successive k ns calls npr npr.count.val 0, r.exit ≠ .ret 0
      · exact Or.inr ⟨hf, h.1 hf⟩
      · have hsent := h.2 fun r hr => Classical.not_not.mp fun hr0 => hf ⟨r, hr, hr0⟩
        rw [hlen] at hsent
        exact absurd hsent (toSigned_count_ne npr.count.isLt)
    · intro hcond
      obtain ⟨r, hr, hr0⟩ | ⟨⟨r, hr, hr0⟩, herr⟩ := hcond
      · exact absurd hr0 (hnone r hr)
      · exact ⟨fun _ => herr, fun hall => absurd (hall r hr) hr0⟩

end Report

/-- The kernel's answers for a packet that is sent. -/
def sent : Calls := succeedingCalls [⟨⟨7, 0⟩, 1344⟩]

/-- One packet that is sent, or finds no memory: the count ioctl returns 2 for either. -/
theorem single_packet_misreported :
    (nvpktIoctlTxpkt x86_64 ⟨1, 9⟩ 0 sent ⟨1024, 1, 1⟩).exit = .ret 0 ∧
      (nvpktIoctlTxpktCount x86_64 ⟨1, 9⟩ 0 (fun _ => sent) ⟨1024, 1, 1⟩).exit = .ret 2 ∧
      ¬ Faithful x86_64 ⟨1, 9⟩ (fun _ => sent) ⟨1024, 1, 1⟩ ∧
      (nvpktIoctlTxpkt x86_64 ⟨1, 9⟩ 0 { sent with sglAlloc := none } ⟨1024, 1, 1⟩).exit =
        .ret (-12) ∧
      (nvpktIoctlTxpktCount x86_64 ⟨1, 9⟩ 0 (fun _ => { sent with sglAlloc := none })
        ⟨1024, 1, 1⟩).exit = .ret 2 := by
  refine ⟨by decide, by decide, fun h => ?_, by decide, by decide⟩
  have hsent := h.report.2 (by decide)
  exact absurd hsent (by decide)

end Nvpkt.Guarantees.TxpktCount
