import Nvpkt.Guarantees.TxpktPaths

/-!
# The status of the read and the fate of the frame

`nvpkt_ioctl_txpkt_one` looks at the outcome of `blk_execute_rq` twice: a
cancelled request leaves through `out` with `-EINTR`, and otherwise the NVMe
status is assigned to `ret`. The next statement transmits the frame and assigns
`ret` again, so a failed read is sent and forgotten. `honest_iff` says that this
is the only way a call misreports: it happens exactly when the read is issued,
is not cancelled and completes with a status other than 0.
-/

set_option autoImplicit false

namespace Nvpkt.Guarantees.TxpktStatus
open Nvpkt.Library.SegmentList
open Nvpkt.Source.KernelObjects Nvpkt.Source.TxpktOne Nvpkt.Guarantees.TxpktPaths

/-- The device read was issued and completed with status 0. -/
structure ReadSucceeded (calls : Calls) (r : TxResult) : Prop where
  executed : ∃ c bio, .executeRq c bio ∈ r.trace
  cancelled : calls.cancelled = false
  status : calls.status = 0

/-- A frame is handed on only behind a successful read, and 0 is returned only if
moreover the frame was accepted. -/
structure Honest (calls : Calls) (r : TxResult) : Prop where
  transmit : ∀ skb, .devQueueXmit skb ∈ r.trace → ReadSucceeded calls r
  success : r.exit = .ret 0 → ReadSucceeded calls r ∧
    (∃ skb, .devQueueXmit skb ∈ r.trace) ∧ calls.devQueueXmit = 0

/-- A call that never reaches its read is honest: it transmits nothing and fails. -/
theorem honest_of_quiet (calls : Calls) (r : TxResult) (hquiet : ∀ ev ∈ r.trace, Quiet ev)
    (hexit : r.exit ≠ .ret 0) : Honest calls r :=
  ⟨fun _ hxmit => absurd (hquiet _ hxmit) (by simp [Quiet]), fun h => absurd h hexit⟩

/-- Behind an issued read only a cancellation or status 0 keeps the call honest. -/
theorem honest_executed_iff {pre : List Event} (hpre : ∀ ev ∈ pre, Quiet ev) (calls : Calls)
    (c : RwCommand) (bio : List Sg) (skb : SkBuff) :
    Honest calls ((executeAndXmit calls c bio skb).after pre) ↔
      calls.cancelled = true ∨ calls.status = 0 := by
  have hexec : .executeRq c bio ∈ ((executeAndXmit calls c bio skb).after pre).trace :=
    (executeRq_mem hpre calls c c bio bio skb).mpr ⟨rfl, rfl⟩
  constructor
  · intro h
    cases hc : calls.cancelled with
    | true => exact Or.inl rfl
    | false =>
      have hxmit := (devQueueXmit_mem hpre calls c bio skb skb).mpr ⟨hc, rfl⟩
      exact Or.inr (h.transmit skb hxmit).status
  · intro h
    constructor
    · intro skb' hxmit
      have hc := ((devQueueXmit_mem hpre calls c bio skb skb').mp hxmit).1
      refine ⟨⟨c, bio, hexec⟩, hc, ?_⟩
      simpa [hc] using h
    · intro hexit
      cases hc : calls.cancelled with
      | true =>
        simp only [executeAndXmit, hc, if_true, TxResult.after, Exit.ret.injEq] at hexit
        exact absurd hexit (neg_errno_ne_zero EINTR)
      | false =>
        have hret : calls.devQueueXmit = 0 := by
          simpa [executeAndXmit, hc, TxResult.after] using hexit
        refine ⟨⟨⟨c, bio, hexec⟩, hc, ?_⟩, ⟨skb, ?_⟩, hret⟩
        · simpa [hc] using h
        · exact (devQueueXmit_mem hpre calls c bio skb skb).mpr ⟨hc, rfl⟩

/-- A call is honest unless its read is issued, survives and fails. -/
theorem honest_iff (k : Kernel) (ns : NvmeNs) (calls : Calls) (npr : NvpktXmit) :
    Honest calls (nvpktIoctlTxpktOne k ns calls npr) ↔
      ∀ sgl, Reaches k calls npr sgl → calls.cancelled = true ∨ calls.status = 0 := by
  rcases txpktOne_paths k ns calls npr with
    ⟨sgl, skb, pre, hreach, _, hquiet, hrun⟩ | ⟨hno, hquiet, hexit⟩
  · rw [hrun, honest_executed_iff hquiet]
    exact ⟨fun h _ _ => h, fun h => h sgl hreach⟩
  · constructor
    · intro _ sgl hreach
      exact absurd hreach (hno sgl)
    · intro _
      exact honest_of_quiet calls _ hquiet hexit

/-- A read of one block that ends in an unrecovered read error. -/
def failedRead : Calls := { succeedingCalls [⟨⟨7, 0⟩, 1344⟩] with status := 0x281 }

/-- Its frame is transmitted and the call returns 0. -/
theorem failedRead_dishonest :
    (nvpktIoctlTxpktOne x86_64 ⟨1, 9⟩ failedRead ⟨1024, 1, 0⟩).exit = .ret 0 ∧
      ¬ Honest failedRead (nvpktIoctlTxpktOne x86_64 ⟨1, 9⟩ failedRead ⟨1024, 1, 0⟩) := by
  refine ⟨by decide, fun h => ?_⟩
  have hstatus := (h.success (by decide)).1.status
  exact absurd hstatus (by decide)

end Nvpkt.Guarantees.TxpktStatus
