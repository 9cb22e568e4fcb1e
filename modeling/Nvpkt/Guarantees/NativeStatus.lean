import Nvpkt.Guarantees.ReadBack
import Nvpkt.Guarantees.TxpktCount
import Nvpkt.Source.NativeTools

/-!
# What the native tools return

`store-pkt` returns 0 exactly when its packet was written. `xmit-pkt` without a count
returns 0 exactly when its frame went to the network device, whatever status the read
had. With a count it returns the number of packets and 1, if it returns at all: 0 stands
for a count of -1 only, and a count from -2 to -4096 for an error (`native_status_iff`).
-/

set_option autoImplicit false

namespace Nvpkt.Guarantees.NativeStatus
open Nvpkt.Library.CommandLine Nvpkt.Library.FixedWidth
open Nvpkt.Source.KernelObjects Nvpkt.Source.TxpktOne Nvpkt.Source.TxpktIoctl
open Nvpkt.Source.SubmitIo Nvpkt.Source.NvpktIoctl Nvpkt.Source.NativeTools
open Nvpkt.Guarantees.TxpktPaths Nvpkt.Guarantees.TxpktCount

variable {Byte : Type}

/-- The request is executed, survives, and completes with status 0. -/
structure Executes (calls : SubmitCalls) : Prop extends ReadBack.Reaches calls where
  cancelled : calls.cancelled = false
  status : calls.status = 0

/-- The answers have the sizes of their types in the kernel. -/
structure Typed (answers : Ioctl Byte) : Prop where
  copied : answers.copyFromUser ≤ 24
  status : answers.submit.status < 2 ^ 16
  xmit : ∀ i, -2 ^ 31 ≤ (answers.calls i).devQueueXmit ∧ (answers.calls i).devQueueXmit < 2 ^ 31

/-- The values that an `int` has. -/
def IsInt (v : Int) : Prop := -2 ^ 31 ≤ v ∧ v < 2 ^ 31

theorem ioctlRet_eq_zero_iff {v : Int} : ioctlRet v = 0 ↔ ¬ IsError v ∧ v % 2 ^ 32 = 0 := by
  unfold ioctlRet IsError toSigned wrap
  split
  · omega
  · split <;> omega

/-- An `int` comes out as it is, or as -1. -/
theorem ioctlRet_int {v : Int} (h : IsInt v) : ioctlRet v = 0 ↔ v = 0 := by
  rw [ioctlRet_eq_zero_iff]
  unfold IsError
  unfold IsInt at h
  omega

theorem mainRet_zero_iff {fd : Int} {exit : Exit} :
    mainRet fd exit = some 0 ↔ 0 ≤ fd ∧ ∃ v, exit = .ret v ∧ ioctlRet v = 0 := by
  unfold mainRet
  split
  case isTrue hfd =>
    rw [Option.some_inj]
    exact iff_of_false (by omega) (fun h => absurd h.1 (by omega))
  case isFalse hfd =>
    rw [and_iff_right (by omega)]
    cases exit with
    | ret v => simp
    | oops => simp

theorem errno_isInt (e : Errno) : IsInt (-(e.val : Int)) := by
  have hle := e.le
  unfold IsInt
  omega

section Submit
variable {calls : SubmitCalls} {io : NvmeUserIo}

theorem submitIo_ret (k : Kernel) (ns : NvmeNs) (hflags : io.flags.val = 0)
    (hstatus : calls.status < 2 ^ 16) :
    IsInt (nvpktIoctlSubmitIo k ns calls io).ret ∧
      ((nvpktIoctlSubmitIo k ns calls io).ret = 0 ↔ Executes calls) := by
  unfold nvpktIoctlSubmitIo
  split
  case isTrue hcopy =>
    refine ⟨errno_isInt _, iff_of_false (neg_errno_ne_zero _) fun h => ?_⟩
    rw [h.copyFromUser] at hcopy
    cases hcopy
  case isFalse hcopy =>
    rw [if_neg (not_not.mpr hflags)]
    dsimp only
    cases hrequest : calls.allocRequest with
    | some e =>
      refine ⟨errno_isInt _, iff_of_false (neg_errno_ne_zero _) fun h => ?_⟩
      rw [h.allocRequest] at hrequest
      cases hrequest
    | none =>
      cases hmap : calls.mapUser with
      | some e =>
        refine ⟨errno_isInt _, iff_of_false (neg_errno_ne_zero _) fun h => ?_⟩
        rw [h.mapUser] at hmap
        cases hmap
      | none =>
        dsimp only
        cases hcancelled : calls.cancelled with
        | true =>
          refine ⟨errno_isInt _, iff_of_false (neg_errno_ne_zero _) fun h => ?_⟩
          rw [h.cancelled] at hcancelled
          cases hcancelled
        | false =>
          rw [if_neg Bool.false_ne_true]
          refine ⟨⟨by omega, by omega⟩, ?_⟩
          rw [Int.natCast_eq_zero]
          exact ⟨fun hzero => ⟨⟨Bool.eq_false_iff.mpr hcopy, hrequest, hmap⟩, hcancelled, hzero⟩,
            fun h => h.status⟩

end Submit

section One
variable {k : Kernel} {ns : NvmeNs} {calls : Calls} {npr : NvpktXmit} {v : Int}

theorem requestAndXmit_int {sgl : List Sg} {skb : SkBuff} (hxmit : IsInt calls.devQueueXmit)
    (h : (requestAndXmit k ns calls npr sgl skb).exit = .ret v) : IsInt v := by
  unfold requestAndXmit at h
  split at h
  · obtain rfl := Exit.ret.inj h
    exact errno_isInt _
  · dsimp only at h
    split at h
    · obtain rfl := Exit.ret.inj h
      exact errno_isInt _
    · unfold executeAndXmit at h
      split at h
      · obtain rfl := Exit.ret.inj h
        exact errno_isInt _
      · obtain rfl := Exit.ret.inj h
        exact hxmit

theorem txpktOne_int (hxmit : IsInt calls.devQueueXmit)
    (h : (nvpktIoctlTxpktOne k ns calls npr).exit = .ret v) : IsInt v := by
  cases hs : calls.sglAlloc with
  | none =>
    rw [txpktOne_unlisted hs] at h
    obtain rfl := Exit.ret.inj h
    exact errno_isInt _
  | some sgl =>
    obtain ⟨-, heq⟩ | ⟨-, -, -, heq⟩ | ⟨-, -, -, skb, heq⟩ :=
      skbFromSgvec_cases k calls sgl (sglLength k npr)
    · rw [txpktOne_null hs heq] at h
      cases h
    · rw [txpktOne_failed hs heq] at h
      obtain rfl := Exit.ret.inj h
      exact errno_isInt _
    · rw [txpktOne_built hs heq] at h
      exact requestAndXmit_int hxmit h

end One

section Ioctls
variable {k : Kernel} {ns : NvmeNs} {answers : Ioctl Byte} {fd : Int} {argv : List (List Char)}

theorem storePkt_returns_zero_iff (addr : Fin (2 ^ 64)) (htyped : Typed answers) :
    mainRet fd (nvpktIoctl k ns (storePkt addr answers)).exit = some 0 ↔
      0 ≤ fd ∧ Executes answers.submit := by
  have hexit : (nvpktIoctl k ns (storePkt addr answers)).exit =
      .ret (nvpktIoctlSubmitIo k ns answers.submit (storePktIo addr)).ret := rfl
  have hflags : (storePktIo addr).flags.val = 0 := rfl
  obtain ⟨hint, hzero⟩ := submitIo_ret k ns hflags htyped.status
  rw [mainRet_zero_iff, hexit, ← hzero, ← ioctlRet_int hint]
  simp

/-- A packet that `copy_from_user` has cut short is not looked at. -/
theorem uncopied_ne_zero (htyped : Typed answers) (hcopy : answers.copyFromUser ≠ 0) :
    ioctlRet answers.copyFromUser ≠ 0 := by
  have hle := htyped.copied
  rw [Ne, ioctlRet_int ⟨by omega, by omega⟩]
  omega

theorem xmitPkt_once_iff (htyped : Typed answers) (hcount : (xmitCount argv).val = 0) :
    mainRet fd (nvpktIoctl k ns (xmitPkt argv answers)).exit = some 0 ↔
      0 ≤ fd ∧ answers.copyFromUser = 0 ∧ Sends k (xmitPkt argv answers).npr (answers.calls 0) := by
  have hcmd : (xmitPkt argv answers).cmd.val = NVPKT_IOCTL_TXPKT := by
    rw [xmitPkt, if_pos hcount]
    rfl
  rw [mainRet_zero_iff, nvpktIoctl, if_pos hcmd]
  refine and_congr_right fun _ => ?_
  change (∃ v, (nvpktIoctlTxpkt k ns answers.copyFromUser (answers.calls 0)
    (xmitPkt argv answers).npr).exit = .ret v ∧ _) ↔ _
  rw [nvpktIoctlTxpkt]
  split
  case isTrue hcopy =>
    refine iff_of_false (fun h => ?_) (fun h => hcopy h.1)
    obtain ⟨v, hv, hzero⟩ := h
    obtain rfl := Exit.ret.inj hv
    exact uncopied_ne_zero htyped hcopy hzero
  case isFalse hcopy =>
    rw [and_iff_right (not_not.mp hcopy), ← txpktOne_exit_zero_iff k ns]
    constructor
    · intro h
      obtain ⟨v, hv, hzero⟩ := h
      rwa [(ioctlRet_int (txpktOne_int (htyped.xmit 0) hv)).mp hzero] at hv
    · intro h
      exact ⟨0, h, rfl⟩

/-- `atoi` gives an int, which is extended to 64 bits. -/
theorem xmitCount_extended (argv : List (List Char)) :
    (xmitCount argv).val < 2 ^ 31 ∨ 2 ^ 64 - 2 ^ 31 ≤ (xmitCount argv).val := by
  match argv with
  | [] => exact Or.inl (by decide)
  | arg :: rest =>
    have hlow := Int.le_bmod (x := strtol arg) (m := 2 ^ 32) (by decide)
    have hhigh := atoi_lt arg
    have hval : (xmitCount (arg :: rest)).val = wrap 64 (atoi arg % 2 ^ 64).toNat := rfl
    rw [hval, wrap]
    unfold atoi at hhigh ⊢
    omega

/-- Of these counts only -1 makes `count + 1` vanish. -/
theorem ioctlRet_count_iff (argv : List (List Char)) :
    ioctlRet (toSigned 64 ((xmitCount argv).val + 1)) = 0 ↔ (xmitCount argv).val = 2 ^ 64 - 1 := by
  have hextended := xmitCount_extended argv
  have hlt := (xmitCount argv).isLt
  rw [ioctlRet_eq_zero_iff, isError_count_iff hlt]
  unfold toSigned wrap
  split <;> omega

theorem xmitPkt_count_iff (htyped : Typed answers) (hcount : (xmitCount argv).val ≠ 0) :
    mainRet fd (nvpktIoctl k ns (xmitPkt argv answers)).exit = some 0 ↔
      0 ≤ fd ∧ answers.copyFromUser = 0 ∧ (xmitCount argv).val = 2 ^ 64 - 1 ∧
        ∀ i < (xmitCount argv).val, ¬ Oopses k (xmitPkt argv answers).npr (answers.calls i) := by
  have hcmd : (xmitPkt argv answers).cmd.val = NVPKT_IOCTL_TXPKT_COUNT := by
    rw [xmitPkt, if_neg hcount]
    rfl
  have hone : (xmitPkt argv answers).cmd.val ≠ NVPKT_IOCTL_TXPKT := by
    rw [hcmd]
    decide
  rw [mainRet_zero_iff, nvpktIoctl, if_neg hone, if_pos hcmd]
  refine and_congr_right fun _ => ?_
  change (∃ v, (nvpktIoctlTxpktCount k ns answers.copyFromUser answers.calls
    (xmitPkt argv answers).npr).exit = .ret v ∧ _) ↔ _
  rw [nvpktIoctlTxpktCount]
  split
  case isTrue hcopy =>
    refine iff_of_false (fun h => ?_) (fun h => hcopy h.1)
    obtain ⟨v, hv, hzero⟩ := h
    obtain rfl := Exit.ret.inj hv
    exact uncopied_ne_zero htyped hcopy hzero
  case isFalse hcopy =>
    have hnpr : (xmitPkt argv answers).npr.count = xmitCount argv := rfl
    have hoops := successive_oops_iff k ns answers.calls (xmitPkt argv answers).npr
      (xmitCount argv).val 0
    simp only [Nat.zero_add] at hoops
    rw [and_iff_right (not_not.mp hcopy), hnpr]
    obtain ⟨hsome, hexit⟩ | ⟨hnone, -, hexit⟩ :=
      txpktCountLoop_exit k ns answers.calls (xmitPkt argv answers).npr (xmitCount argv).val 0
    · refine iff_of_false (fun h => ?_) (fun h => ?_)
      · obtain ⟨v, hv, -⟩ := h
        rw [hexit] at hv
        cases hv
      · obtain ⟨i, hi, hbad⟩ := hoops.mp hsome
        exact h.2 i hi hbad
    · have hsafe : ∀ i < (xmitCount argv).val,
          ¬ Oopses k (xmitPkt argv answers).npr (answers.calls i) := by
        intro i hi hbad
        obtain ⟨r, hr, hroops⟩ := hoops.mpr ⟨i, hi, hbad⟩
        exact hnone r hr hroops
      rw [and_iff_left hsafe, hexit, Nat.zero_add, ← ioctlRet_count_iff]
      simp

end Ioctls

/-- `store-pkt` returns 0 exactly when its command was executed with status 0. `xmit-pkt`
without a count does exactly when the frame of its packet was accepted, and with a count
exactly when that is -1 and none of the packets ends in an oops, sent or not. -/
theorem native_status_iff (k : Kernel) (ns : NvmeNs) (fd : Int) (addr : Fin (2 ^ 64))
    (argv : List (List Char)) (answers : Ioctl Byte) (htyped : Typed answers) :
    (mainRet fd (nvpktIoctl k ns (storePkt addr answers)).exit = some 0 ↔
      0 ≤ fd ∧ Executes answers.submit) ∧
    ((xmitCount argv).val = 0 →
      (mainRet fd (nvpktIoctl k ns (xmitPkt argv answers)).exit = some 0 ↔
        0 ≤ fd ∧ answers.copyFromUser = 0 ∧
          Sends k (xmitPkt argv answers).npr (answers.calls 0))) ∧
    ((xmitCount argv).val ≠ 0 →
      (mainRet fd (nvpktIoctl k ns (xmitPkt argv answers)).exit = some 0 ↔
        0 ≤ fd ∧ answers.copyFromUser = 0 ∧ (xmitCount argv).val = 2 ^ 64 - 1 ∧
          ∀ i < (xmitCount argv).val,
            ¬ Oopses k (xmitPkt argv answers).npr (answers.calls i))) :=
  ⟨storePkt_returns_zero_iff addr htyped, xmitPkt_once_iff htyped, xmitPkt_count_iff htyped⟩

/-- Every call succeeds, and packets are sent from one page. -/
def sendingAnswers : Ioctl Nat :=
  { cmd := word 32 0, npr := ⟨word 64 0, word 64 0, word 64 0⟩
    io := storePktIo (word 64 0), copyFromUser := 0, calls := fun _ => sent
    submit := succeedingSubmit, memory := fun _ => 0 }

/-- A successful `store-pkt` returns 0, as does an `xmit-pkt` whose frame is accepted;
`xmit-pkt 3`, with all three of them accepted, does not. -/
theorem native_status_sending :
    mainRet 3 (nvpktIoctl x86_64 ⟨1, 9⟩ (storePkt 0 sendingAnswers)).exit = some 0 ∧
    mainRet 3 (nvpktIoctl x86_64 ⟨1, 9⟩ (xmitPkt [] sendingAnswers)).exit = some 0 ∧
    mainRet 3 (nvpktIoctl x86_64 ⟨1, 9⟩ (xmitPkt [['3']] sendingAnswers)).exit ≠ some 0 := by
  have haccepted : (-2 ^ 31 : Int) ≤ 0 ∧ (0 : Int) < 2 ^ 31 := by decide
  have htyped : Typed sendingAnswers := ⟨by decide, by decide, fun _ => haccepted⟩
  have hsends : Sends x86_64 (xmitPkt [] sendingAnswers).npr (sendingAnswers.calls 0) :=
    ⟨_, ⟨⟨rfl, rfl, rfl, rfl, rfl⟩, by decide, by decide⟩, rfl, rfl⟩
  refine ⟨?_, ?_, ?_⟩
  · exact (native_status_iff x86_64 ⟨1, 9⟩ 3 0 [] sendingAnswers htyped).1.mpr
      ⟨by decide, ⟨rfl, rfl, rfl⟩, rfl, rfl⟩
  · exact ((native_status_iff x86_64 ⟨1, 9⟩ 3 0 [] sendingAnswers htyped).2.1 rfl).mpr
      ⟨by decide, rfl, hsends⟩
  · intro h
    have hcount := ((native_status_iff x86_64 ⟨1, 9⟩ 3 0 [['3']] sendingAnswers htyped).2.2
      (by decide)).mp h
    exact absurd hcount.2.2.1 (by decide)

end Nvpkt.Guarantees.NativeStatus
