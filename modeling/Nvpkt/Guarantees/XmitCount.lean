import Mathlib.Data.Int.Order.Basic
import Nvpkt.Guarantees.XmitWindow

/-!
# How many packets `xmit-from-pram` sends

The outer loop adds the final index of the inner one to its count, so it ends at the
first multiple of `batch` that reaches `count`, and never when `batch` is not positive.
With room in the ring and every sync succeeding the total is `count` exactly when
`batch` divides it (`send_exact_iff`).
-/

set_option autoImplicit false

namespace Nvpkt.Guarantees.XmitCount
open Nvpkt.Library.CyclicWindow
open Nvpkt.Source.Netmap
open Nvpkt.Source.XmitFromPram
open Nvpkt.Guarantees.XmitWindow

/-- Slots queued over a run. -/
def queuedCount : List Round → Nat
  | [] => 0
  | round :: rounds => round.writes.length + queuedCount rounds

section Rounds
variable (args : Args)

theorem sendBatch_length (b : Nat) (txring : NetmapRing Slot) :
    (sendBatch args b txring).1.length = b := by
  induction b generalizing txring with
  | zero => rfl
  | succ b ih => rw [sendBatch, List.length_cons, ih]

/-- Every round queues `batch` packets, and none when it is negative. -/
theorem queuedCount_sendLoop (schedule : List Sync) (n : Int) (txring : NetmapRing Slot) :
    queuedCount (sendLoop args schedule n txring).rounds =
      (sendLoop args schedule n txring).rounds.length * args.batch.toNat := by
  fun_induction sendLoop args schedule n txring with
  | case1 | case2 | case5 => simp [queuedCount]
  | case3 n txring hn hempty round =>
    simp [queuedCount, round, sendRound, sendBatch_length]
  | case4 n txring hn hempty round k later rest ih =>
    have hround : round.writes.length = args.batch.toNat := sendBatch_length args _ txring
    rw [queuedCount, ih, hround, List.length_cons, Nat.add_mul, Nat.one_mul]
    exact Nat.add_comm _ _

/-- Where the count stands when the loop stops at it or at a full ring. -/
theorem sendLoop_count (schedule : List Sync) (n : Int) (txring : NetmapRing Slot) :
    ((sendLoop args schedule n txring).stop = .counted →
        args.count ≤ n + queuedCount (sendLoop args schedule n txring).rounds) ∧
      ((sendLoop args schedule n txring).stop = .noEmptySlot →
        n + queuedCount (sendLoop args schedule n txring).rounds < args.count) := by
  fun_induction sendLoop args schedule n txring with
  | case1 schedule n txring hn => simpa [queuedCount] using hn
  | case2 | case3 => simp
  | case4 n txring hn hempty round k later rest ih =>
    have hround : round.writes.length = args.batch.toNat := sendBatch_length args _ txring
    have hmax : max 0 args.batch = (args.batch.toNat : Int) := by omega
    simp only [queuedCount, hround]
    constructor
    · intro hstop
      have hcount : args.count ≤ n + max 0 args.batch + queuedCount rest.rounds := ih.1 hstop
      omega
    · intro hstop
      have hcount : n + max 0 args.batch + queuedCount rest.rounds < args.count := ih.2 hstop
      omega
  | case5 schedule n txring hn => simpa [queuedCount] using hn

/-- With room and no failure the loop stops at a count that its rounds make up. -/
theorem sendLoop_counted (hbatch : 0 < args.batch) (schedule : List Sync) (n : Int)
    (txring : NetmapRing Slot) (hsync : ∀ sync ∈ schedule, sync ≠ .failed)
    (hroom : (sendLoop args schedule n txring).stop ≠ .noEmptySlot) (q : Nat)
    (hq : n + q * args.batch = args.count) (hlen : q ≤ schedule.length) :
    (sendLoop args schedule n txring).stop = .counted ∧
      (sendLoop args schedule n txring).rounds.length = q := by
  -- a round is behind the count, or there is none left
  have hstep : ∀ (q : Nat) (n : Int), n < args.count → n + q * args.batch = args.count →
      ∃ q', q = q' + 1 ∧ n + max 0 args.batch + q' * args.batch = args.count := by
    intro q n hn hq
    cases q with
    | zero => omega
    | succ q' =>
      refine ⟨q', rfl, ?_⟩
      rw [Int.max_eq_right (Int.le_of_lt hbatch), ← hq, Int.natCast_succ, Int.add_mul, Int.one_mul]
      omega
  fun_induction sendLoop args schedule n txring generalizing q with
  | case1 => exact absurd rfl hroom
  | case2 n txring hn =>
    obtain ⟨q', rfl, -⟩ := hstep q n hn hq
    exact absurd hlen (Nat.not_succ_le_zero q')
  | case3 => exact absurd rfl (hsync .failed List.mem_cons_self)
  | case4 n txring hn hempty round k later rest ih =>
    obtain ⟨q', rfl, hq'⟩ := hstep q n hn hq
    rw [List.forall_mem_cons] at hsync
    obtain ⟨hstop, hrounds⟩ := ih hsync.2 hroom q' hq' (Nat.le_of_succ_le_succ hlen)
    exact ⟨hstop, congrArg (· + 1) hrounds⟩
  | case5 schedule n txring hn =>
    refine ⟨rfl, ?_⟩
    cases q with
    | zero => rfl
    | succ q =>
      have hq0 : (0 : Int) ≤ q * args.batch :=
        Int.mul_nonneg (Int.natCast_nonneg q) (Int.le_of_lt hbatch)
      rw [Int.natCast_succ, Int.add_mul, Int.one_mul] at hq
      omega

end Rounds

/-! ## A kernel that keeps up -/

section Room
variable {args : Args} {r : NetmapRing Slot}

theorem window_release_all (h : r.Synced) {k : Nat} (hk : r.numSlots ≤ k) :
    (r.release k).window = r.numSlots - 1 := by
  have hw : r.window < r.numSlots := dist_lt h.head_lt h.tail_lt
  have hfree : r.kernelFree ≤ k := by
    unfold NetmapRing.kernelFree
    omega
  have hsame : r.release k = r.release r.kernelFree := by
    unfold NetmapRing.release
    rw [Nat.min_eq_right hfree, Nat.min_self]
  rw [hsame, h.window_release (Nat.le_refl _)]
  unfold NetmapRing.kernelFree
  omega

theorem sendBatch_numSlots (b : Nat) : (sendBatch args b r).2.numSlots = r.numSlots := by
  induction b generalizing r with
  | zero => rfl
  | succ b ih => exact ih

/-- Where every sync hands back all slots, the ring always has room. -/
theorem sendLoop_room {schedule : List Sync} (n : Int) (h : r.Synced) (hw : 0 < r.window)
    (hall : ∀ sync ∈ schedule, ∃ k, sync = .released k ∧ r.numSlots ≤ k) :
    (sendLoop args schedule n r).stop ≠ .noEmptySlot := by
  fun_induction sendLoop args schedule n r with
  | case1 schedule n r hn hempty =>
    rw [h.empty_iff] at hempty
    omega
  | case2 | case3 | case5 => exact fun h => Stop.noConfusion h
  | case4 n r hn hempty round k later rest ih =>
    rw [List.forall_mem_cons] at hall
    obtain ⟨⟨k', hk', hk⟩, hlater⟩ := hall
    obtain rfl : k = k' := Sync.released.inj hk'
    have hslots : r.window < r.numSlots := dist_lt h.head_lt h.tail_lt
    have hsynced : round.after.Synced := sendBatch_synced args args.batch.toNat h
    have hnum : round.after.numSlots = r.numSlots := sendBatch_numSlots args.batch.toNat
    refine ih (hsynced.release k) ?_ fun sync hsync => ?_
    · rw [window_release_all (k := k) hsynced (by omega)]
      omega
    · exact hnum.symm ▸ hlater sync hsync

end Room

/-- `passes` syncs that all succeed; sync `j` hands back `released j` slots. -/
def succeeding (released : Nat → Nat) (passes : Nat) : List Sync :=
  (List.range passes).map fun j => .released (released j)

/-- Where the ring always has room, the loop ends with `count` packets queued exactly
when `batch` is positive and divides the count, or there is nothing to send. -/
theorem send_exact_iff (args : Args) (hcount : 0 ≤ args.count) (released : Nat → Nat)
    (txring : NetmapRing Slot)
    (hroom : ∀ passes, (sendLoop args (succeeding released passes) 0 txring).stop ≠
      .noEmptySlot) :
    (∃ passes, (sendLoop args (succeeding released passes) 0 txring).stop = .counted ∧
        queuedCount (sendLoop args (succeeding released passes) 0 txring).rounds = args.count) ↔
      args.count = 0 ∨ (0 < args.batch ∧ args.batch ∣ args.count) := by
  constructor
  · intro hexact
    obtain ⟨passes, -, htotal⟩ := hexact
    rw [queuedCount_sendLoop] at htotal
    by_cases hbatch : 0 < args.batch
    · right
      refine ⟨hbatch, ?_⟩
      rw [← htotal, Int.natCast_mul, Int.toNat_of_nonneg (Int.le_of_lt hbatch)]
      exact Int.dvd_mul_left _ _
    · left
      rw [← htotal, Int.toNat_of_nonpos (Int.not_lt.mp hbatch), Nat.mul_zero]
      rfl
  · intro hcond
    obtain hzero | ⟨hbatch, q, hq⟩ := hcond
    · refine ⟨0, ?_⟩
      simp [succeeding, sendLoop, queuedCount, hzero]
    · have hq0 : 0 ≤ q := by
        by_contra hneg
        have hlt := Int.mul_neg_of_pos_of_neg hbatch (Int.not_le.mp hneg)
        omega
      obtain ⟨hstop, hlen⟩ := sendLoop_counted args hbatch
        (succeeding released q.toNat) 0 txring (by simp [succeeding]) (hroom _) q.toNat
        (by rw [Int.zero_add, Int.toNat_of_nonneg hq0, Int.mul_comm, hq]) (by simp [succeeding])
      refine ⟨q.toNat, hstop, ?_⟩
      rw [queuedCount_sendLoop, hlen, Int.natCast_mul, Int.toNat_of_nonneg hq0,
        Int.toNat_of_nonneg (Int.le_of_lt hbatch), hq, Int.mul_comm]

/-- A ring of eight slots of which the user owns seven. -/
def eightSlots : NetmapRing Slot :=
  { numSlots := 8, head := 0, cur := 0, tail := 7, slot := fun _ => ⟨0, 0, 0⟩ }

theorem eightSlots_room (args : Args) (passes : Nat) :
    (sendLoop args (succeeding (fun _ => 8) passes) 0 eightSlots).stop ≠ .noEmptySlot :=
  sendLoop_room 0 ⟨by decide, by decide, rfl⟩ (by decide) (by simp [succeeding, eightSlots])

/-- Six packets of 512 bytes. -/
def sixPackets (batch : Int) : Args :=
  { count := 6, batch := batch, pktlen := 512, paddr := 0x1000, nsPhyIndirect := 0x20 }

/-- Three a round. -/
theorem send_exact_three : ∃ passes,
    (sendLoop (sixPackets 3) (succeeding (fun _ => 8) passes) 0 eightSlots).stop = .counted ∧
      queuedCount (sendLoop (sixPackets 3) (succeeding (fun _ => 8) passes) 0
        eightSlots).rounds = (6 : Int) :=
  (send_exact_iff (sixPackets 3) (by decide) (fun _ => 8) eightSlots (eightSlots_room _)).mpr
    (by decide)

/-- Four a round send eight packets for six, and none a round never come to an end. -/
theorem batch_misses_count :
    (∀ batch passes, (sendLoop (sixPackets batch) (succeeding (fun _ => 8) passes) 0
        eightSlots).stop ≠ .noEmptySlot) ∧
      ((sendLoop (sixPackets 4) (succeeding (fun _ => 8) 3) 0 eightSlots).stop = .counted ∧
        queuedCount (sendLoop (sixPackets 4) (succeeding (fun _ => 8) 3) 0 eightSlots).rounds = 8) ∧
      (∀ passes, (sendLoop (sixPackets 0) (succeeding (fun _ => 8) passes) 0 eightSlots).stop ≠
        .counted) ∧
      ∀ batch ∈ [4, 0], ¬ ∃ passes,
        (sendLoop (sixPackets batch) (succeeding (fun _ => 8) passes) 0 eightSlots).stop =
            .counted ∧
          queuedCount (sendLoop (sixPackets batch) (succeeding (fun _ => 8) passes) 0
            eightSlots).rounds = (6 : Int) := by
  refine ⟨fun batch => eightSlots_room (sixPackets batch), by decide, fun passes hstop => ?_, ?_⟩
  · have hcount := (sendLoop_count (sixPackets 0) _ 0 eightSlots).1 hstop
    rw [queuedCount_sendLoop] at hcount
    exact absurd hcount (by simp [sixPackets])
  · simp only [List.forall_mem_cons, queuedCount_sendLoop, sixPackets]
    refine ⟨?_, ?_, fun batch hbatch => absurd hbatch List.not_mem_nil⟩
    · intro hexact
      obtain ⟨passes, -, htotal⟩ := hexact
      have h4 : Int.toNat 4 = 4 := rfl
      rw [h4] at htotal
      omega
    · intro hexact
      obtain ⟨passes, -, htotal⟩ := hexact
      have h0 : Int.toNat 0 = 0 := rfl
      rw [h0, Nat.mul_zero] at htotal
      omega

end Nvpkt.Guarantees.XmitCount
