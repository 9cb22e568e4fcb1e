import Nvpkt.Source.XmitFromPram

/-!
# Which slots the send loop writes

`Round.Safe` says that a round of `xmit-from-pram` stays in the transmit window:
every slot it writes belongs to the user when it is written, and `head` and
`cur` stay in the window or reach its end. The loop tests for space once a round
and then moves `batch` slots on, so a round is safe exactly when the window it
found holds `batch` slots (`round_safe_iff`), and a run exactly when all its
rounds did (`send_safe_iff`), for every ring, every batch and every order of
kernel progress. With two packets a round and one free slot the second write
hits a slot the kernel owns.
-/

set_option autoImplicit false

namespace Nvpkt.Guarantees.XmitWindow
open Nvpkt.Library.CyclicWindow
open Nvpkt.Source.Netmap
open Nvpkt.Source.XmitFromPram

/-- A round stays in the window it found. -/
structure Round.Safe (round : Round) : Prop where
  /-- No write hits a slot the kernel owns at that moment. -/
  write_owned : ∀ w ∈ round.writes, w.Owned w.cur
  /-- Nor one that the kernel owned when the round began. -/
  write_in_window : ∀ w ∈ round.writes, round.before.Owned w.cur
  /-- `head` and `cur` stay in the window, or at its end. -/
  head_in_window : ∀ w ∈ round.after :: round.writes, w.cur = w.head ∧
    (round.before.Owned w.head ∨ w.head = round.before.tail)

variable {args : Args} {r : NetmapRing Slot} {b : Nat}

theorem queueSlot_synced (h : r.Synced) : (queueSlot args r).Synced := by
  have hnext := h.setHead_next
  rw [← h.cur_eq] at hnext
  exact ⟨hnext.head_lt, hnext.tail_lt, hnext.cur_eq⟩

theorem queueSlot_head (h : r.Synced) :
    (queueSlot args r).head = next r.numSlots r.head := by
  rw [← h.cur_eq]
  rfl

/-- A queued packet takes one slot out of the window. -/
theorem queueSlot_window (args : Args) (h : r.Synced) (hw : 0 < r.window) :
    (queueSlot args r).window + 1 = r.window := by
  have hnext := h.window_setHead_next hw
  rw [← h.cur_eq] at hnext
  exact hnext

theorem sendBatch_synced (args : Args) (b : Nat) (h : r.Synced) :
    (sendBatch args b r).2.Synced := by
  induction b generalizing r with
  | zero => exact h
  | succ b ih => exact ih (queueSlot_synced h)

/-- The writes of a batch are all owned exactly when the window has room for it. -/
theorem sendBatch_owned_iff (h : r.Synced) :
    (∀ w ∈ (sendBatch args b r).1, w.Owned w.cur) ↔ b ≤ r.window := by
  induction b generalizing r with
  | zero => simp [sendBatch]
  | succ b ih =>
    rw [sendBatch, List.forall_mem_cons, h.owned_cur, ih (queueSlot_synced h)]
    constructor
    · intro hroom
      obtain ⟨hw, hb⟩ := hroom
      have hstep := queueSlot_window args h hw
      omega
    · intro hb
      have hw : 0 < r.window := by omega
      have hstep := queueSlot_window args h hw
      exact ⟨hw, by omega⟩

/-- The `j`-th write of a batch finds `head` and `cur` `j` slots behind the start,
and after the last one they are `b` slots behind it. -/
theorem sendBatch_heads (args : Args) (h : r.Synced) (hb : b < r.numSlots) :
    (∀ w ∈ (sendBatch args b r).1, w.cur = w.head ∧
      ∃ j < b, w.head = advance r.numSlots r.head j) ∧
    (sendBatch args b r).2.head = advance r.numSlots r.head b := by
  induction b generalizing r with
  | zero => simp [sendBatch, advance_zero h.head_lt]
  | succ b ih =>
    obtain ⟨hwrites, hlast⟩ := ih (queueSlot_synced h) (Nat.lt_of_succ_lt hb)
    have hbehind : ∀ j ≤ b, advance r.numSlots (queueSlot args r).head j =
        advance r.numSlots r.head (j + 1) := by
      intro j hj
      rw [queueSlot_head h]
      exact advance_next (by omega)
    constructor
    · rw [sendBatch, List.forall_mem_cons]
      constructor
      · exact ⟨h.cur_eq, 0, Nat.succ_pos b, (advance_zero h.head_lt).symm⟩
      · intro w hw
        obtain ⟨hcur, j, hj, hhead⟩ := hwrites w hw
        exact ⟨hcur, j + 1, Nat.succ_lt_succ hj, hhead.trans (hbehind j (Nat.le_of_lt hj))⟩
    · exact hlast.trans (hbehind b (Nat.le_refl b))

/-- A round is safe exactly when its window holds a whole batch. -/
theorem round_safe_iff (h : r.Synced) :
    Round.Safe (sendRound args r) ↔ args.batch ≤ r.window := by
  rw [← Int.toNat_le]
  constructor
  · intro hsafe
    exact (sendBatch_owned_iff h).mp hsafe.write_owned
  · intro hb
    have hw : r.window < r.numSlots := dist_lt h.head_lt h.tail_lt
    obtain ⟨hwrites, hlast⟩ := sendBatch_heads args h (Nat.lt_of_le_of_lt hb hw)
    constructor
    · exact (sendBatch_owned_iff h).mpr hb
    · intro w hw
      obtain ⟨hcur, j, hj, hhead⟩ := hwrites w hw
      rw [hcur, hhead]
      exact h.owned_advance (Nat.lt_of_lt_of_le hj hb)
    · rw [List.forall_mem_cons]
      constructor
      · have hend := sendBatch_synced args args.batch.toNat h
        apply And.intro hend.cur_eq
        rw [sendRound, hlast]
        exact h.owned_or_tail hb
      · intro w hw
        obtain ⟨hcur, j, hj, hhead⟩ := hwrites w hw
        apply And.intro hcur
        rw [hhead]
        exact h.owned_or_tail (Nat.le_of_lt (Nat.lt_of_lt_of_le hj hb))

/-- Every round starts on a ring in step that passed the one test for space. -/
theorem sendLoop_rounds (args : Args) (schedule : List Sync) {n : Int} (h : r.Synced) :
    ∀ round ∈ (sendLoop args schedule n r).rounds,
      ∃ ring : NetmapRing Slot, ring.Synced ∧ 0 < ring.window ∧ round = sendRound args ring := by
  have hroom : ∀ ring : NetmapRing Slot, ring.Synced → ¬ nmRingEmpty ring = true →
      0 < ring.window := by
    intro ring hring hempty
    rw [hring.empty_iff] at hempty
    exact Nat.pos_of_ne_zero hempty
  fun_induction sendLoop args schedule n r with
  | case1 schedule n r hn hempty => exact fun round hround => absurd hround List.not_mem_nil
  | case2 n r hn hempty => exact fun round hround => absurd hround List.not_mem_nil
  | case3 n r hn hempty round =>
    intro round hround
    obtain rfl := List.mem_singleton.mp hround
    exact ⟨r, h, hroom r h hempty, rfl⟩
  | case4 n r hn hempty round k later rest ih =>
    rw [List.forall_mem_cons]
    apply And.intro ⟨r, h, hroom r h hempty, rfl⟩
    exact ih ((sendBatch_synced args args.batch.toNat h).release k)
  | case5 schedule n r hn => exact fun round hround => absurd hround List.not_mem_nil

/-- A run stays in the transmit window exactly when every round it starts finds a
window of at least `batch` slots. -/
theorem send_safe_iff (args : Args) (schedule : List Sync) (r : NetmapRing Slot) (h : r.Synced) :
    (∀ round ∈ (sendLoop args schedule 0 r).rounds, Round.Safe round) ↔
      ∀ round ∈ (sendLoop args schedule 0 r).rounds, args.batch ≤ round.before.window := by
  have hrounds := sendLoop_rounds args schedule (n := 0) h
  constructor
  · intro hsafe round hround
    obtain ⟨ring, hring, -, rfl⟩ := hrounds round hround
    exact (round_safe_iff hring).mp (hsafe _ hround)
  · intro hwindow round hround
    obtain ⟨ring, hring, -, rfl⟩ := hrounds round hround
    exact (round_safe_iff hring).mpr (hwindow _ hround)

/-- A ring of four slots of which the user owns those from 0 up to `tail`. -/
def fourSlots (tail : Nat) : NetmapRing Slot :=
  { numSlots := 4, head := 0, cur := 0, tail := tail, slot := fun _ => ⟨0, 0, 0⟩ }

/-- Six packets of 512 bytes, two a round. -/
def twoARound : Args :=
  { count := 6, batch := 2, pktlen := 512, paddr := 0x1000, nsPhyIndirect := 0x20 }

/-- Three free slots hold a batch of two, and two released ones the next batch. -/
theorem send_safe_three_free :
    (fourSlots 3).Synced ∧
      ∀ round ∈ (sendLoop twoARound [.released 2, .released 2] 0 (fourSlots 3)).rounds,
        Round.Safe round := by
  have hsync : (fourSlots 3).Synced := ⟨by decide, by decide, rfl⟩
  apply And.intro hsync
  apply (send_safe_iff twoARound [.released 2, .released 2] (fourSlots 3) hsync).mpr
  decide

/-- With one free slot the second write of a batch of two hits the kernel's slot. -/
theorem batch_overruns_one_free :
    (fourSlots 1).Synced ∧
      ¬ ∀ round ∈ (sendLoop twoARound [.released 2] 0 (fourSlots 1)).rounds, Round.Safe round := by
  have hsync : (fourSlots 1).Synced := ⟨by decide, by decide, rfl⟩
  apply And.intro hsync
  intro hsafe
  have hround := hsafe (sendRound twoARound (fourSlots 1)) (List.mem_cons_self)
  exact absurd ((round_safe_iff hsync).mp hround) (by decide)

end Nvpkt.Guarantees.XmitWindow
