import Nvpkt.Library.CyclicWindow

/-!
# Netmap rings

`struct netmap_ring` with the helpers of `net/netmap_user.h` the tools use. The
user owns the slots from `head` up to but not including `tail`, cyclically; the
kernel owns the others and moves `tail` during system calls only. It always
keeps one slot, so that a ring with `head = tail` is the empty one.
-/

set_option autoImplicit false

namespace Nvpkt.Source.Netmap
open Nvpkt.Library.CyclicWindow

/-- `struct netmap_slot`, less the buffer index, which these tools leave alone. -/
structure Slot where
  len : Nat
  flags : Nat
  ptr : Nat
deriving DecidableEq

/-- A ring whose slots hold values of `σ`. -/
structure NetmapRing (σ : Type) where
  numSlots : Nat
  head : Nat
  cur : Nat
  tail : Nat
  slot : Nat → σ

variable {σ : Type}

def nmRingEmpty (r : NetmapRing σ) : Bool := r.cur == r.tail

def nmRingNext (r : NetmapRing σ) (i : Nat) : Nat := next r.numSlots i

def NetmapRing.setSlot (r : NetmapRing σ) (i : Nat) (s : σ) : NetmapRing σ :=
  { r with slot := fun j => if j = i then s else r.slot j }

/-- `ring->head = ring->cur = cur` -/
def NetmapRing.setHead (r : NetmapRing σ) (cur : Nat) : NetmapRing σ :=
  { r with head := cur, cur := cur }

@[simp] theorem NetmapRing.slot_setHead (r : NetmapRing σ) (cur : Nat) :
    (r.setHead cur).slot = r.slot := rfl

/-- How many slots the user owns. -/
def NetmapRing.window (r : NetmapRing σ) : Nat := dist r.numSlots r.head r.tail

/-- Slot `i` lies between `head` and `tail`. -/
def NetmapRing.Owned (r : NetmapRing σ) (i : Nat) : Prop :=
  i < r.numSlots ∧ dist r.numSlots r.head i < r.window

/-- Slots the kernel may still hand over. -/
def NetmapRing.kernelFree (r : NetmapRing σ) : Nat := r.numSlots - 1 - r.window

/-- The kernel hands over `k` more slots, as far as it has them. -/
def NetmapRing.release (r : NetmapRing σ) (k : Nat) : NetmapRing σ :=
  { r with tail := advance r.numSlots r.tail (min k r.kernelFree) }

@[simp] theorem NetmapRing.slot_release (r : NetmapRing σ) (k : Nat) :
    (r.release k).slot = r.slot := rfl

/-- The kernel puts `s` into the next slot, if it has one to hand over. -/
def NetmapRing.publish (r : NetmapRing σ) (s : σ) : NetmapRing σ :=
  if 0 < r.kernelFree then (r.setSlot r.tail s).release 1 else r

/-- The slots the user owns with their contents, from `head` on. -/
def NetmapRing.pending (r : NetmapRing σ) : List (Nat × σ) :=
  (cells r.numSlots r.head r.window).map fun i => (i, r.slot i)

/-- The positions are those of a ring, and `head` and `cur` agree. -/
structure NetmapRing.Synced (r : NetmapRing σ) : Prop where
  head_lt : r.head < r.numSlots
  tail_lt : r.tail < r.numSlots
  cur_eq : r.cur = r.head

variable {r : NetmapRing σ}

theorem NetmapRing.Synced.empty_iff (h : r.Synced) :
    nmRingEmpty r = true ↔ r.window = 0 := by
  rw [nmRingEmpty, beq_iff_eq, h.cur_eq, NetmapRing.window, dist_eq_zero_iff h.head_lt]

theorem NetmapRing.Synced.release (h : r.Synced) (k : Nat) : (r.release k).Synced := by
  have hw : r.window < r.numSlots := dist_lt h.head_lt h.tail_lt
  have hk : min k r.kernelFree ≤ r.numSlots := by
    unfold NetmapRing.kernelFree
    omega
  exact ⟨h.head_lt, advance_lt h.tail_lt hk, h.cur_eq⟩

/-- The slot at the front belongs to the user exactly when some slot does. -/
theorem NetmapRing.Synced.owned_cur (h : r.Synced) : r.Owned r.cur ↔ 0 < r.window := by
  rw [h.cur_eq, NetmapRing.Owned, dist_self]
  exact and_iff_right h.head_lt

/-- Moving `head` and `cur` one slot on keeps the ring in step. -/
theorem NetmapRing.Synced.setHead_next (h : r.Synced) :
    (r.setHead (nmRingNext r r.head)).Synced :=
  ⟨next_lt h.head_lt, h.tail_lt, rfl⟩

theorem NetmapRing.Synced.window_setHead_next (h : r.Synced) (hw : 0 < r.window) :
    (r.setHead (nmRingNext r r.head)).window + 1 = r.window := by
  apply dist_next h.head_lt h.tail_lt
  intro he
  rw [NetmapRing.window, he, dist_self] at hw
  omega

theorem NetmapRing.Synced.owned_advance (h : r.Synced) {k : Nat} (hk : k < r.window) :
    r.Owned (advance r.numSlots r.head k) := by
  have hw : r.window < r.numSlots := dist_lt h.head_lt h.tail_lt
  have hstep := dist_advance (k := k) h.head_lt h.head_lt (by rw [dist_self]; omega)
  rw [dist_self, Nat.zero_add] at hstep
  apply And.intro (advance_lt h.head_lt (by omega))
  rwa [hstep]

/-- A position at most `window` steps behind `head` is an owned slot or `tail`. -/
theorem NetmapRing.Synced.owned_or_tail (h : r.Synced) {k : Nat} (hk : k ≤ r.window) :
    r.Owned (advance r.numSlots r.head k) ∨ advance r.numSlots r.head k = r.tail := by
  rcases Nat.lt_or_eq_of_le hk with hlt | rfl
  · exact Or.inl (h.owned_advance hlt)
  · exact Or.inr (advance_dist h.head_lt h.tail_lt)

theorem NetmapRing.Synced.publish (h : r.Synced) (s : σ) : (r.publish s).Synced := by
  unfold NetmapRing.publish
  split
  · exact NetmapRing.Synced.release (r := r.setSlot r.tail s) ⟨h.head_lt, h.tail_lt, h.cur_eq⟩ 1
  · exact h

/-- Released slots lengthen the window. -/
theorem NetmapRing.Synced.window_release (h : r.Synced) {k : Nat}
    (hk : k ≤ r.kernelFree) : (r.release k).window = r.window + k := by
  have hw : r.window < r.numSlots := dist_lt h.head_lt h.tail_lt
  have hfit : r.window + k < r.numSlots := by
    unfold NetmapRing.kernelFree at hk
    omega
  rw [NetmapRing.release, Nat.min_eq_left hk]
  exact dist_advance h.head_lt h.tail_lt hfit

/-- A published slot joins the end of the owned ones and disturbs none of them. -/
theorem NetmapRing.Synced.pending_publish (h : r.Synced) (hfree : 0 < r.kernelFree)
    (s : σ) : (r.publish s).pending = r.pending ++ [(r.tail, s)] := by
  have hw : r.window < r.numSlots := dist_lt h.head_lt h.tail_lt
  have hset : (r.setSlot r.tail s).Synced := ⟨h.head_lt, h.tail_lt, h.cur_eq⟩
  have hlonger : ((r.setSlot r.tail s).release 1).window = r.window + 1 :=
    hset.window_release hfree
  have hend : advance r.numSlots r.head r.window = r.tail := advance_dist h.head_lt h.tail_lt
  have hkept : ∀ i ∈ cells r.numSlots r.head r.window, i ≠ r.tail := by
    intro i hi htail
    have hnear := ((mem_cells h.head_lt hw).mp hi).2
    rw [htail] at hnear
    exact absurd hnear (Nat.lt_irrefl _)
  rw [NetmapRing.publish, if_pos hfree, NetmapRing.pending, hlonger]
  show (cells r.numSlots r.head (r.window + 1)).map
      (fun i => (i, if i = r.tail then s else r.slot i)) = _
  rw [cells_succ_end h.head_lt hw, hend, List.map_append]
  congr 1
  · apply List.map_congr_left
    intro i hi
    rw [if_neg (hkept i hi)]
  · rw [List.map_singleton, if_pos rfl]

/-- Moving past the slot at `head` takes it off the front of the owned ones. -/
theorem NetmapRing.Synced.pending_setHead_next (h : r.Synced) (hw : 0 < r.window) :
    r.pending = (r.head, r.slot r.head) :: (r.setHead (nmRingNext r r.head)).pending := by
  unfold NetmapRing.pending
  rw [← h.window_setHead_next hw, cells, List.map_cons]
  rfl

end Nvpkt.Source.Netmap
