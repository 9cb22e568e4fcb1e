import Mathlib.Tactic.Ring
import Nvpkt.Source.RecvToPram

/-!
# Where the slot buffers lie

`init_nm_rx_ring_for_phy` puts the buffers of ring `ri` behind `ri` times as many
buffers as the ring itself has slots. That leaves the other rings' slot counts
out, and no test compares the end with the mapping: the buffers are apart, inside
the mapping and computed without overflow exactly when every ring ends within the
mapping and any two rings' rows miss each other (`buffers_sound_iff`). Rings of
one size meet it as long as they all fit (`rowsFit_of_equal`), so 16 of 2048 slots
do and 17 do not.
-/

set_option autoImplicit false

namespace Nvpkt.Guarantees.SlotBuffers
open Nvpkt.Source.Netmap
open Nvpkt.Source.RecvToPram

variable {σ : Type}

/-- Every slot has a buffer of its own inside the mapping. -/
structure BuffersSound (desc : NmDesc σ) : Prop where
  inside : ∀ ri ≤ desc.lastRxRing, ∀ idx < (desc.rxring ri).numSlots,
    ∃ buf, slotBuf desc ri idx = some buf ∧ 0 ≤ buf ∧ buf + bufSize ≤ mappedSize
  apart : ∀ ri ≤ desc.lastRxRing, ∀ idx < (desc.rxring ri).numSlots,
    ∀ rj ≤ desc.lastRxRing, ∀ jdx < (desc.rxring rj).numSlots, (ri, idx) ≠ (rj, jdx) →
    ∀ a b, slotBuf desc ri idx = some a → slotBuf desc rj jdx = some b →
      a + bufSize ≤ b ∨ b + bufSize ≤ a

/-- How many buffers of the mapping lie before the first one of ring `ri`. -/
def firstBuf (desc : NmDesc σ) (ri : Nat) : Nat := (desc.rxring ri).numSlots * ri

/-- Counted in buffers, of which the mapping has 32768: every ring ends inside it,
and of two rings one ends before the other begins. -/
structure RowsFit (desc : NmDesc σ) : Prop where
  in_mapping : ∀ ri ≤ desc.lastRxRing, firstBuf desc ri + (desc.rxring ri).numSlots ≤ 32768
  rows_apart : ∀ ri rj, ri < rj → rj ≤ desc.lastRxRing →
    firstBuf desc ri + (desc.rxring ri).numSlots ≤ firstBuf desc rj ∨
    firstBuf desc rj + (desc.rxring rj).numSlots ≤ firstBuf desc ri

variable {desc : NmDesc σ} {ri idx : Nat}

/-- The row of a ring, in bytes. -/
theorem row_eq (desc : NmDesc σ) (ri : Nat) :
    ((desc.rxring ri).numSlots : Int) * 2048 * ri = 2048 * (firstBuf desc ri : Int) := by
  rw [firstBuf, Nat.cast_mul]
  ring

theorem firstBuf_of_empty (h : (desc.rxring ri).numSlots = 0) : firstBuf desc ri = 0 := by
  rw [firstBuf, h, Nat.zero_mul]

/-- A ring that ends inside the mapping has its buffers side by side. -/
theorem slotBuf_eq (hfit : firstBuf desc ri + (desc.rxring ri).numSlots ≤ 32768)
    (hidx : idx < (desc.rxring ri).numSlots) :
    slotBuf desc ri idx = some (2048 * ((firstBuf desc ri + idx : Nat) : Int)) := by
  rw [slotBuf, asInt_of_lt (by omega), asInt_of_lt (by omega), nmslotToBuf_eq_some, row_eq]
  push_cast
  omega

/-- No buffer is computed for the slots from 2^20 on. -/
theorem idx_lt_of_some {buf : Int} (hidx : idx ≤ 2 ^ 20) (h : slotBuf desc ri idx = some buf) :
    idx < 2 ^ 20 := by
  rw [slotBuf, asInt_of_lt (by omega), nmslotToBuf_eq_some] at h
  omega

/-- Buffers that are all inside the mapping are the last one's bound. -/
theorem in_mapping_of_inside
    (h : ∀ idx < (desc.rxring ri).numSlots,
      ∃ buf, slotBuf desc ri idx = some buf ∧ 0 ≤ buf ∧ buf + bufSize ≤ mappedSize) :
    firstBuf desc ri + (desc.rxring ri).numSlots ≤ 32768 := by
  have hsmall : (desc.rxring ri).numSlots ≤ 2 ^ 20 := by
    apply Nat.le_of_not_lt
    intro hlarge
    obtain ⟨buf, hbuf, -⟩ := h (2 ^ 20) hlarge
    exact absurd (idx_lt_of_some (Nat.le_refl _) hbuf) (Nat.lt_irrefl _)
  rcases Nat.eq_zero_or_pos (desc.rxring ri).numSlots with hzero | hpos
  · rw [firstBuf_of_empty hzero, hzero]
    exact Nat.zero_le _
  · obtain ⟨buf, hbuf, -, hend⟩ := h ((desc.rxring ri).numSlots - 1) (by omega)
    rw [slotBuf, asInt_of_lt (by omega), asInt_of_lt (by omega), nmslotToBuf_eq_some,
      row_eq] at hbuf
    unfold bufSize mappedSize at hend
    omega

/-- Two rows that overlap share a buffer; a ring without slots has no row. -/
theorem shared_of_overlap {a b m n : Nat} (ha : m = 0 → a = 0) (hb : n = 0 → b = 0)
    (h : ¬ (a + m ≤ b ∨ b + n ≤ a)) : ∃ i < m, ∃ j < n, a + i = b + j := by
  rcases Nat.le_total a b with hab | hba
  · exact ⟨b - a, by omega, 0, by omega, by omega⟩
  · exact ⟨0, by omega, a - b, by omega, by omega⟩

/-- The buffers are apart, inside the mapping and computed without overflow exactly
when the rows of the rings are apart and inside it. -/
theorem buffers_sound_iff (desc : NmDesc σ) : BuffersSound desc ↔ RowsFit desc := by
  constructor
  · intro h
    have hfit : ∀ ri ≤ desc.lastRxRing,
        firstBuf desc ri + (desc.rxring ri).numSlots ≤ 32768 :=
      fun ri hri => in_mapping_of_inside (h.inside ri hri)
    constructor
    · exact hfit
    · intro ri rj hlt hrj
      by_contra hover
      obtain ⟨idx, hidx, jdx, hjdx, hsame⟩ :=
        shared_of_overlap firstBuf_of_empty firstBuf_of_empty hover
      have hri : ri ≤ desc.lastRxRing := by omega
      have hne : (ri, idx) ≠ (rj, jdx) := fun heq => absurd (congrArg Prod.fst heq) hlt.ne
      have hapart := h.apart ri hri idx hidx rj hrj jdx hjdx hne _ _
        (slotBuf_eq (hfit ri hri) hidx) (slotBuf_eq (hfit rj hrj) hjdx)
      rw [hsame, bufSize] at hapart
      omega
  · intro h
    constructor
    · intro ri hri idx hidx
      have hfit := h.in_mapping ri hri
      refine ⟨_, slotBuf_eq hfit hidx, by omega, ?_⟩
      unfold bufSize mappedSize
      omega
    · intro ri hri idx hidx rj hrj jdx hjdx hne a b ha hb
      rw [slotBuf_eq (h.in_mapping ri hri) hidx, Option.some_inj] at ha
      rw [slotBuf_eq (h.in_mapping rj hrj) hjdx, Option.some_inj] at hb
      subst ha hb
      unfold bufSize
      rcases Nat.lt_trichotomy ri rj with hlt | rfl | hgt
      · have hrows := h.rows_apart ri rj hlt hrj
        omega
      · have hidx : idx ≠ jdx := fun heq => hne (heq ▸ rfl)
        omega
      · have hrows := h.rows_apart rj ri hgt hri
        omega

/-- Rings of one size `n` fit as long as all of them together do. -/
theorem rowsFit_of_equal {n : Nat}
    (hsize : ∀ ri ≤ desc.lastRxRing, (desc.rxring ri).numSlots = n)
    (hall : n * (desc.lastRxRing + 1) ≤ 32768) : RowsFit desc := by
  constructor
  · intro ri hri
    have hrow : n * ri ≤ n * desc.lastRxRing := Nat.mul_le_mul_left n hri
    rw [firstBuf, hsize ri hri]
    rw [Nat.mul_succ] at hall
    omega
  · intro ri rj hlt hrj
    have hrow : n * (ri + 1) ≤ n * rj := Nat.mul_le_mul_left n hlt
    left
    rw [firstBuf, firstBuf, hsize ri (by omega), hsize rj hrj]
    rwa [Nat.mul_succ] at hrow

/-- A port with 17 rings of 2048 slots. -/
def seventeenRings : NmDesc Slot where
  firstRxRing := 0
  lastRxRing := 16
  rxring := fun _ =>
    { numSlots := 2048, head := 0, cur := 0, tail := 0, slot := fun _ => ⟨0, 0, 0⟩ }
  last_lt := by decide
  slots_lt := fun _ => by decide

/-- The last ring's first buffer begins where the mapping ends. -/
theorem seventeen_rings_overrun :
    slotBuf seventeenRings 16 0 = some mappedSize ∧ ¬ BuffersSound seventeenRings := by
  have hlast : slotBuf seventeenRings 16 0 = some mappedSize := by decide
  apply And.intro hlast
  intro h
  obtain ⟨buf, hbuf, -, hend⟩ := h.inside 16 (by decide) 0 (by decide)
  rw [hlast, Option.some_inj] at hbuf
  rw [← hbuf] at hend
  exact absurd hend (by decide)

end Nvpkt.Guarantees.SlotBuffers
