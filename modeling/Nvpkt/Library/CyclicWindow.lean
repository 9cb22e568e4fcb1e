import Mathlib.Data.List.Basic

/-!
# Windows of a cyclic index space

Positions are the numbers below `n`, `next` is the cyclic successor and
`dist n a b` the number of steps from `a` to `b`. The window from `a` to `b` is
the half-open cyclic interval that starts at `a` and ends before `b`; it never
holds all `n` positions, so an empty window is `a = b`. A window shrinks at its
front by `next` and grows at its end by `advance`.
-/

set_option autoImplicit false

namespace Nvpkt.Library.CyclicWindow

def next (n i : Nat) : Nat := if i + 1 = n then 0 else i + 1

/-- Steps from `a` to `b`, for positions below `n`. -/
def dist (n a b : Nat) : Nat := if a ≤ b then b - a else b + n - a

/-- The position `k` steps behind `i`, for `k` at most `n`. -/
def advance (n i k : Nat) : Nat := if i + k < n then i + k else i + k - n

/-- The first `k` positions from `i` on. -/
def cells (n : Nat) : Nat → Nat → List Nat
  | _, 0 => []
  | i, k + 1 => i :: cells n (next n i) k

variable {n a b i j k : Nat}

theorem next_lt (hi : i < n) : next n i < n := by
  unfold next
  split <;> omega

theorem next_eq_mod (hi : i < n) : next n i = (i + 1) % n := by
  unfold next
  split
  · rename_i hend
    rw [hend, Nat.mod_self]
  · exact (Nat.mod_eq_of_lt (by omega)).symm

theorem dist_lt (ha : a < n) (hb : b < n) : dist n a b < n := by
  unfold dist
  split <;> omega

@[simp] theorem dist_self : dist n a a = 0 := by simp [dist]

theorem dist_eq_zero_iff (ha : a < n) : dist n a b = 0 ↔ a = b := by
  unfold dist
  split <;> omega

/-- A step at the front of a nonempty window takes one position out of it. -/
theorem dist_next (ha : a < n) (hb : b < n) (hne : a ≠ b) :
    dist n (next n a) b + 1 = dist n a b := by
  unfold dist next
  split <;> split <;> split <;> omega

theorem advance_lt (hi : i < n) (hk : k ≤ n) : advance n i k < n := by
  unfold advance
  split <;> omega

@[simp] theorem advance_zero (hi : i < n) : advance n i 0 = i := by simp [advance, hi]

/-- Steps at the end lengthen the window, as long as one position stays outside. -/
theorem dist_advance (ha : a < n) (hb : b < n) (hk : dist n a b + k < n) :
    dist n a (advance n b k) = dist n a b + k := by
  unfold dist advance at *
  split at hk <;> split <;> split <;> omega

theorem advance_dist (ha : a < n) (hb : b < n) : advance n a (dist n a b) = b := by
  unfold dist advance
  split <;> split <;> omega

theorem advance_next (hk : k < n) : advance n (next n i) k = advance n i (k + 1) := by
  unfold advance next
  split <;> split <;> split <;> omega

theorem cells_succ_end (hi : i < n) (hk : k < n) :
    cells n i (k + 1) = cells n i k ++ [advance n i k] := by
  induction k generalizing i with
  | zero => simp [cells, hi]
  | succ k ih =>
    rw [cells, ih (next_lt hi) (by omega), advance_next (by omega), cells]
    rfl

/-- The positions of a window are the ones nearer to its front than its end is. -/
theorem mem_cells (hi : i < n) (hk : k < n) :
    j ∈ cells n i k ↔ j < n ∧ dist n i j < k := by
  induction k generalizing i with
  | zero => simp [cells]
  | succ k ih =>
    rw [cells, List.mem_cons, ih (next_lt hi) (by omega)]
    by_cases hj : j < n
    · by_cases he : j = i
      · subst he
        simp [hj]
      · have hstep := dist_next hi hj (Ne.symm he)
        constructor
        · rintro (h | ⟨_, h⟩)
          · exact absurd h he
          · exact ⟨hj, by omega⟩
        · rintro ⟨_, h⟩
          exact Or.inr ⟨hj, by omega⟩
    · constructor
      · rintro (rfl | ⟨h, _⟩)
        · exact absurd hi hj
        · exact absurd h hj
      · rintro ⟨h, _⟩
        exact absurd h hj

end Nvpkt.Library.CyclicWindow
