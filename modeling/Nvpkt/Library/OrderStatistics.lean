import Mathlib.Data.List.Sort
import Mathlib.Order.MinMax

/-!
# Order statistics of a list

`median` sorts the list and takes the middle, or the `mean` of the two middles when their
number is even. `Summarizes` says what median, maximum and minimum are without a word on
how they are found.
-/

set_option autoImplicit false

namespace Nvpkt.Library.OrderStatistics

section Middle
variable {V : Type} (mean : V → V → V)

/-- The value in the middle of a sorted list. -/
def middle (data : List V) : Option V :=
  let n := data.length
  if n % 2 = 1 then data[n / 2]?
  else
    match data[n / 2 - 1]?, data[n / 2]? with
    | some a, some b => some (mean a b)
    | _, _ => none

theorem middle_isSome {data : List V} (h : data ≠ []) : ∃ m, middle mean data = some m := by
  have hpos : 0 < data.length := List.length_pos_iff.mpr h
  unfold middle
  dsimp only
  split
  · exact ⟨_, List.getElem?_eq_getElem (by omega)⟩
  · rw [List.getElem?_eq_getElem (by omega), List.getElem?_eq_getElem (by omega)]
    exact ⟨_, rfl⟩

end Middle

section Ordered
variable {V : Type} [LinearOrder V] (mean : V → V → V)

def median (xs : List V) : Option V := middle mean xs.mergeSort

/-- The value in the middle, or the mean of the two in the middle. -/
def IsMedian (xs : List V) (m : V) : Prop :=
  ∃ data : List V, data.Perm xs ∧ data.Pairwise (· ≤ ·) ∧ middle mean data = some m

/-- The median, the maximum and the minimum of the values. -/
structure Summarizes (xs : List V) (med max min : V) : Prop where
  median : IsMedian mean xs med
  max_mem : max ∈ xs
  le_max : ∀ x ∈ xs, x ≤ max
  min_mem : min ∈ xs
  min_le : ∀ x ∈ xs, min ≤ x

/-- A list that is not empty has all three, and they are what the functions return. -/
theorem exists_summary {xs : List V} (h : xs ≠ []) : ∃ med max min,
    median mean xs = some med ∧ xs.max? = some max ∧ xs.min? = some min ∧
      Summarizes mean xs med max min := by
  have hperm : xs.mergeSort.Perm xs := List.mergeSort_perm _ _
  have hdata : xs.mergeSort ≠ [] := by
    intro hnil
    rw [hnil] at hperm
    exact h hperm.nil_eq.symm
  obtain ⟨med, hmed⟩ := middle_isSome mean hdata
  obtain ⟨max, hmax⟩ := Option.isSome_iff_exists.mp (List.isSome_max?_iff.mpr h)
  obtain ⟨min, hmin⟩ := Option.isSome_iff_exists.mp (List.isSome_min?_iff.mpr h)
  have hgreatest := List.max?_eq_some_iff.mp hmax
  have hleast := List.min?_eq_some_iff.mp hmin
  exact ⟨med, max, min, hmed, hmax, hmin,
    { median := ⟨_, hperm, List.pairwise_mergeSort' _ _, hmed⟩
      max_mem := hgreatest.1
      le_max := hgreatest.2
      min_mem := hleast.1
      min_le := hleast.2 }⟩

end Ordered

end Nvpkt.Library.OrderStatistics
