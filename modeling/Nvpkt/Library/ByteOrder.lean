import Mathlib.Data.Nat.Digits.Defs

/-!
# Byte order

`bytes width v` are the `width` low bytes of a number, the least significant
first. `Nat.ofDigits 256` reads them back: storing and then reading gives the
number (`ofDigits_bytes`), and reading and then storing gives the bytes
(`bytes_ofDigits`).
-/

set_option autoImplicit false

namespace Nvpkt.Library.ByteOrder

def bytes : Nat → Nat → List Nat
  | 0, _ => []
  | width + 1, v => v % 256 :: bytes width (v / 256)

@[simp] theorem length_bytes (width v : Nat) : (bytes width v).length = width := by
  induction width generalizing v with
  | zero => rfl
  | succ width ih => rw [bytes, List.length_cons, ih]

theorem bytes_lt (width v : Nat) : ∀ b ∈ bytes width v, b < 256 := by
  induction width generalizing v with
  | zero => exact fun b hb => absurd hb List.not_mem_nil
  | succ width ih =>
    rw [bytes, List.forall_mem_cons]
    exact ⟨Nat.mod_lt v (by decide), ih (v / 256)⟩

theorem ofDigits_bytes (width v : Nat) : Nat.ofDigits 256 (bytes width v) = v % 256 ^ width := by
  induction width generalizing v with
  | zero => rw [bytes, Nat.ofDigits_nil, Nat.pow_zero, Nat.mod_one]
  | succ width ih => rw [bytes, Nat.ofDigits_cons, ih, Nat.pow_succ', Nat.mod_mul]

theorem bytes_ofDigits {l : List Nat} (hl : ∀ b ∈ l, b < 256) :
    bytes l.length (Nat.ofDigits 256 l) = l := by
  induction l with
  | nil => rfl
  | cons b l ih =>
    rw [List.forall_mem_cons] at hl
    have hhead : (b + 256 * Nat.ofDigits 256 l) % 256 = b := by
      rw [Nat.add_mul_mod_self_left, Nat.mod_eq_of_lt hl.1]
    have htail : (b + 256 * Nat.ofDigits 256 l) / 256 = Nat.ofDigits 256 l := by
      rw [Nat.add_mul_div_left _ _ (by decide), Nat.div_eq_of_lt hl.1, Nat.zero_add]
    rw [List.length_cons, bytes, Nat.ofDigits_cons, hhead, htail, ih hl.2]

/-- Byte `j` of record `i`, in a sequence of records of `width` bytes. -/
theorem getElem?_records {α : Type} {record : α → List Nat} {width : Nat}
    (hwidth : ∀ x, (record x).length = width) (l : List α) (i j : Nat) (hj : j < width) :
    (l.flatMap record)[width * i + j]? = l[i]?.bind fun x => (record x)[j]? := by
  induction l generalizing i with
  | nil => rfl
  | cons x l ih =>
    rw [List.flatMap_cons]
    cases i with
    | zero =>
      rw [List.getElem?_append_left (by rw [hwidth]; omega), Nat.mul_zero, Nat.zero_add]
      rfl
    | succ i =>
      have hrest : width * (i + 1) + j - width = width * i + j := by
        rw [Nat.mul_succ]
        omega
      rw [List.getElem?_append_right (by rw [hwidth, Nat.mul_succ]; omega), hwidth, hrest, ih,
        List.getElem?_cons_succ]

end Nvpkt.Library.ByteOrder
