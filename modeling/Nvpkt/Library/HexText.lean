import Mathlib.Data.List.Basic

/-!
# Bytes in hexadecimal

`%02x` makes two digits of a byte. Digits are read back in pairs, whatever stands
between them, as long as it holds no digit (`readHex_digitsOf`).
-/

set_option autoImplicit false

namespace Nvpkt.Library.HexText

/-- `%02x` -/
def hex02 (n : Nat) : List Char := (Nat.toDigits 16 n).leftpad 2 '0'

def digitValue (c : Char) : Option Nat := (List.range 16).find? fun n => Nat.digitChar n == c

/-- The digits of a text. -/
def digitsOf (text : List Char) : List Char := text.filter fun c => (digitValue c).isSome

/-- The bytes that pairs of digits stand for. -/
def readHex : List Char → Option (List Nat)
  | [] => some []
  | [_] => none
  | a :: b :: rest => do
    let high ← digitValue a
    let low ← digitValue b
    let bytes ← readHex rest
    return (16 * high + low) :: bytes

theorem digitValue_digitChar : ∀ n < 16, digitValue (Nat.digitChar n) = some n := by decide

/-- A byte has two digits. -/
theorem hex02_byte {n : Nat} (h : n < 256) :
    hex02 n = [Nat.digitChar (n / 16), Nat.digitChar (n % 16)] := by
  rw [hex02]
  by_cases hsmall : n < 16
  · rw [Nat.toDigits_of_lt_base hsmall, Nat.div_eq_of_lt hsmall, Nat.mod_eq_of_lt hsmall]
    rfl
  · rw [Nat.toDigits_of_base_le (by decide) (by omega), Nat.toDigits_of_lt_base (by omega)]
    rfl

theorem length_hex02 {n : Nat} (h : n < 256) : (hex02 n).length = 2 := by
  rw [hex02_byte h]
  rfl

theorem digitsOf_append (left right : List Char) :
    digitsOf (left ++ right) = digitsOf left ++ digitsOf right := List.filter_append ..

theorem digitsOf_hex02 {n : Nat} (h : n < 256) : digitsOf (hex02 n) = hex02 n := by
  rw [hex02_byte h, digitsOf]
  simp [digitValue_digitChar (n / 16) (by omega), digitValue_digitChar (n % 16) (by omega)]

theorem digitsOf_blank {text : List Char} (h : ∀ c ∈ text, digitValue c = none) :
    digitsOf text = [] := by
  rw [digitsOf, List.filter_eq_nil_iff]
  intro c hc
  simp [h c hc]

theorem readHex_hex02 {n : Nat} (h : n < 256) (rest : List Char) :
    readHex (hex02 n ++ rest) = (readHex rest).map (n :: ·) := by
  have hbyte : 16 * (n / 16) + n % 16 = n := Nat.div_add_mod n 16
  have hhigh := digitValue_digitChar (n / 16) (by omega)
  have hlow := digitValue_digitChar (n % 16) (by omega)
  rw [hex02_byte h]
  simp only [List.cons_append, List.nil_append, readHex, hhigh, hlow, Option.bind_eq_bind,
    Option.bind_some, hbyte]
  cases readHex rest <;> rfl

/-- What stands between the bytes does not matter. -/
theorem readHex_digitsOf {ι : Type} {f : ι → Nat} {blanks : ι → List Char} {is : List ι}
    (hbytes : ∀ i ∈ is, f i < 256) (hblanks : ∀ i, ∀ c ∈ blanks i, digitValue c = none) :
    readHex (digitsOf (is.flatMap fun i => hex02 (f i) ++ blanks i)) = some (is.map f) := by
  induction is with
  | nil => rfl
  | cons i rest ih =>
    rw [List.forall_mem_cons] at hbytes
    rw [List.flatMap_cons, digitsOf_append, digitsOf_append, digitsOf_hex02 hbytes.1,
      digitsOf_blank (hblanks i), List.append_nil, readHex_hex02 hbytes.1, ih hbytes.2]
    rfl

end Nvpkt.Library.HexText
