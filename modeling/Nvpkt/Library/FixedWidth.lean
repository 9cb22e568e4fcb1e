import Mathlib.Data.Nat.ModEq

/-!
# Fixed-width unsigned arithmetic

`wrap w n` is the value an unsigned `w`-bit variable holds after `n` has been
assigned to it, and `wsub w a b` the difference computed in that width. The
lemmas say when the result is the mathematical one and, for a subtraction below
zero, what it is instead.
-/

set_option autoImplicit false

namespace Nvpkt.Library.FixedWidth

def wrap (w n : Nat) : Nat := n % 2 ^ w

/-- What an unsigned field of `w` bits holds then. -/
def word (w n : Nat) : Fin (2 ^ w) := ⟨wrap w n, Nat.mod_lt n (Nat.two_pow_pos w)⟩

/-- The same bits as a signed number. -/
def toSigned (w n : Nat) : Int :=
  if wrap w n < 2 ^ (w - 1) then wrap w n else wrap w n - (2 ^ w : Nat)

def wsub (w a b : Nat) : Nat := (a + (2 ^ w - b % 2 ^ w)) % 2 ^ w

theorem wrap_of_lt {w n : Nat} (h : n < 2 ^ w) : wrap w n = n := Nat.mod_eq_of_lt h

theorem wrap_wrap_add (w a b : Nat) : wrap w (wrap w a + b) = wrap w (a + b) :=
  Nat.mod_add_mod a (2 ^ w) b

theorem wrap_add_wrap (w a b : Nat) : wrap w (a + wrap w b) = wrap w (a + b) :=
  Nat.add_mod_mod a b (2 ^ w)

theorem wrap_mul_wrap (w a b : Nat) : wrap w (a * wrap w b) = wrap w (a * b) :=
  Nat.mul_mod_mod a b (2 ^ w)

theorem wsub_of_le {w a b : Nat} (h : b ≤ a) (ha : a < 2 ^ w) : wsub w a b = a - b := by
  have hb : b % 2 ^ w = b := Nat.mod_eq_of_lt (by omega)
  have hsum : a + (2 ^ w - b) = a - b + 2 ^ w := by omega
  rw [wsub, hb, hsum, Nat.add_mod_right, Nat.mod_eq_of_lt (by omega)]

/-- A subtraction below zero leaves the distance to the next multiple of `2 ^ w`. -/
theorem wsub_of_lt {w a b : Nat} (h : a < b) (hb : b < 2 ^ w) :
    wsub w a b = 2 ^ w - (b - a) := by
  have hbm : b % 2 ^ w = b := Nat.mod_eq_of_lt hb
  rw [wsub, hbm, Nat.mod_eq_of_lt (by omega)]
  omega

/-- The difference of two wrapped numbers is the wrapped difference. -/
theorem wsub_wrap_wrap {w a b : Nat} (h : b ≤ a) :
    wsub w (wrap w a) (wrap w b) = wrap w (a - b) := by
  obtain ⟨d, rfl⟩ := Nat.exists_eq_add_of_le h
  have hb : b % 2 ^ w ≤ 2 ^ w := (Nat.mod_lt b (Nat.two_pow_pos w)).le
  have hcancel : (b + d) % 2 ^ w + (2 ^ w - b % 2 ^ w) + b % 2 ^ w ≡ d + b % 2 ^ w
      [MOD 2 ^ w] := by
    have hsum : (b + d) % 2 ^ w + (2 ^ w - b % 2 ^ w) + b % 2 ^ w = (b + d) % 2 ^ w + 2 ^ w := by
      omega
    rw [hsum, Nat.ModEq, Nat.add_mod_right, Nat.mod_mod, Nat.add_mod_mod, Nat.add_comm]
  have hdiff := Nat.ModEq.add_right_cancel' _ hcancel
  rw [Nat.add_sub_cancel_left, wsub, wrap, wrap, wrap, Nat.mod_mod]
  exact hdiff

end Nvpkt.Library.FixedWidth
