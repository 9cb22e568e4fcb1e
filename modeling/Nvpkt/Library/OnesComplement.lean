import Mathlib.Data.Nat.ModEq
import Mathlib.Algebra.BigOperators.Group.List.Basic

/-!
# Ones' complement sums

`onesAdd m a b` adds two numbers of at most `m` and puts the carry out of `m + 1` back in
at the end. Such a sum is one modulo `m`, with `m` in the place of every multiple of it
but 0 (`onesSum_eq_iff`).
-/

set_option autoImplicit false

namespace Nvpkt.Library.OnesComplement

def onesAdd (m a b : Nat) : Nat := (a + b) % (m + 1) + (a + b) / (m + 1)

def onesSum (m : Nat) (words : List Nat) : Nat := words.foldl (onesAdd m) 0

section Sum
variable {m a b : Nat} {words : List Nat}

theorem onesAdd_modEq : onesAdd m a b ≡ a + b [MOD m] := by
  have hdiv := Nat.div_add_mod (a + b) (m + 1)
  rw [Nat.add_mul, Nat.one_mul] at hdiv
  have hsplit : a + b = onesAdd m a b + m * ((a + b) / (m + 1)) := by
    rw [onesAdd]
    omega
  rw [hsplit]
  exact (Nat.ModEq.symm (by rw [Nat.ModEq, Nat.add_mul_mod_self_left]))

theorem onesAdd_le (ha : a ≤ m) (hb : b ≤ m) : onesAdd m a b ≤ m := by
  rw [onesAdd]
  by_cases hcarry : a + b < m + 1
  · rw [Nat.mod_eq_of_lt hcarry, Nat.div_eq_of_lt hcarry]
    omega
  · have hquot : (a + b) / (m + 1) = 1 := Nat.div_eq_of_lt_le (by omega) (by omega)
    have hdiv := Nat.div_add_mod (a + b) (m + 1)
    rw [hquot] at hdiv ⊢
    omega

theorem onesAdd_eq_zero_iff : onesAdd m a b = 0 ↔ a + b = 0 := by
  constructor
  · intro h
    rw [onesAdd, Nat.add_eq_zero_iff] at h
    have hdiv := Nat.div_add_mod (a + b) (m + 1)
    rw [h.1, h.2] at hdiv
    omega
  · intro h
    rw [onesAdd, h, Nat.zero_mod, Nat.zero_div]

theorem foldl_onesAdd (hwords : ∀ w ∈ words, w ≤ m) (ha : a ≤ m) :
    words.foldl (onesAdd m) a ≤ m ∧ words.foldl (onesAdd m) a ≡ a + words.sum [MOD m] ∧
      (words.foldl (onesAdd m) a = 0 ↔ a + words.sum = 0) := by
  induction words generalizing a with
  | nil => exact ⟨ha, Nat.ModEq.refl _, Iff.rfl⟩
  | cons w words ih =>
    rw [List.forall_mem_cons] at hwords
    obtain ⟨hle, hmod, hzero⟩ := ih hwords.2 (onesAdd_le ha hwords.1)
    rw [List.foldl_cons, List.sum_cons, ← Nat.add_assoc]
    refine ⟨hle, hmod.trans (onesAdd_modEq.add_right _), ?_⟩
    rw [hzero, Nat.add_eq_zero_iff, onesAdd_eq_zero_iff, ← Nat.add_eq_zero_iff]

/-- The sum is `m` exactly for the positive multiples of `m`. -/
theorem onesSum_eq_iff (hm : 0 < m) (hwords : ∀ w ∈ words, w ≤ m) :
    onesSum m words = m ↔ m ∣ words.sum ∧ 0 < words.sum := by
  obtain ⟨hle, hmod, hzero⟩ := foldl_onesAdd hwords (Nat.zero_le m)
  rw [Nat.zero_add] at hmod hzero
  rw [onesSum]
  constructor
  · intro h
    rw [h] at hmod hzero
    exact ⟨(Nat.modEq_zero_iff_dvd).mp (hmod.symm.trans (Nat.mod_self m)), by omega⟩
  · intro h
    have hdvd : m ∣ words.foldl (onesAdd m) 0 :=
      (Nat.modEq_zero_iff_dvd).mp (hmod.trans ((Nat.modEq_zero_iff_dvd).mpr h.1))
    exact Nat.le_antisymm hle (Nat.le_of_dvd (by omega) hdvd)

end Sum

end Nvpkt.Library.OnesComplement
