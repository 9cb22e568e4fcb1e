import Mathlib.Logic.Function.Iterate
import Nvpkt.Source.BenchNvme

/-!
# The sequential walk

`next_lba` goes back to 0 unless the transfer after the next one would end in front of
`block_end`. With `<` in that test the last aligned slot is left out when it ends at
`block_end` itself, so the walk sweeps the device exactly when `nblocks` does not divide
`block_end`, or takes all of it, and the look-ahead stays within 64 bits (`sweep_iff`).
It then comes back to 0 from every start: a look-ahead that wraps around begins the next
lap at a smaller remainder modulo `nblocks` (`lapMeasure_step`).
-/

set_option autoImplicit false

namespace Nvpkt.Guarantees.SeqSweep
open Nvpkt.Library.FixedWidth
open Nvpkt.Source.BenchNvme

/-- `next_lba` in `WALK_SEQ` mode, which does not call `rand`. -/
def seqStep (blockEnd nblocks lba : Nat) : Nat := nextLba .seq 0 lba blockEnd nblocks

/-- From 0 the walk visits the aligned slots in their order and comes back, and from
every start it comes to 0 and repeats itself. -/
structure Sweeps (blockEnd nblocks : Nat) : Prop where
  visits : ∀ k < blockEnd / nblocks, (seqStep blockEnd nblocks)^[k] 0 = k * nblocks
  returns : (seqStep blockEnd nblocks)^[blockEnd / nblocks] 0 = 0
  periodic : ∀ lba < blockEnd, ∃ i, (seqStep blockEnd nblocks)^[i] lba = 0 ∧
    ∃ period > 0, ∀ j ≥ i, (seqStep blockEnd nblocks)^[j + period] lba =
      (seqStep blockEnd nblocks)^[j] lba

/-- The aligned slots that fit are those the walk is to visit. -/
theorem slot_fits_iff {blockEnd nblocks k : Nat} (hn : 0 < nblocks) :
    k * nblocks + nblocks ≤ blockEnd ↔ k < blockEnd / nblocks := by
  rw [← Nat.succ_mul, ← Nat.le_div_iff_mul_le hn, Nat.succ_le_iff]

section Walk
variable {blockEnd nblocks lba : Nat}

theorem seqStep_eq : seqStep blockEnd nblocks lba =
    if (lba + 2 * nblocks) % 2 ^ 64 < blockEnd then (lba + nblocks) % 2 ^ 64 else 0 := by
  have hahead : wrap 64 (lba + wrap 64 (nblocks <<< 1)) = (lba + 2 * nblocks) % 2 ^ 64 := by
    rw [Nat.shiftLeft_eq, Nat.pow_one, Nat.mul_comm]
    exact Nat.add_mod_mod lba _ _
  rw [seqStep, nextLba, hahead, wrap]

theorem seqStep_ahead (hend : blockEnd < 2 ^ 64) (h : lba + 2 * nblocks < blockEnd) :
    seqStep blockEnd nblocks lba = lba + nblocks := by
  rw [seqStep_eq, Nat.mod_eq_of_lt (by omega), if_pos h, Nat.mod_eq_of_lt (by omega)]

theorem seqStep_back (hlt : lba + 2 * nblocks < 2 ^ 64) (h : blockEnd ≤ lba + 2 * nblocks) :
    seqStep blockEnd nblocks lba = 0 := by
  rw [seqStep_eq, Nat.mod_eq_of_lt hlt, if_neg (Nat.not_lt.mpr h)]

/-- The slots that end in front of `blockEnd` are visited one after the other. -/
theorem orbit_eq (hend : blockEnd < 2 ^ 64) {k : Nat}
    (hk : k = 0 ∨ k * nblocks + nblocks < blockEnd) :
    (seqStep blockEnd nblocks)^[k] 0 = k * nblocks := by
  induction k with
  | zero => exact (Nat.zero_mul _).symm
  | succ k ih =>
    have hnext : (k + 1) * nblocks + nblocks < blockEnd := hk.resolve_left (Nat.succ_ne_zero k)
    rw [Nat.succ_mul] at hnext
    have hhere : (seqStep blockEnd nblocks)^[k] 0 = k * nblocks := ih (Or.inr (by omega))
    rw [Function.iterate_succ_apply', hhere, seqStep_ahead hend (by omega), Nat.succ_mul]

/-! ## Every start comes back -/

/-- The remainder of the look-ahead counts the laps, its quotient the steps of one. -/
def lapMeasure (blockEnd nblocks lba : Nat) : Nat :=
  (lba + 2 * nblocks) % 2 ^ 64 % nblocks * (blockEnd / nblocks + 2) +
    (blockEnd / nblocks + 1 - (lba + 2 * nblocks) % 2 ^ 64 / nblocks)

/-- A look-ahead that wraps around begins a lap at a smaller remainder. -/
theorem lapMeasure_step (hn : 0 < nblocks)
    (hroom : blockEnd / nblocks * nblocks + nblocks < 2 ^ 64)
    (h : (lba + 2 * nblocks) % 2 ^ 64 < blockEnd) :
    lapMeasure blockEnd nblocks ((lba + nblocks) % 2 ^ 64) < lapMeasure blockEnd nblocks lba := by
  have hnext : ((lba + nblocks) % 2 ^ 64 + 2 * nblocks) % 2 ^ 64 =
      ((lba + 2 * nblocks) % 2 ^ 64 + nblocks) % 2 ^ 64 := by
    rw [Nat.mod_add_mod, Nat.mod_add_mod]
    congr 1
    omega
  have hslots := Nat.lt_div_mul_add hn (a := blockEnd)
  unfold lapMeasure
  rw [hnext]
  generalize (lba + 2 * nblocks) % 2 ^ 64 = ahead at h ⊢
  generalize blockEnd / nblocks = slots at hroom hslots ⊢
  have hdiv := Nat.div_add_mod ahead nblocks
  have hquot : ahead / nblocks ≤ slots := by
    rw [← Nat.lt_succ_iff, Nat.div_lt_iff_lt_mul hn, Nat.succ_mul]
    omega
  by_cases hwrap : ahead + nblocks < 2 ^ 64
  · rw [Nat.mod_eq_of_lt hwrap, Nat.add_mod_right, Nat.add_div_right _ hn]
    omega
  · have hlap : (ahead + nblocks) % 2 ^ 64 = ahead + nblocks - 2 ^ 64 := by omega
    have hsmall : ahead + nblocks - 2 ^ 64 < nblocks := by omega
    have hmul : nblocks * (ahead / nblocks) ≤ slots * nblocks := by
      rw [Nat.mul_comm]
      exact Nat.mul_le_mul_right _ hquot
    have hdrop : ahead + nblocks - 2 ^ 64 + 1 ≤ ahead % nblocks := by omega
    rw [hlap, Nat.mod_eq_of_lt hsmall, Nat.div_eq_of_lt hsmall]
    have hless := Nat.mul_le_mul_right (slots + 2) hdrop
    rw [Nat.succ_mul] at hless
    omega

theorem reaches_zero (hn : 0 < nblocks)
    (hroom : blockEnd / nblocks * nblocks + nblocks < 2 ^ 64) (lba : Nat) :
    ∃ i, (seqStep blockEnd nblocks)^[i] lba = 0 := by
  induction hm : lapMeasure blockEnd nblocks lba using Nat.strong_induction_on generalizing lba with
  | _ m ih =>
    by_cases hahead : (lba + 2 * nblocks) % 2 ^ 64 < blockEnd
    · have hless := lapMeasure_step hn hroom hahead
      obtain ⟨i, hi⟩ := ih _ (hm ▸ hless) _ rfl
      refine ⟨i + 1, ?_⟩
      rw [Function.iterate_succ_apply, seqStep_eq, if_pos hahead, hi]
    · refine ⟨1, ?_⟩
      rw [Function.iterate_one, seqStep_eq, if_neg hahead]

/-! ## The sweep -/

/-- The last aligned slot of a divisible device is never reached. -/
theorem not_sweeps_of_dvd (hn : 0 < nblocks) (hend : blockEnd < 2 ^ 64) (hdvd : nblocks ∣ blockEnd)
    (hne : nblocks ≠ blockEnd) (hle : nblocks ≤ blockEnd) : ¬ Sweeps blockEnd nblocks := by
  intro h
  obtain ⟨slots, rfl⟩ := hdvd
  have hslots : nblocks * slots / nblocks = slots := Nat.mul_div_cancel_left slots hn
  obtain ⟨k, rfl⟩ : ∃ k, slots = k + 2 := by
    refine ⟨slots - 2, ?_⟩
    match slots, hne, hle with
    | 0, _, hle => omega
    | 1, hne, _ => omega
    | slots + 2, _, _ => omega
  have hbefore := h.visits k (by omega)
  have hlast := h.visits (k + 1) (by omega)
  have hahead : k * nblocks + 2 * nblocks = nblocks * (k + 2) := by
    rw [← Nat.add_mul, Nat.mul_comm]
  rw [Function.iterate_succ_apply', hbefore, seqStep_back (by omega) (by omega)] at hlast
  have hpos : 0 < (k + 1) * nblocks := Nat.mul_pos (Nat.succ_pos k) hn
  omega

/-- Every aligned slot is visited if none but the first one ends at `blockEnd`. -/
theorem visits_slot (hn : 0 < nblocks) (hend : blockEnd < 2 ^ 64)
    (hlast : ¬ nblocks ∣ blockEnd ∨ nblocks = blockEnd) {k : Nat} (hk : k < blockEnd / nblocks) :
    (seqStep blockEnd nblocks)^[k] 0 = k * nblocks := by
  have hfits := (slot_fits_iff hn).mpr hk
  apply orbit_eq hend
  obtain hnot | rfl := hlast
  · have hne : k * nblocks + nblocks ≠ blockEnd := by
      intro heq
      exact hnot ⟨k + 1, by rw [← heq, Nat.mul_succ, Nat.mul_comm]⟩
    exact Or.inr (by omega)
  · rw [Nat.div_self hn] at hk
    exact Or.inl (Nat.lt_one_iff.mp hk)

/-- Behind the visited slots comes the step from the last of them. -/
theorem step_behind_slots (hn : 0 < nblocks) (hle : nblocks ≤ blockEnd)
    (hvisits : ∀ k < blockEnd / nblocks, (seqStep blockEnd nblocks)^[k] 0 = k * nblocks) :
    ∃ lba, lba + nblocks = blockEnd / nblocks * nblocks ∧
      (seqStep blockEnd nblocks)^[blockEnd / nblocks] 0 = seqStep blockEnd nblocks lba := by
  obtain ⟨k, hk⟩ : ∃ k, blockEnd / nblocks = k + 1 :=
    Nat.exists_eq_succ_of_ne_zero (Nat.div_pos hle hn).ne'
  refine ⟨k * nblocks, ?_, ?_⟩
  · rw [hk, Nat.succ_mul]
  · rw [hk, Function.iterate_succ_apply', hvisits k (by omega)]

/-- The look-ahead of the last slot stays within 64 bits where the walk returns. -/
theorem Sweeps.room (h : Sweeps blockEnd nblocks) (hn : 0 < nblocks) (hle : nblocks ≤ blockEnd)
    (hend : blockEnd < 2 ^ 64) : blockEnd / nblocks * nblocks + nblocks < 2 ^ 64 := by
  by_contra hover
  have hfit := Nat.div_mul_le_self blockEnd nblocks
  have hreturns := h.returns
  obtain ⟨lba, hlast, hstep⟩ := step_behind_slots hn hle h.visits
  rw [hstep, seqStep_eq, if_pos (by omega)] at hreturns
  omega

/-- The walk sweeps the device exactly when its last slot does not end at `blockEnd`, or
is the only one, and the look-ahead behind it stays within 64 bits. -/
theorem sweep_iff (hn : 1 ≤ nblocks) (hle : nblocks ≤ blockEnd) (hend : blockEnd < 2 ^ 64) :
    Sweeps blockEnd nblocks ↔ (¬ nblocks ∣ blockEnd ∨ nblocks = blockEnd) ∧
      blockEnd / nblocks * nblocks + nblocks < 2 ^ 64 := by
  constructor
  · intro h
    refine ⟨?_, h.room hn hle hend⟩
    by_contra hnot
    rw [not_or, not_not] at hnot
    exact not_sweeps_of_dvd hn hend hnot.1 hnot.2 hle h
  · intro hcond
    obtain ⟨hlast, hroom⟩ := hcond
    have hvisits : ∀ k < blockEnd / nblocks, (seqStep blockEnd nblocks)^[k] 0 = k * nblocks :=
      fun k hk => visits_slot hn hend hlast hk
    have hreturns : (seqStep blockEnd nblocks)^[blockEnd / nblocks] 0 = 0 := by
      have hslots := Nat.lt_div_mul_add hn (a := blockEnd)
      obtain ⟨lba, hbehind, hstep⟩ := step_behind_slots hn hle hvisits
      rw [hstep, seqStep_back (by omega) (by omega)]
    refine ⟨hvisits, hreturns, fun lba _ => ?_⟩
    obtain ⟨i, hi⟩ := reaches_zero hn hroom lba
    refine ⟨i, hi, blockEnd / nblocks, Nat.div_pos hle hn, fun j hj => ?_⟩
    obtain ⟨m, rfl⟩ := Nat.exists_eq_add_of_le' hj
    rw [Nat.add_right_comm, Function.iterate_add_apply, hi, Function.iterate_add_apply, hreturns,
      Function.iterate_add_apply, hi]

end Walk

theorem sweep_ten_by_three : Sweeps 10 3 :=
  (sweep_iff (by decide) (by decide) (by decide)).mpr ⟨Or.inl (by decide), by decide⟩

/-- With I/Os of one block the last block of the device is never visited. -/
theorem last_block_skipped :
    (∀ i, (seqStep blockEnd 1)^[i] 0 ≠ blockEnd - 1) ∧ ¬ Sweeps blockEnd 1 := by
  constructor
  · have hend : blockEnd = 3907029168 := rfl
    have hinside : ∀ i, (seqStep blockEnd 1)^[i] 0 + 1 < blockEnd := by
      intro i
      induction i with
      | zero => decide
      | succ i ih =>
        rw [Function.iterate_succ_apply', seqStep_eq]
        split <;> omega
    intro i heq
    have hlt := hinside i
    omega
  · exact not_sweeps_of_dvd (by decide) (by decide) (one_dvd _) (by decide) (by decide)

end Nvpkt.Guarantees.SeqSweep
