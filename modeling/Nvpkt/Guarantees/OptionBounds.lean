import Nvpkt.Library.FallibleLoop
import Nvpkt.Source.BenchOptions

/-!
# What the option loop lets through

Size and batch are checked against the limits of the arrays, the number of CPUs against
the machine only, and a negative time is announced but kept. Parameters that leave the
loop are safe exactly when the last `-n` names no more CPUs than there are entries of
`th`, and the last `-t` is not negative (`safe_iff`).
-/

set_option autoImplicit false

namespace Nvpkt.Guarantees.OptionBounds
open Nvpkt.Library.CommandLine Nvpkt.Library.FallibleLoop
open Nvpkt.Source.BenchNvme (maxCpuNum)
open Nvpkt.Source.BenchOptions

/-- What the arrays and `sleep` need of the parameters. -/
structure Safe (p : Param) : Prop where
  ncpus_pos : 1 ≤ p.ncpus
  ncpus_le : p.ncpus ≤ maxCpuNum
  batch_nonneg : 0 ≤ p.batch
  batch_le : p.batch ≤ maxBatchSize
  size_nonneg : 0 ≤ p.size
  time_nonneg : 0 ≤ p.time

/-- The value of the option `c` after `o`. -/
def follow (c : Char) (value : Int) : Opt → Int
  | .option d optarg => if d = c then atoi optarg else value
  | .unknown => value

/-- The value of the last option `c`, or the default. -/
def lastValue (c : Char) (default : Int) (opts : List Opt) : Int := opts.foldl (follow c) default

/-- What every pass of the loop sees to. -/
structure Checked (p : Param) : Prop where
  ncpus_pos : 1 ≤ p.ncpus
  batch_nonneg : 0 ≤ p.batch
  batch_le : p.batch ≤ maxBatchSize
  size_nonneg : 0 ≤ p.size

section Loop
variable {online : Int} {p p' : Param} {o : Opt} {argv : List (List Char)}

/-- A pass sets the member of its option, to a value it has checked but for the time. -/
theorem option_spec (h : option online p o = some p') :
    (Checked p → Checked p') ∧ p'.ncpus = follow 'n' p.ncpus o ∧
      p'.time = follow 't' p.time o := by
  unfold option at h
  split at h
  case h_1 optarg =>
    -- `-m`
    split at h
    · obtain rfl := Option.some.inj h
      exact ⟨fun hp => { hp with }, rfl, rfl⟩
    · split at h
      · obtain rfl := Option.some.inj h
        exact ⟨fun hp => { hp with }, rfl, rfl⟩
      · cases h
  case h_2 optarg =>
    -- `-w`
    split at h
    · obtain rfl := Option.some.inj h
      exact ⟨fun hp => { hp with }, rfl, rfl⟩
    · split at h
      · obtain rfl := Option.some.inj h
        exact ⟨fun hp => { hp with }, rfl, rfl⟩
      · split at h
        · obtain rfl := Option.some.inj h
          exact ⟨fun hp => { hp with }, rfl, rfl⟩
        · cases h
  case h_3 optarg =>
    -- `-s`
    obtain ⟨hsize, h⟩ := Option.ite_none_left_eq_some.mp h
    obtain rfl := Option.some.inj h
    exact ⟨fun hp => { hp with size_nonneg := not_lt.mp hsize }, rfl, rfl⟩
  case h_4 optarg =>
    -- `-b`
    obtain ⟨hbatch, h⟩ := Option.ite_none_left_eq_some.mp h
    obtain rfl := Option.some.inj h
    rw [not_or, not_lt, not_lt] at hbatch
    exact ⟨fun hp => { hp with batch_nonneg := hbatch.1, batch_le := hbatch.2 }, rfl, rfl⟩
  case h_5 optarg =>
    -- `-n`
    obtain ⟨hncpus, h⟩ := Option.ite_none_left_eq_some.mp h
    obtain rfl := Option.some.inj h
    rw [not_or, not_lt] at hncpus
    exact ⟨fun hp => { hp with ncpus_pos := hncpus.1 }, rfl, rfl⟩
  case h_6 optarg =>
    obtain rfl := Option.some.inj h
    exact ⟨fun hp => { hp with }, rfl, rfl⟩
  case h_7 optarg =>
    obtain rfl := Option.some.inj h
    exact ⟨fun hp => { hp with }, rfl, rfl⟩
  case h_8 =>
    obtain rfl := Option.some.inj h
    exact ⟨fun hp => { hp with }, rfl, rfl⟩
  case h_9 => cases h
  case h_10 => cases h

theorem default_checked : Checked .default := ⟨by decide, by decide, by decide, by decide⟩

theorem optionLoop_spec (h : optionLoop online argv = some p) :
    Checked p ∧ p.ncpus = lastValue 'n' 1 (getopt optstring argv) ∧
      p.time = lastValue 't' 1 (getopt optstring argv) := by
  refine ⟨?_, ?_, ?_⟩
  · exact foldlM_keeps (fun _ _ _ hstep => (option_spec hstep).1) h default_checked
  · exact foldlM_follows (fun _ _ _ hstep => (option_spec hstep).2.1) h
  · exact foldlM_follows (fun _ _ _ hstep => (option_spec hstep).2.2) h

theorem lastValue_lt {c : Char} {value : Int} {opts : List Opt} (h : value < 2 ^ 31) :
    lastValue c value opts < 2 ^ 31 := by
  induction opts generalizing value with
  | nil => exact h
  | cons o opts ih =>
    rw [lastValue, List.foldl_cons]
    refine ih ?_
    unfold follow
    split
    · split
      · exact atoi_lt _
      · exact h
    · exact h

/-- With safe parameters the threads, the buffers and the I/Os are indexed within their
arrays, and `sleep` gets the time that was asked for. -/
theorem Safe.in_bounds (h : Safe p) (hloop : optionLoop online argv = some p) :
    (∀ n : Nat, n < p.ncpus → n < maxCpuNum) ∧ (∀ b : Nat, b < p.batch → b < maxBatchSize) ∧
      (p.sleepArg : Int) = p.time := by
  have hncpus := h.ncpus_le
  have hbatch := h.batch_le
  have htime := h.time_nonneg
  have hint : p.time < 2 ^ 31 := by
    rw [(optionLoop_spec hloop).2.2]
    exact lastValue_lt (by decide)
  refine ⟨fun n hlt => by omega, fun b hlt => by omega, ?_⟩
  rw [Param.sleepArg]
  omega

end Loop

/-- Parameters that leave the loop are safe exactly when the last number of CPUs fits the
array of threads and the last time is not negative. -/
theorem safe_iff {online : Int} {argv : List (List Char)} {p : Param}
    (h : optionLoop online argv = some p) :
    Safe p ↔ lastValue 'n' 1 (getopt optstring argv) ≤ maxCpuNum ∧
      0 ≤ lastValue 't' 1 (getopt optstring argv) := by
  obtain ⟨hchecked, hncpus, htime⟩ := optionLoop_spec h
  rw [← hncpus, ← htime]
  constructor
  · exact fun hsafe => ⟨hsafe.ncpus_le, hsafe.time_nonneg⟩
  · exact fun hlast =>
      { hchecked with ncpus_le := hlast.1, time_nonneg := hlast.2 }

theorem safe_four_cpus : Safe { Param.default with ncpus := 4, time := 10 } :=
  (@safe_iff 8 [['-', 'n', '4'], ['-', 't'], ['1', '0']] _ rfl).mpr (by decide)

/-- On a machine with 64 CPUs `-n 33` leaves the loop, and so does `-t -5` on any. -/
theorem unsafe_accepted :
    (∃ p, optionLoop 64 [['-', 'n'], ['3', '3']] = some p ∧ ¬ Safe p) ∧
      ∃ p, optionLoop 64 [['-', 't'], ['-', '5']] = some p ∧ ¬ Safe p := by
  constructor
  · refine ⟨{ Param.default with ncpus := 33 }, rfl, fun h => ?_⟩
    exact absurd h.ncpus_le (by decide)
  · refine ⟨{ Param.default with time := -5 }, rfl, fun h => ?_⟩
    exact absurd h.time_nonneg (by decide)

end Nvpkt.Guarantees.OptionBounds
