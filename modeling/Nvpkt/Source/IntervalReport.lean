import Mathlib.Algebra.BigOperators.Group.Finset.Basic
import Mathlib.Logic.Function.Basic
import Nvpkt.Library.FixedWidth

/-!
# The interval reporter of `bench-nvme`

The threads that share `th`: the workers of `bench_start`, seen by their two counters,
and `report_interval`, which calls `print_interval_result` again and again. A schedule
names the thread whose turn it is. A turn of a worker is one of the two increments
behind a poll that returned 0, as nothing else touches its counters; a turn of the
reporter reads one counter, or ends one of its two loops. The counters are unbounded
here and the sums of the reporter 64 bits wide.
-/

set_option autoImplicit false

namespace Nvpkt.Source.IntervalReport
open Nvpkt.Library.FixedWidth

/-- The members of `struct bench_thread` that the reporter reads. -/
inductive Field where
  | count
  | bytes
deriving DecidableEq

/-- The loops of `print_interval_result` in front of `sleep` and behind it. -/
inductive Loop where
  | start
  | stop
deriving DecidableEq

inductive Party where
  | worker (n : Nat)
  | reporter

/-- `th[n].count` and `th[n].bytes`. -/
abbrev Counters := Nat → Field → Nat

/-- `print_interval_result`, about to read the counter `next` of thread `n`. -/
structure Reporter where
  loop : Loop
  n : Nat
  next : Field
  /-- `count_start`, `bytes_start`, `count_end` and `bytes_end`. -/
  sums : Loop → Field → Nat
  /-- What the loops have read, which the code keeps in the sums only. -/
  seen : Loop → Nat → Field → Nat

structure Report where
  sums : Loop → Field → Nat
  seen : Loop → Nat → Field → Nat

/-- `count_end - count_start` and `bytes_end - bytes_start`. -/
def Report.difference (r : Report) (f : Field) : Nat := wsub 64 (r.sums .stop f) (r.sums .start f)

structure Bench where
  counters : Counters
  /-- Whether worker `n` has done the first of its two increments. -/
  between : Nat → Bool
  reporter : Reporter
  reports : List Report

/-- `print_interval_result` when it is called. -/
def Reporter.entry : Reporter :=
  { loop := .start, n := 0, next := .count, sums := fun _ _ => 0, seen := fun _ _ _ => 0 }

def Bench.init : Bench :=
  { counters := fun _ _ => 0, between := fun _ => false, reporter := .entry, reports := [] }

/-- `th->bytes += p.size`, and `th->count += 1` in the next turn. -/
def Bench.work (size n : Nat) (s : Bench) : Bench :=
  let f := if s.between n then Field.count else Field.bytes
  let amount := if s.between n then 1 else size
  { s with
    counters := fun i g => if i = n ∧ g = f then s.counters i g + amount else s.counters i g
    between := Function.update s.between n (!s.between n) }

/-- The body of either loop, up to the next counter. -/
def Reporter.read (counters : Counters) (r : Reporter) : Reporter :=
  let value := counters r.n r.next
  { r with
    n := match r.next with
      | .count => r.n
      | .bytes => r.n + 1
    next := match r.next with
      | .count => .bytes
      | .bytes => .count
    sums := fun l f =>
      if l = r.loop ∧ f = r.next then wrap 64 (r.sums l f + value) else r.sums l f
    seen := fun l i f => if l = r.loop ∧ i = r.n ∧ f = r.next then value else r.seen l i f }

/-- The reporter's turn: it reads while `n < p.ncpus`, leaves the first loop for the
second one, and at the end of that prints and is called again. -/
def Bench.report (ncpus : Nat) (s : Bench) : Bench :=
  if s.reporter.n < ncpus then { s with reporter := s.reporter.read s.counters }
  else
    match s.reporter.loop with
    | .start => { s with reporter := { s.reporter with loop := .stop, n := 0, next := .count } }
    | .stop =>
      { s with
        reporter := .entry
        reports := s.reports ++ [{ sums := s.reporter.sums, seen := s.reporter.seen }] }

def Bench.step (ncpus size : Nat) (s : Bench) : Party → Bench
  | .worker n => s.work size n
  | .reporter => s.report ncpus

/-- The benchmark after the turns of a schedule. -/
def run (ncpus size : Nat) (schedule : List Party) : Bench :=
  schedule.foldl (Bench.step ncpus size) .init

/-- The sum of one counter over the threads. -/
def total (ncpus : Nat) (counters : Counters) (f : Field) : Nat :=
  ∑ n ∈ Finset.range ncpus, counters n f

/-! ## The worker -/

theorem work_counter_le (size n : Nat) (s : Bench) (i : Nat) (f : Field) :
    s.counters i f ≤ (s.work size n).counters i f := by
  dsimp only [Bench.work]
  split <;> split <;> omega

/-- A worker's bytes are those of the I/Os it has counted, and of the one it is about
to count. -/
def Settled (size : Nat) (s : Bench) : Prop :=
  ∀ n, s.counters n .bytes = size * (s.counters n .count + if s.between n then 1 else 0)

theorem Settled.work {size : Nat} {s : Bench} (h : Settled size s) (n : Nat) :
    Settled size (s.work size n) := by
  intro i
  by_cases hi : i = n
  · subst hi
    have hhere := h i
    cases hbetween : s.between i with
    | false =>
      simp only [hbetween, Bool.false_eq_true, if_false] at hhere
      simp [Bench.work, hbetween, hhere, Nat.mul_succ]
    | true =>
      simp only [hbetween, if_true] at hhere
      simp [Bench.work, hbetween, hhere]
  · simpa [Bench.work, hi] using h i

theorem Settled.dvd {size : Nat} {s : Bench} (h : Settled size s) (n : Nat) :
    size ∣ s.counters n .bytes := ⟨_, h n⟩

theorem Settled.count_le {size : Nat} {s : Bench} (h : Settled size s) (n : Nat) :
    size * s.counters n .count ≤ s.counters n .bytes := by
  rw [h n]
  exact Nat.mul_le_mul_left size (Nat.le_add_right _ _)

end Nvpkt.Source.IntervalReport
