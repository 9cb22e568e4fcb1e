import Mathlib.Algebra.Order.BigOperators.Group.Finset
import Nvpkt.Library.SampledCounter
import Nvpkt.Source.IntervalReport

/-!
# What the interval reports count

The reporter reads every counter twice for a report, and each counter only grows. So
the differences are never negative, and no I/O is counted twice and none has its bytes
added up twice (`reported_once`). It can be between its two increments when a report
ends, and then its bytes are in that report and its count in a later one.
-/

set_option autoImplicit false

namespace Nvpkt.Guarantees.ReportedIntervals
open Nvpkt.Library.FixedWidth
open Nvpkt.Library.SampledCounter
open Nvpkt.Source.IntervalReport

/-! ## What the reporter has read -/

section Readings
variable (ncpus : Nat) (r : Reporter)

/-- For how many threads the loop `l` has read the counter `f`. -/
def readSoFar (l : Loop) (f : Field) : Nat :=
  match l, r.loop with
  | .start, .stop => ncpus
  | .stop, .start => 0
  | _, _ =>
    match r.next, f with
    | .bytes, .count => r.n + 1
    | _, _ => r.n

/-- The readings of one counter for the report in progress. -/
def pending (i : Nat) (f : Field) : List Nat :=
  (if i < readSoFar ncpus r .start f then [r.seen .start i f] else []) ++
    if i < readSoFar ncpus r .stop f then [r.seen .stop i f] else []

/-- All readings of one counter, in their order. -/
def history (reports : List Report) (i : Nat) (f : Field) : List Nat :=
  readings (fun rep : Report => rep.seen .start i f) (fun rep => rep.seen .stop i f) reports ++
    pending ncpus r i f

theorem readSoFar_here : readSoFar ncpus r r.loop r.next = r.n := by
  obtain ⟨loop, n, next, sums, seen⟩ := r
  cases loop <;> cases next <;> rfl

theorem readSoFar_read (c : Counters) (l : Loop) (f : Field) :
    readSoFar ncpus (r.read c) l f =
      readSoFar ncpus r l f + if l = r.loop ∧ f = r.next then 1 else 0 := by
  obtain ⟨loop, n, next, sums, seen⟩ := r
  cases loop <;> cases next <;> cases l <;> cases f <;> rfl

variable {ncpus r}

/-- A turn adds the value of one counter to its readings. -/
theorem pending_read (hn : r.n < ncpus) (c : Counters) (i : Nat) (f : Field) :
    pending ncpus (r.read c) i f =
      pending ncpus r i f ++ if i = r.n ∧ f = r.next then [c i f] else [] := by
  obtain ⟨loop, n, next, sums, seen⟩ := r
  dsimp only at hn
  unfold pending
  simp only [readSoFar_read]
  cases loop <;> cases next <;> cases f <;> grind [readSoFar, Reporter.read]

end Readings

/-! ## The invariant -/

/-- The numbers of one report, complete for the threads below `n`. -/
structure Read (size n : Nat) (sums : Loop → Field → Nat) (seen : Loop → Nat → Field → Nat) :
    Prop where
  sums_eq : ∀ l f, sums l f = wrap 64 (∑ i ∈ Finset.range n, seen l i f)
  counted : ∀ i < n, size * seen .stop i .count ≤ seen .stop i .bytes

/-- The reporter's view of the counters. -/
structure View (ncpus size : Nat) (s : Bench) : Prop where
  index_le : s.reporter.n ≤ ncpus
  index_lt : s.reporter.next = .bytes → s.reporter.n < ncpus
  sorted : ∀ i < ncpus, ∀ f,
    (history ncpus s.reporter s.reports i f ++ [s.counters i f]).Pairwise (· ≤ ·)
  whole : ∀ i < ncpus, ∀ v ∈ history ncpus s.reporter s.reports i .bytes, size ∣ v
  sums_eq : ∀ l f, s.reporter.sums l f =
    wrap 64 (∑ i ∈ Finset.range (readSoFar ncpus s.reporter l f), s.reporter.seen l i f)
  counted : ∀ i < readSoFar ncpus s.reporter .stop .count,
    size * s.reporter.seen .stop i .count ≤
      if i < readSoFar ncpus s.reporter .stop .bytes then s.reporter.seen .stop i .bytes
      else s.counters i .bytes
  printed : ∀ rep ∈ s.reports, Read size ncpus rep.sums rep.seen

section Turns
variable {ncpus size : Nat} {s : Bench}

theorem View.work (h : View ncpus size s) (n : Nat) : View ncpus size (s.work size n) := by
  have hgrow := work_counter_le size n s
  refine
    { h with
      sorted := fun i hi f => sorted_grow (h.sorted i hi f) (hgrow i f)
      counted := fun i hi => (h.counted i hi).trans ?_ }
  have hreporter : (s.work size n).reporter = s.reporter := rfl
  rw [hreporter]
  split
  · exact Nat.le_refl _
  · exact hgrow i .bytes

theorem history_read (hn : s.reporter.n < ncpus) (i : Nat) (f : Field) :
    history ncpus (s.reporter.read s.counters) s.reports i f =
      history ncpus s.reporter s.reports i f ++
        if i = s.reporter.n ∧ f = s.reporter.next then [s.counters i f] else [] := by
  rw [history, pending_read hn, ← List.append_assoc, history]

theorem read_sums (h : View ncpus size s) (l : Loop) (f : Field) :
    (s.reporter.read s.counters).sums l f = wrap 64
      (∑ i ∈ Finset.range (readSoFar ncpus (s.reporter.read s.counters) l f),
        (s.reporter.read s.counters).seen l i f) := by
  have hsums := h.sums_eq l f
  rw [readSoFar_read]
  dsimp only [Reporter.read]
  by_cases hhere : l = s.reporter.loop ∧ f = s.reporter.next
  · obtain ⟨rfl, rfl⟩ := hhere
    rw [readSoFar_here] at hsums ⊢
    rw [if_pos ⟨rfl, rfl⟩, if_pos ⟨rfl, rfl⟩, Finset.sum_range_succ, if_pos ⟨rfl, rfl, rfl⟩, hsums,
      wrap_wrap_add]
    congr 2
    refine Finset.sum_congr rfl fun i hi => (if_neg fun heq => ?_).symm
    exact absurd heq.2.1 (Finset.mem_range.mp hi).ne
  · rw [if_neg hhere, if_neg hhere, Nat.add_zero, hsums]
    congr 1
    exact Finset.sum_congr rfl fun i _ => (if_neg fun heq => hhere ⟨heq.1, heq.2.2⟩).symm

/-- The second loop reads a thread's `count` in front of its `bytes`. -/
theorem read_counted (h : View ncpus size s) (hset : Settled size s) (i : Nat)
    (hi : i < readSoFar ncpus (s.reporter.read s.counters) .stop .count) :
    size * (s.reporter.read s.counters).seen .stop i .count ≤
      if i < readSoFar ncpus (s.reporter.read s.counters) .stop .bytes then
        (s.reporter.read s.counters).seen .stop i .bytes
      else s.counters i .bytes := by
  have hcounted := h.counted i
  have hcount := hset.count_le i
  simp only [readSoFar_read] at hi ⊢
  obtain ⟨counters, between, ⟨loop, n, next, sums, seen⟩, reports⟩ := s
  cases loop <;> cases next <;> grind [readSoFar, Reporter.read]

theorem View.read (h : View ncpus size s) (hset : Settled size s) (hn : s.reporter.n < ncpus) :
    View ncpus size { s with reporter := s.reporter.read s.counters } where
  index_le := by
    dsimp only [Reporter.read]
    split
    · exact hn.le
    · exact hn
  index_lt := by
    intro hnext
    dsimp only [Reporter.read] at hnext ⊢
    split at hnext
    · exact hn
    · cases hnext
  sorted := by
    intro i hi f
    rw [history_read hn]
    split
    · exact sorted_read (h.sorted i hi f)
    · rw [List.append_nil]
      exact h.sorted i hi f
  whole := by
    intro i hi v hv
    rw [history_read hn] at hv
    obtain hv | hv := List.mem_append.mp hv
    · exact h.whole i hi v hv
    · split at hv
      · rw [List.mem_singleton.mp hv]
        exact hset.dvd i
      · exact absurd hv List.not_mem_nil
  sums_eq := read_sums h
  counted := read_counted h hset
  printed := h.printed

/-- At its end a loop has read every counter. -/
theorem View.read_all (h : View ncpus size s) (hn : ¬ s.reporter.n < ncpus) (f : Field) :
    s.reporter.next = .count ∧ readSoFar ncpus s.reporter .start f = ncpus ∧
      readSoFar ncpus s.reporter .stop f = if s.reporter.loop = .stop then ncpus else 0 := by
  have hend : s.reporter.n = ncpus := Nat.le_antisymm h.index_le (Nat.not_lt.mp hn)
  have hlt := h.index_lt
  obtain ⟨counters, between, ⟨loop, n, next, sums, seen⟩, reports⟩ := s
  cases next with
  | bytes => exact absurd (hlt rfl) hn
  | count =>
    refine ⟨rfl, ?_⟩
    cases loop <;> cases f <;> exact ⟨by first | rfl | exact hend, by first | rfl | exact hend⟩

theorem View.advance (h : View ncpus size s) (hn : ¬ s.reporter.n < ncpus)
    (hloop : s.reporter.loop = .start) :
    View ncpus size
      { s with reporter := { s.reporter with loop := .stop, n := 0, next := .count } } := by
  have hread : ∀ l f,
      readSoFar ncpus { s.reporter with loop := .stop, n := 0, next := .count } l f =
        readSoFar ncpus s.reporter l f := by
    intro l f
    obtain ⟨_, hstart, hstop⟩ := h.read_all hn f
    rw [hloop, if_neg (fun heq => Loop.noConfusion heq)] at hstop
    cases l with
    | start => rw [hstart]; rfl
    | stop => rw [hstop]; cases f <;> rfl
  have hhistory : ∀ i f,
      history ncpus { s.reporter with loop := .stop, n := 0, next := .count } s.reports i f =
        history ncpus s.reporter s.reports i f := by
    intro i f
    rw [history, pending, hread, hread, history, pending]
  exact
    { index_le := Nat.zero_le _
      index_lt := by intro heq; cases heq
      sorted := fun i hi f => by rw [hhistory]; exact h.sorted i hi f
      whole := fun i hi v hv => h.whole i hi v (hhistory i .bytes ▸ hv)
      sums_eq := fun l f => by rw [hread]; exact h.sums_eq l f
      counted := fun i hi => by rw [hread] at hi ⊢; exact h.counted i hi
      printed := h.printed }

theorem View.print (h : View ncpus size s) (hn : ¬ s.reporter.n < ncpus)
    (hloop : s.reporter.loop = .stop) :
    View ncpus size
      { s with
        reporter := .entry
        reports := s.reports ++ [{ sums := s.reporter.sums, seen := s.reporter.seen }] } := by
  have hread : ∀ l f, readSoFar ncpus s.reporter l f = ncpus := by
    intro l f
    obtain ⟨_, hstart, hstop⟩ := h.read_all hn f
    rw [if_pos hloop] at hstop
    cases l with
    | start => exact hstart
    | stop => exact hstop
  have hentry : ∀ l f, readSoFar ncpus .entry l f = 0 := by
    intro l f
    cases l <;> cases f <;> rfl
  have hhistory : ∀ i < ncpus, ∀ f,
      history ncpus .entry (s.reports ++ [{ sums := s.reporter.sums, seen := s.reporter.seen }])
        i f = history ncpus s.reporter s.reports i f := by
    intro i hi f
    rw [history, readings_append_singleton, pending, hentry, hentry, if_neg (Nat.not_lt_zero i),
      if_neg (Nat.not_lt_zero i), List.append_nil, List.append_nil, history, pending, hread, hread,
      if_pos hi, if_pos hi]
    rfl
  exact
    { index_le := Nat.zero_le _
      index_lt := by intro heq; cases heq
      sorted := fun i hi f => by rw [hhistory i hi]; exact h.sorted i hi f
      whole := fun i hi v hv => h.whole i hi v (hhistory i hi .bytes ▸ hv)
      sums_eq := fun l f => by rw [hentry]; rfl
      counted := fun i hi => by rw [hentry] at hi; exact absurd hi (Nat.not_lt_zero i)
      printed := by
        rw [List.forall_mem_append, List.forall_mem_singleton]
        refine ⟨h.printed, ?_, fun i hi => ?_⟩
        · intro l f
          have hsums := h.sums_eq l f
          rwa [hread] at hsums
        · have hcounted := h.counted i (by rw [hread]; exact hi)
          rwa [hread, if_pos hi] at hcounted }

/-- What holds after every turn. -/
theorem step_inv (hset : Settled size s) (h : View ncpus size s) (party : Party) :
    Settled size (s.step ncpus size party) ∧ View ncpus size (s.step ncpus size party) := by
  cases party with
  | worker n => exact ⟨hset.work n, h.work n⟩
  | reporter =>
    dsimp only [Bench.step, Bench.report]
    by_cases hn : s.reporter.n < ncpus
    · rw [if_pos hn]
      exact ⟨hset, h.read hset hn⟩
    · rw [if_neg hn]
      cases hloop : s.reporter.loop with
      | start => exact ⟨hset, h.advance hn hloop⟩
      | stop => exact ⟨hset, h.print hn hloop⟩

end Turns

theorem view_init (ncpus size : Nat) : View ncpus size .init where
  index_le := Nat.zero_le _
  index_lt := by intro heq; cases heq
  sorted := fun i _ f => by cases f <;> exact List.pairwise_singleton _ _
  whole := fun i _ v hv => absurd hv List.not_mem_nil
  sums_eq := fun l f => by cases l <;> cases f <;> rfl
  counted := fun i hi => absurd hi (Nat.not_lt_zero i)
  printed := fun rep hrep => absurd hrep List.not_mem_nil

theorem run_inv (ncpus size : Nat) (schedule : List Party) :
    Settled size (run ncpus size schedule) ∧ View ncpus size (run ncpus size schedule) := by
  induction schedule using List.reverseRecOn with
  | nil => exact ⟨fun _ => rfl, view_init ncpus size⟩
  | append_singleton schedule party ih =>
    rw [run, List.foldl_append]
    exact step_inv ih.1 ih.2 party

/-! ## The reports -/

/-- I/O `k` of thread `n` is one of those that the report counts. -/
def CountsIo (r : Report) (n k : Nat) : Prop :=
  r.seen .start n .count ≤ k ∧ k < r.seen .stop n .count

/-- A byte of I/O `k` of thread `n` is one of those that the report adds up. -/
def CountsBytes (size : Nat) (r : Report) (n k : Nat) : Prop :=
  ∃ byte, k * size ≤ byte ∧ byte < (k + 1) * size ∧
    r.seen .start n .bytes ≤ byte ∧ byte < r.seen .stop n .bytes

def Contributes (size : Nat) (r : Report) (n k : Nat) : Prop :=
  CountsIo r n k ∨ CountsBytes size r n k

section Reports
variable {ncpus size : Nat} {s : Bench}

theorem View.readings_le (h : View ncpus size s) {i : Nat} (hi : i < ncpus) (f : Field) :
    (readings (fun rep : Report => rep.seen .start i f) (fun rep => rep.seen .stop i f)
      s.reports ++ [s.counters i f]).Pairwise (· ≤ ·) := by
  refine (h.sorted i hi f).sublist ?_
  exact (List.sublist_append_left _ _).append (List.Sublist.refl _)

theorem View.seen_le (h : View ncpus size s) {i : Nat} (hi : i < ncpus) (f : Field) {r : Report}
    (hr : r ∈ s.reports) :
    r.seen .start i f ≤ r.seen .stop i f ∧ r.seen .stop i f ≤ s.counters i f := by
  have hsorted := List.pairwise_append.mp (h.readings_le hi f)
  refine ⟨start_le_stop hsorted.1 hr, hsorted.2.2 _ ?_ _ (List.mem_singleton.mpr rfl)⟩
  exact List.mem_flatMap.mpr ⟨r, hr, List.mem_pair.mpr (Or.inr rfl)⟩

theorem View.difference_le (h : View ncpus size s) (f : Field) {r : Report} (hr : r ∈ s.reports) :
    r.difference f ≤ ∑ i ∈ Finset.range ncpus, (r.seen .stop i f - r.seen .start i f) := by
  have hle : ∀ i ∈ Finset.range ncpus, r.seen .start i f ≤ r.seen .stop i f := fun i hi =>
    (h.seen_le (Finset.mem_range.mp hi) f hr).1
  rw [Report.difference, (h.printed r hr).sums_eq, (h.printed r hr).sums_eq,
    wsub_wrap_wrap (Finset.sum_le_sum hle), Finset.sum_tsub_distrib _ hle]
  exact Nat.mod_le _ _

/-- Sums that fit into 64 bits do not wrap around, and neither does their difference. -/
theorem View.difference_eq (h : View ncpus size s) {f : Field}
    (hfit : total ncpus s.counters f < 2 ^ 64) {r : Report} (hr : r ∈ s.reports) :
    r.sums .start f ≤ r.sums .stop f ∧ r.difference f = r.sums .stop f - r.sums .start f ∧
      r.difference f = ∑ i ∈ Finset.range ncpus, (r.seen .stop i f - r.seen .start i f) := by
  have hle : ∀ i ∈ Finset.range ncpus, r.seen .start i f ≤ r.seen .stop i f := fun i hi =>
    (h.seen_le (Finset.mem_range.mp hi) f hr).1
  have hseen : ∑ i ∈ Finset.range ncpus, r.seen .stop i f ≤ total ncpus s.counters f :=
    Finset.sum_le_sum fun i hi => (h.seen_le (Finset.mem_range.mp hi) f hr).2
  have hsums := Finset.sum_le_sum hle
  have hstart := (h.printed r hr).sums_eq .start f
  have hstop := (h.printed r hr).sums_eq .stop f
  rw [wrap_of_lt (by omega)] at hstart hstop
  have hdiff : r.difference f = r.sums .stop f - r.sums .start f := by
    rw [Report.difference, wsub_of_le (by omega) (by omega)]
  refine ⟨by omega, hdiff, ?_⟩
  rw [Finset.sum_tsub_distrib _ hle, hdiff, hstart, hstop]

theorem View.stop_le_start (h : View ncpus size s) {i : Nat} (hi : i < ncpus) (f : Field) :
    s.reports.Pairwise fun r later => r.seen .stop i f ≤ later.seen .start i f :=
  Library.SampledCounter.stop_le_start (List.pairwise_append.mp (h.readings_le hi f)).1

/-- The bytes of an I/O are read all or none, -/
theorem View.bytes_whole (h : View ncpus size s) {i : Nat} (hi : i < ncpus) {r : Report}
    (hr : r ∈ s.reports) {k : Nat} (hcounts : CountsBytes size r i k) :
    (k + 1) * size ≤ r.seen .stop i .bytes := by
  obtain ⟨byte, hfrom, _, _, hto⟩ := hcounts
  have hdvd : size ∣ r.seen .stop i .bytes := by
    apply h.whole i hi
    apply List.mem_append_left
    exact List.mem_flatMap.mpr ⟨r, hr, List.mem_pair.mpr (Or.inr rfl)⟩
  obtain ⟨ios, hios⟩ := hdvd
  rw [hios, Nat.mul_comm]
  apply Nat.mul_le_mul_left
  by_contra hless
  have hmul : size * ios ≤ size * k := Nat.mul_le_mul_left size (by omega)
  rw [Nat.mul_comm size k] at hmul
  omega

/-- and those of an I/O that is counted are read with it. -/
theorem View.bytes_counted (h : View ncpus size s) {i : Nat} (hi : i < ncpus) {r : Report}
    (hr : r ∈ s.reports) {k : Nat} (hcounts : CountsIo r i k) :
    (k + 1) * size ≤ r.seen .stop i .bytes := by
  have hmul : size * (k + 1) ≤ size * r.seen .stop i .count := Nat.mul_le_mul_left size hcounts.2
  rw [Nat.mul_comm]
  exact hmul.trans ((h.printed r hr).counted i hi)

/-- An I/O contributes to two reports at most with its bytes to the first of them and
with its count to the other. -/
theorem View.counts_disjoint (h : View ncpus size s) {i : Nat} (hi : i < ncpus) :
    s.reports.Pairwise fun r later => ∀ k,
      ¬ (CountsIo r i k ∧ CountsIo later i k) ∧
      ¬ (CountsBytes size r i k ∧ CountsBytes size later i k) ∧
      ¬ (CountsIo r i k ∧ CountsBytes size later i k) := by
  have horder := (h.stop_le_start hi .count).and (h.stop_le_start hi .bytes)
  refine horder.imp_of_mem fun {r later} hr _ hle k => ?_
  obtain ⟨hcount, hbytes⟩ := hle
  have hlater : (k + 1) * size ≤ r.seen .stop i .bytes → ¬ CountsBytes size later i k := by
    intro hread hcounts
    obtain ⟨byte, _, hto, hfrom, _⟩ := hcounts
    omega
  refine ⟨?_, ?_, ?_⟩
  · intro hboth
    have hend := hboth.1.2
    have hstart := hboth.2.1
    omega
  · exact fun hboth => hlater (h.bytes_whole hi hr hboth.1) hboth.2
  · exact fun hboth => hlater (h.bytes_counted hi hr hboth.1) hboth.2

theorem sum_total (reports : List Report) (g : Report → Nat → Nat) (threads : Finset Nat) :
    (reports.map fun r => ∑ i ∈ threads, g r i).sum =
      ∑ i ∈ threads, (reports.map fun r => g r i).sum := by
  induction reports with
  | nil => exact (Finset.sum_const_zero).symm
  | cons r reports ih => simp only [List.map_cons, List.sum_cons, ih, Finset.sum_add_distrib]

theorem View.sum_difference_le (h : View ncpus size s) (f : Field) :
    (s.reports.map (·.difference f)).sum ≤ total ncpus s.counters f := by
  calc (s.reports.map (·.difference f)).sum
      ≤ (s.reports.map fun r =>
          ∑ i ∈ Finset.range ncpus, (r.seen .stop i f - r.seen .start i f)).sum :=
        List.sum_le_sum fun r hr => h.difference_le f hr
    _ = ∑ i ∈ Finset.range ncpus,
          (s.reports.map fun r => r.seen .stop i f - r.seen .start i f).sum := sum_total _ _ _
    _ ≤ total ncpus s.counters f :=
        Finset.sum_le_sum fun i hi =>
          sum_stop_sub_start_le (h.readings_le (Finset.mem_range.mp hi) f)

end Reports

/-- Under every schedule: no difference of a report is negative, no I/O is counted by two
reports or has its bytes in two, and one that has its bytes in one report and is counted
by another has its bytes in the earlier; all reports together count no more I/Os than
there are. -/
theorem reported_once (ncpus size : Nat) (schedule : List Party) :
    let s := run ncpus size schedule
    (∀ r ∈ s.reports, ∀ f, total ncpus s.counters f < 2 ^ 64 →
      r.sums .start f ≤ r.sums .stop f ∧ r.difference f = r.sums .stop f - r.sums .start f ∧
        r.difference f = ∑ i ∈ Finset.range ncpus, (r.seen .stop i f - r.seen .start i f)) ∧
    (∀ i < ncpus, s.reports.Pairwise fun r later => ∀ k,
      ¬ (CountsIo r i k ∧ CountsIo later i k) ∧
      ¬ (CountsBytes size r i k ∧ CountsBytes size later i k) ∧
      ¬ (CountsIo r i k ∧ CountsBytes size later i k)) ∧
    (s.reports.map (·.difference .count)).sum ≤ total ncpus s.counters .count := by
  have hview := (run_inv ncpus size schedule).2
  refine ⟨fun r hr f hfit => hview.difference_eq hfit hr, fun i hi => hview.counts_disjoint hi, ?_⟩
  exact hview.sum_difference_le .count

/-- A worker is between its two increments when the first report ends: the bytes of its
I/O are in that report and its count in the next one. -/
theorem io_in_two_reports :
    let s := run 1 64 [.reporter, .reporter, .reporter, .worker 0, .reporter, .reporter,
      .reporter, .reporter, .reporter, .reporter, .worker 0, .reporter, .reporter, .reporter]
    s.counters 0 .count = 1 ∧ ¬ s.reports.Pairwise fun r later =>
      ∀ k, ¬ (Contributes 64 r 0 k ∧ Contributes 64 later 0 k) := by
  refine ⟨rfl, fun hnone => ?_⟩
  apply List.pairwise_pair.mp hnone 0
  constructor
  · right
    exact ⟨0, by decide⟩
  · left
    exact ⟨by decide, by decide⟩

end Nvpkt.Guarantees.ReportedIntervals
