import Mathlib.Algebra.BigOperators.Ring.Finset
import Nvpkt.Guarantees.BenchDevice
import Nvpkt.Guarantees.BenchRounds
import Nvpkt.Guarantees.ReportedIntervals

/-!
# The INTERIM lines of the whole program

Seen by its counters and its reporter, `bench-nvme` is the small system of
`IntervalReport`: in every interleaving of `main`, the workers and the reporter, an
increment of a worker is a turn of it there, a counter that the reporter reads is one of the
reporter's, and every other step is none (`worker_turn`, `reporter_turn`). So the lines that
the reporter has printed are the reports of a schedule (`interims_follow`), all INTERIM lines
together have no more I/Os and bytes than have completed, and the FINAL lines exactly these
(`lines_add_up`).
-/

set_option autoImplicit false

namespace Nvpkt.Guarantees.InterimLines
open Nvpkt.Library.FixedWidth Nvpkt.Library.Interleaving
open Nvpkt.Source.BenchNvme Nvpkt.Source.BenchMain
open Nvpkt.Source.IntervalReport (Field Loop Party Reporter Report Bench total)
open Nvpkt.Guarantees.BenchRounds Nvpkt.Guarantees.BenchThreads Nvpkt.Guarantees.BenchDevice
open Nvpkt.Guarantees.ReportedIntervals

variable {p : BenchParam} {ncpus : Nat} {rand : Nat → Nat → Nat}

/-! ## The workers -/

/-- I/Os that have completed and are not counted yet. -/
def countPending : WorkerPc → Nat
  | .addingBytes _ | .addingCount _ => 1
  | _ => 0

/-- I/Os that have completed and have not had their bytes added. -/
def bytesPending : WorkerPc → Nat
  | .addingBytes _ => 1
  | _ => 0

/-- The worker is between its two increments. -/
def isBetween : WorkerPc → Bool
  | .addingCount _ => true
  | _ => false

/-- The small system has the counters of worker `n`, without their overflow. -/
structure Counts (b : Bench) (n : Nat) (th : Thread) (pc : WorkerPc) : Prop where
  between : b.between n = isBetween pc
  completed : th.device.completed = b.counters n .count + countPending pc
  count : th.count = wrap 64 (b.counters n .count)
  bytes : th.bytes = wrap 64 (b.counters n .bytes)

section Worker
variable {qid slba k n : Nat} {rnd : Nat → Nat} {th : Thread} {pc pc' : WorkerPc} {b b' : Bench}

theorem Counts.congr (h : Counts b n th pc) (hcounters : b'.counters n = b.counters n)
    (hbetween : b'.between n = b.between n) : Counts b' n th pc := by
  constructor
  · exact hbetween.trans h.between
  · exact hcounters ▸ h.completed
  · exact hcounters ▸ h.count
  · exact hcounters ▸ h.bytes

theorem submitIo_completed : (submitIo p qid rnd th k).device.completed = th.device.completed := by
  simp only [submitIo, Source.BenchNvme.bench, Device.submit, Device.completed,
    List.length_append, List.length_singleton, Nat.add_sub_add_right]

/-- A poll that is answered completes its I/O. -/
theorem apollIo_completed (h : WorkerAt p qid rnd slba th (.polling k)) (hk : k < p.batch) :
    (apollIo 0 th k).device.completed = th.device.completed + 1 := by
  obtain ⟨rounds, polls, hle, hth⟩ := h
  have hpolling := round_polling qid rnd polls (benchStart_accounted p qid rnd slba rounds) hle
  rw [← hth] at hpolling
  have hwait := hpolling.waiting k hk (.inl (Nat.le_refl k))
  rw [← hpolling.iods k hk] at hwait
  have hanswered : Accounted p (pollIo p (fun _ => 0) th k) ∧
      (apollIo 0 th k).device.outstanding.length + 1 = th.device.outstanding.length :=
    pollIo_accounted hpolling.accounted rfl hwait
  have hleft := hanswered.2
  have hbound := hpolling.accounted.outstanding_le
  have hsubmitted := (apollIo_walk 0 th k).submitted
  rw [Device.completed, Device.completed, hsubmitted]
  omega

theorem apollIo_timeout {poll : Int} (h : poll ≠ 0) (th : Thread) (k : Nat) :
    apollIo poll th k = th := by
  simp only [apollIo, Device.apoll, if_neg h]

theorem setTh_self (s : Shared) (n : Nat) (th : Thread) : (s.setTh n th).th n = th :=
  Function.update_self ..

/-- The first increment is a turn of the small system, -/
theorem addBytes_counts (h : Counts b n th (.addingBytes k)) :
    Counts (b.work p.size n) n (addBytes p th) (.addingCount k) := by
  have hbetween : b.between n = false := h.between
  constructor
  · simp [Bench.work, isBetween, hbetween]
  · simpa [Bench.work, hbetween, addBytes, countPending] using h.completed
  · simpa [Bench.work, hbetween, addBytes] using h.count
  · simp [Bench.work, hbetween, addBytes, h.bytes, wrap_wrap_add]

/-- and so is the second. -/
theorem addCount_counts (size : Nat) (h : Counts b n th (.addingCount k)) :
    Counts (b.work size n) n (addCount th) (.polling (k + 1)) := by
  have hbetween : b.between n = true := h.between
  constructor
  · simp [Bench.work, isBetween, hbetween]
  · simpa [Bench.work, hbetween, addCount, countPending] using h.completed
  · simp [Bench.work, hbetween, addCount, h.count, wrap_wrap_add]
  · simpa [Bench.work, hbetween, addCount] using h.bytes

/-- A step of a worker is at most one turn of it in the small system. -/
theorem worker_turn {s s' : Shared} {poll : Int}
    (hact : workerAction p ncpus rand n s poll pc = some (s', pc'))
    (hat : WorkerAt p n (rand n) (threadSlba ncpus n) (s.th n) pc) (h : Counts b n (s.th n) pc) :
    ∃ more : List Party, (more = [] ∨ more = [.worker n]) ∧
      Counts (more.foldl (Bench.step ncpus p.size) b) n (s'.th n) pc' := by
  cases pc with
  | waiting =>
    simp only [workerAction] at hact
    split at hact
    · obtain ⟨rfl, rfl⟩ := Prod.mk.inj (Option.some.inj hact)
      have hzero : s.th n = zeroThread := hat
      rw [hzero] at h
      rw [setTh_self]
      exact ⟨[], .inl rfl, h.between, h.completed, h.count, h.bytes⟩
    · cases hact
  | check =>
    simp only [workerAction] at hact
    split at hact
    all_goals
      obtain ⟨rfl, rfl⟩ := Prod.mk.inj (Option.some.inj hact)
      exact ⟨[], .inl rfl, h.between, h.completed, h.count, h.bytes⟩
  | submitting k =>
    simp only [workerAction] at hact
    split at hact
    · obtain ⟨rfl, rfl⟩ := Prod.mk.inj (Option.some.inj hact)
      rw [setTh_self]
      exact ⟨[], .inl rfl, h.between, submitIo_completed.trans h.completed, h.count, h.bytes⟩
    · obtain ⟨rfl, rfl⟩ := Prod.mk.inj (Option.some.inj hact)
      exact ⟨[], .inl rfl, h.between, h.completed, h.count, h.bytes⟩
  | polling k =>
    simp only [workerAction] at hact
    split at hact
    · next hk =>
      obtain ⟨rfl, rfl⟩ := Prod.mk.inj (Option.some.inj hact)
      rw [setTh_self]
      by_cases hpoll : poll = 0
      · subst hpoll
        have hcompleted := (apollIo_completed hat hk).trans (congrArg (· + 1) h.completed)
        exact ⟨[], .inl rfl, h.between, hcompleted, h.count, h.bytes⟩
      · rw [apollIo_timeout hpoll, if_neg hpoll]
        exact ⟨[], .inl rfl, h.between, h.completed, h.count, h.bytes⟩
    · obtain ⟨rfl, rfl⟩ := Prod.mk.inj (Option.some.inj hact)
      exact ⟨[], .inl rfl, h.between, h.completed, h.count, h.bytes⟩
  | addingBytes k =>
    obtain ⟨rfl, rfl⟩ := Prod.mk.inj (Option.some.inj hact)
    rw [setTh_self]
    exact ⟨[.worker n], .inr rfl, addBytes_counts h⟩
  | addingCount k =>
    obtain ⟨rfl, rfl⟩ := Prod.mk.inj (Option.some.inj hact)
    rw [setTh_self]
    exact ⟨[.worker n], .inr rfl, addCount_counts p.size h⟩
  | done => cases hact

end Worker

/-! ## The reporter -/

/-- The sums of `print_interval_result`. -/
def sumsOf (countStart bytesStart countEnd bytesEnd : Nat) : Loop → Field → Nat
  | .start, .count => countStart
  | .start, .bytes => bytesStart
  | .stop, .count => countEnd
  | .stop, .bytes => bytesEnd

/-- The reporter is about to read the counter `next` of thread `n`. -/
structure Reads (r : Reporter) (loop : Loop) (n : Nat) (next : Field) (sums : Loop → Field → Nat) :
    Prop where
  loop : r.loop = loop
  n : r.n = n
  next : r.next = next
  sums : r.sums = sums

def ReporterAt (r : Reporter) : ReporterPc → Prop
  | .first n next countStart bytesStart => Reads r .start n next (sumsOf countStart bytesStart 0 0)
  | .second n next countStart bytesStart countEnd bytesEnd =>
    Reads r .stop n next (sumsOf countStart bytesStart countEnd bytesEnd)
  | _ => r = .entry

/-- What a report is printed from. -/
def numbers (r : Report) : Nat × Nat := (r.difference .count, r.difference .bytes)

/-- The small system has the reporter of the program. -/
structure Reporting (s : Shared) (pc : ReporterPc) (b : Bench) : Prop where
  reporter : ReporterAt b.reporter pc
  interims : s.interims = b.reports.map numbers

section Turns
variable {size n : Nat} {s s' : Shared} {b : Bench} {loop : Loop} {next : Field}
  {sums sums' : Loop → Field → Nat}

/-- A turn of the reporter reads a counter, -/
theorem report_read (hreads : Reads b.reporter loop n next sums) (hn : n < ncpus) :
    b.report ncpus = { b with reporter := b.reporter.read b.counters } :=
  if_pos (by rwa [hreads.n])

theorem Reads.count {r : Reporter} (h : Reads r loop n .count sums) {counters : Nat → Field → Nat}
    (hsums : ∀ l f, (if l = loop ∧ f = .count then wrap 64 (sums l f + counters n .count)
      else sums l f) = sums' l f) : Reads (r.read counters) loop n .bytes sums' := by
  obtain ⟨rfl, rfl, hnext, rfl⟩ := h
  refine ⟨rfl, ?_, ?_, ?_⟩
  · simp only [Reporter.read, hnext]
  · simp only [Reporter.read, hnext]
  · simp only [Reporter.read, hnext]
    exact funext₂ hsums

theorem Reads.bytes {r : Reporter} (h : Reads r loop n .bytes sums) {counters : Nat → Field → Nat}
    (hsums : ∀ l f, (if l = loop ∧ f = .bytes then wrap 64 (sums l f + counters n .bytes)
      else sums l f) = sums' l f) : Reads (r.read counters) loop (n + 1) .count sums' := by
  obtain ⟨rfl, rfl, hnext, rfl⟩ := h
  refine ⟨rfl, ?_, ?_, ?_⟩
  · simp only [Reporter.read, hnext]
  · simp only [Reporter.read, hnext]
  · simp only [Reporter.read, hnext]
    exact funext₂ hsums

/-- leaves the first loop for the second one, -/
theorem report_advance (hreads : Reads b.reporter .start n next sums) (hn : ¬ n < ncpus) :
    b.report ncpus =
      { b with reporter := { b.reporter with loop := .stop, n := 0, next := .count } } := by
  rw [Bench.report, if_neg (by rwa [hreads.n]), hreads.loop]

/-- or prints. -/
theorem report_print (hreads : Reads b.reporter .stop n next sums) (hn : ¬ n < ncpus) :
    b.report ncpus =
      { b with
        reporter := .entry
        reports := b.reports ++ [{ sums := b.reporter.sums, seen := b.reporter.seen }] } := by
  rw [Bench.report, if_neg (by rwa [hreads.n]), hreads.loop]

/-- The shared counters are those of the small system, but for their overflow. -/
structure SameCounters (ncpus : Nat) (b : Bench) (s : Shared) : Prop where
  count : ∀ m < ncpus, (s.th m).count = wrap 64 (b.counters m .count)
  bytes : ∀ m < ncpus, (s.th m).bytes = wrap 64 (b.counters m .bytes)

/-- A step of the first loop of `print_interval_result` -/
theorem first_turn {countStart bytesStart : Nat} {pc' : ReporterPc}
    (hact : reporterAction ncpus s (.first n next countStart bytesStart) = some (s', pc'))
    (hsame : SameCounters ncpus b s) (hlt : next = .bytes → n < ncpus)
    (hreads : Reads b.reporter .start n next (sumsOf countStart bytesStart 0 0))
    (hinterims : s.interims = b.reports.map numbers) : Reporting s' pc' (b.report ncpus) := by
  cases next with
  | count =>
    simp only [reporterAction] at hact
    split at hact
    · next hn =>
      obtain ⟨rfl, rfl⟩ := Prod.mk.inj (Option.some.inj hact)
      rw [report_read hreads hn]
      refine ⟨hreads.count fun l f => ?_, hinterims⟩
      cases l <;> cases f <;> simp [sumsOf, hsame.count n hn, wrap_add_wrap]
    · next hn =>
      obtain ⟨rfl, rfl⟩ := Prod.mk.inj (Option.some.inj hact)
      rw [report_advance hreads hn]
      exact ⟨⟨rfl, rfl, rfl, hreads.sums⟩, hinterims⟩
  | bytes =>
    obtain ⟨rfl, rfl⟩ := Prod.mk.inj (Option.some.inj hact)
    have hn : n < ncpus := hlt rfl
    rw [report_read hreads hn]
    refine ⟨hreads.bytes fun l f => ?_, hinterims⟩
    cases l <;> cases f <;> simp [sumsOf, hsame.bytes n hn, wrap_add_wrap]

/-- and of its second one, at the end of which it prints. -/
theorem second_turn {countStart bytesStart countEnd bytesEnd : Nat} {pc' : ReporterPc}
    (hact : reporterAction ncpus s (.second n next countStart bytesStart countEnd bytesEnd) =
      some (s', pc'))
    (hsame : SameCounters ncpus b s) (hlt : next = .bytes → n < ncpus)
    (hreads : Reads b.reporter .stop n next (sumsOf countStart bytesStart countEnd bytesEnd))
    (hinterims : s.interims = b.reports.map numbers) : Reporting s' pc' (b.report ncpus) := by
  cases next with
  | count =>
    simp only [reporterAction] at hact
    split at hact
    · next hn =>
      obtain ⟨rfl, rfl⟩ := Prod.mk.inj (Option.some.inj hact)
      rw [report_read hreads hn]
      refine ⟨hreads.count fun l f => ?_, hinterims⟩
      cases l <;> cases f <;> simp [sumsOf, hsame.count n hn, wrap_add_wrap]
    · next hn =>
      obtain ⟨rfl, rfl⟩ := Prod.mk.inj (Option.some.inj hact)
      rw [report_print hreads hn]
      refine ⟨rfl, ?_⟩
      rw [List.map_append, ← hinterims, List.map_singleton, numbers, Report.difference,
        Report.difference, hreads.sums]
      rfl
  | bytes =>
    obtain ⟨rfl, rfl⟩ := Prod.mk.inj (Option.some.inj hact)
    have hn : n < ncpus := hlt rfl
    rw [report_read hreads hn]
    refine ⟨hreads.bytes fun l f => ?_, hinterims⟩
    cases l <;> cases f <;> simp [sumsOf, hsame.bytes n hn, wrap_add_wrap]

/-- A step of the reporter is at most one turn of it in the small system. -/
theorem reporter_turn {pc pc' : ReporterPc} (hact : reporterAction ncpus s pc = some (s', pc'))
    (hsame : SameCounters ncpus b s) (hlt : b.reporter.next = .bytes → b.reporter.n < ncpus)
    (h : Reporting s pc b) :
    ∃ more : List Party, (more = [] ∨ more = [.reporter]) ∧
      Reporting s' pc' (more.foldl (Bench.step ncpus size) b) := by
  cases pc with
  | waiting =>
    simp only [reporterAction] at hact
    split at hact
    · obtain ⟨rfl, rfl⟩ := Prod.mk.inj (Option.some.inj hact)
      exact ⟨[], .inl rfl, h.reporter, h.interims⟩
    · cases hact
  | check =>
    have hentry : b.reporter = .entry := h.reporter
    simp only [reporterAction] at hact
    split at hact
    · obtain ⟨rfl, rfl⟩ := Prod.mk.inj (Option.some.inj hact)
      exact ⟨[], .inl rfl, hentry, h.interims⟩
    · obtain ⟨rfl, rfl⟩ := Prod.mk.inj (Option.some.inj hact)
      refine ⟨[], .inl rfl, ?_, h.interims⟩
      rw [List.foldl_nil, hentry]
      refine ⟨rfl, rfl, rfl, ?_⟩
      funext l f
      cases l <;> cases f <;> rfl
  | first n next countStart bytesStart =>
    have hreads : Reads b.reporter .start n next (sumsOf countStart bytesStart 0 0) := h.reporter
    have hplace : next = .bytes → n < ncpus := fun hnext =>
      hreads.n ▸ hlt (hreads.next.trans hnext)
    exact ⟨[.reporter], .inr rfl, first_turn hact hsame hplace hreads h.interims⟩
  | second n next countStart bytesStart countEnd bytesEnd =>
    have hreads : Reads b.reporter .stop n next (sumsOf countStart bytesStart countEnd bytesEnd) :=
      h.reporter
    have hplace : next = .bytes → n < ncpus := fun hnext =>
      hreads.n ▸ hlt (hreads.next.trans hnext)
    exact ⟨[.reporter], .inr rfl, second_turn hact hsame hplace hreads h.interims⟩
  | done => cases hact

end Turns

/-! ## Every interleaving -/

theorem main_interims {s s' : Shared} {pc pc' : MainPc}
    (hact : mainAction ncpus s pc = some (s', pc')) : s'.interims = s.interims := by
  cases pc with
  | sleeping | closing =>
    obtain ⟨rfl, rfl⟩ := Prod.mk.inj (Option.some.inj hact)
    rfl
  | create n | printing n =>
    simp only [mainAction] at hact
    split at hact
    all_goals
      obtain ⟨rfl, rfl⟩ := Prod.mk.inj (Option.some.inj hact)
      rfl
  | joiningReporter =>
    simp only [mainAction] at hact
    split at hact
    · obtain ⟨rfl, rfl⟩ := Prod.mk.inj (Option.some.inj hact)
      rfl
    · cases hact
  | joining n =>
    simp only [mainAction] at hact
    split at hact
    · split at hact
      · obtain ⟨rfl, rfl⟩ := Prod.mk.inj (Option.some.inj hact)
        rfl
      · cases hact
    · obtain ⟨rfl, rfl⟩ := Prod.mk.inj (Option.some.inj hact)
      rfl
  | returned => cases hact

/-- The small system follows thread `i`. -/
def FollowsThread (b : Bench) (i : Nat) (s : Shared) : BenchThread → Prop
  | .main _ => True
  | .worker pc => Counts b (i - 1) (s.th (i - 1)) pc
  | .reporter pc => Reporting s pc b

/-- The small system follows a state that the program comes to. -/
structure Follows (p : BenchParam) (ncpus : Nat) (rand : Nat → Nat → Nat)
    (sys : System Shared BenchThread) (b : Bench) : Prop where
  reached : ∃ labels, (bench p ncpus rand).run (started ncpus) labels = some sys
  threads : ∀ i l, sys.threads[i]? = some l → FollowsThread b i sys.shared l

section Actions
variable {size i j n : Nat} {s s' : Shared} {l l' m : BenchThread} {poll : Int} {b : Bench}

theorem work_others (size : Nat) (b : Bench) {k : Nat} (hk : k ≠ n) :
    (b.work size n).counters k = b.counters k ∧ (b.work size n).between k = b.between k := by
  constructor
  · funext f
    simp [Bench.work, hk]
  · simp [Bench.work, hk]

theorem report_counters (ncpus : Nat) (b : Bench) :
    (b.report ncpus).counters = b.counters ∧ (b.report ncpus).between = b.between := by
  unfold Bench.report
  split
  · exact ⟨rfl, rfl⟩
  · split <;> exact ⟨rfl, rfl⟩

/-- A step of one thread is at most one turn, with which the small system follows all. -/
theorem action_follows (hact : benchAction p ncpus rand i s l poll = some (s', l'))
    (hok : Ok p ncpus rand i s l) (hsame : SameCounters ncpus b s)
    (hlt : b.reporter.next = .bytes → b.reporter.n < ncpus) (h : FollowsThread b i s l) :
    ∃ more : List Party, FollowsThread (more.foldl (Bench.step ncpus p.size) b) i s' l' ∧
      ∀ j m, j ≠ i → Ok p ncpus rand j s m → FollowsThread b j s m →
        FollowsThread (more.foldl (Bench.step ncpus p.size) b) j s' m := by
  cases l with
  | main pc =>
    obtain ⟨⟨t, pc'⟩, hmain, hnext⟩ := Option.map_eq_some_iff.mp hact
    obtain ⟨rfl, rfl⟩ := Prod.mk.inj hnext
    refine ⟨[], trivial, fun j m hji _ hother => ?_⟩
    cases m with
    | main pc => trivial
    | worker pc =>
      rw [FollowsThread, (main_step hmain).th]
      exact hother
    | reporter pc => exact ⟨hother.reporter, (main_interims hmain).trans hother.interims⟩
  | worker pc =>
    obtain ⟨⟨t, pc'⟩, hworker, hnext⟩ := Option.map_eq_some_iff.mp hact
    obtain ⟨rfl, rfl⟩ := Prod.mk.inj hnext
    obtain ⟨hi, -, hat⟩ := hok
    have hstep := (worker_step hworker).1
    obtain ⟨more, hmore, hcounts⟩ := worker_turn hworker hat h
    refine ⟨more, hcounts, fun j m hji hother hfollows => ?_⟩
    cases m with
    | main pc => trivial
    | worker pc =>
      have hne : j - 1 ≠ i - 1 := by
        have hj := hother.1
        omega
      have hkept := work_others p.size b hne
      rw [FollowsThread, hstep.th _ hne]
      rcases hmore with rfl | rfl
      · exact hfollows
      · exact Counts.congr hfollows hkept.1 hkept.2
    | reporter pc =>
      have hinterims := hstep.interims.trans hfollows.interims
      rcases hmore with rfl | rfl
      · exact ⟨hfollows.reporter, hinterims⟩
      · exact ⟨hfollows.reporter, hinterims⟩
  | reporter pc =>
    obtain ⟨⟨t, pc'⟩, hreporter, hnext⟩ := Option.map_eq_some_iff.mp hact
    obtain ⟨rfl, rfl⟩ := Prod.mk.inj hnext
    obtain ⟨more, hmore, hreporting⟩ := reporter_turn hreporter hsame hlt h
    refine ⟨more, hreporting, fun j m hji hother hfollows => ?_⟩
    cases m with
    | main pc => trivial
    | worker pc =>
      have hkept := report_counters ncpus b
      rw [FollowsThread, (reporter_step hreporter hok.2).2.1]
      rcases hmore with rfl | rfl
      · exact hfollows
      · exact Counts.congr hfollows (congrFun hkept.1 _) (congrFun hkept.2 _)
    | reporter pc => exact absurd (hother.1.trans hok.1.symm) hji

end Actions

section Runs
variable {out mid next : System Shared BenchThread} {labels : List (Label Empty Int)}
  {schedule : List Party}

theorem Follows.counts
    (h : Follows p ncpus rand out (Source.IntervalReport.run ncpus p.size schedule)) {n : Nat}
    (hn : n < ncpus) : ∃ pc, out.threads[n + 1]? = some (.worker pc) ∧
      (out.shared.finished n = true ↔ pc = .done) ∧
      Counts (Source.IntervalReport.run ncpus p.size schedule) n (out.shared.th n) pc := by
  obtain ⟨labels, hrun⟩ := h.reached
  obtain ⟨pc, hpc, hfinished, -⟩ := worker_ok hrun hn
  exact ⟨pc, hpc, hfinished, h.threads (n + 1) _ hpc⟩

/-- The bytes of the I/Os that have completed, but for one that has not had them added. -/
theorem Counts.bytes_eq {n : Nat} {th : Thread} {pc : WorkerPc}
    (h : Counts (Source.IntervalReport.run ncpus p.size schedule) n th pc) :
    p.size * th.device.completed =
      (Source.IntervalReport.run ncpus p.size schedule).counters n .bytes +
        p.size * bytesPending pc := by
  have hsettled := (run_inv ncpus p.size schedule).1 n
  have hpending : countPending pc = (if isBetween pc then 1 else 0) + bytesPending pc := by
    cases pc <;> rfl
  rw [h.completed, hsettled, h.between, hpending, ← Nat.mul_add, Nat.add_assoc]

theorem step_follows {label : Label Empty Int}
    (hstep : (bench p ncpus rand).step mid label = some next)
    (h : Follows p ncpus rand mid (Source.IntervalReport.run ncpus p.size schedule)) :
    ∃ more : List Party, Follows p ncpus rand next
      (more.foldl (Bench.step ncpus p.size) (Source.IntervalReport.run ncpus p.size schedule)) := by
  obtain ⟨labels, hrun⟩ := h.reached
  have hreached : ∃ labels, (bench p ncpus rand).run (started ncpus) labels = some next := by
    refine ⟨labels ++ [label], ?_⟩
    rw [run_append hrun, Machine.run, List.foldlM_cons, hstep]
    rfl
  cases label with
  | spawn program => exact program.elim
  | act i poll =>
    obtain ⟨l, s', l', hl, hact, rfl⟩ := step_act hstep
    have hholds := bench_holds hrun
    have hsame : SameCounters ncpus _ mid.shared :=
      ⟨fun n hn => (h.counts hn).elim fun _ hpc => hpc.2.2.count,
        fun n hn => (h.counts hn).elim fun _ hpc => hpc.2.2.bytes⟩
    obtain ⟨more, hown, hothers⟩ := action_follows hact (hholds.threads i l hl) hsame
      (run_inv ncpus p.size schedule).2.index_lt (h.threads i l hl)
    refine ⟨more, hreached, fun j m hm => ?_⟩
    by_cases hji : j = i
    · subst hji
      rw [List.getElem?_set_self (List.getElem?_eq_some_iff.mp hl).1] at hm
      obtain rfl := Option.some.inj hm
      exact hown
    · rw [List.getElem?_set_ne (Ne.symm hji)] at hm
      exact hothers j m hji (hholds.threads j m hm) (h.threads j m hm)

theorem run_follows_small (hrun : (bench p ncpus rand).run (started ncpus) labels = some out) :
    ∃ schedule, Follows p ncpus rand out (Source.IntervalReport.run ncpus p.size schedule) := by
  have hstart : Follows p ncpus rand (started ncpus) .init := by
    refine ⟨⟨[], rfl⟩, fun i l hl => ?_⟩
    have hkinds : l = .main (.create 0) ∨ l = .worker .waiting ∨ l = .reporter .waiting := by
      have hmem := List.mem_of_getElem? hl
      simp only [started, List.cons_append, List.mem_cons, List.mem_append, List.mem_replicate,
        List.not_mem_nil, or_false] at hmem
      exact hmem.imp_right (Or.imp_left And.right)
    rcases hkinds with rfl | rfl | rfl
    · trivial
    · exact ⟨rfl, rfl, rfl, rfl⟩
    · exact ⟨rfl, rfl⟩
  exact run_follows (fun _ _ _ _ hstep h => step_follows hstep h) hstart hrun

end Runs

/-- Every interleaving of `main`, the workers and the reporter is a schedule of the small
system: its counters are those of the workers without their overflow, which are the I/Os
that have completed, but for the increments that a worker is in front of; its reporter is
the reporter, and its reports are what the INTERIM lines are printed from. -/
theorem interims_follow (p : BenchParam) (ncpus : Nat) (rand : Nat → Nat → Nat)
    (labels : List (Label Empty Int)) (out : System Shared BenchThread)
    (hrun : (bench p ncpus rand).run (started ncpus) labels = some out) :
    ∃ schedule,
      let small := Source.IntervalReport.run ncpus p.size schedule
      (∀ n < ncpus, ∃ pc, out.threads[n + 1]? = some (.worker pc) ∧
        (out.shared.th n).count = wrap 64 (small.counters n .count) ∧
        (out.shared.th n).bytes = wrap 64 (small.counters n .bytes) ∧
        (out.shared.th n).device.completed = small.counters n .count + countPending pc ∧
        p.size * (out.shared.th n).device.completed =
          small.counters n .bytes + p.size * bytesPending pc) ∧
      (∃ pc, out.threads[ncpus + 1]? = some (.reporter pc) ∧ ReporterAt small.reporter pc) ∧
      out.shared.interims = small.reports.map numbers := by
  obtain ⟨schedule, hfollows⟩ := run_follows_small hrun
  obtain ⟨rpc, hrpc, -⟩ := reporter_ok hrun
  have hreporting : Reporting out.shared rpc _ := hfollows.threads (ncpus + 1) _ hrpc
  refine ⟨schedule, fun n hn => ?_, ⟨rpc, hrpc, hreporting.reporter⟩, hreporting.interims⟩
  obtain ⟨pc, hpc, -, hcounts⟩ := hfollows.counts hn
  exact ⟨pc, hpc, hcounts.count, hcounts.bytes, hcounts.completed, hcounts.bytes_eq⟩

/-- One worker, whose I/O completes between the two readings of a report, which ends
between the worker's two increments. -/
def oneReport : List (Label Empty Int) :=
  [.act 0 0, .act 0 0] ++ List.replicate 4 (.act 1 0) ++ List.replicate 5 (.act 2 0) ++
    List.replicate 2 (.act 1 0) ++ List.replicate 3 (.act 2 0)

theorem interims_follow_one : ∃ out,
    (bench twoReads 1 fun _ _ => 0).run (started 1) oneReport = some out ∧
    out.shared.interims = [(0, 1024)] ∧
    ∃ schedule,
      let small := Source.IntervalReport.run 1 twoReads.size schedule
      (∀ n < 1, ∃ pc, out.threads[n + 1]? = some (.worker pc) ∧
        (out.shared.th n).count = wrap 64 (small.counters n .count) ∧
        (out.shared.th n).bytes = wrap 64 (small.counters n .bytes) ∧
        (out.shared.th n).device.completed = small.counters n .count + countPending pc ∧
        twoReads.size * (out.shared.th n).device.completed =
          small.counters n .bytes + twoReads.size * bytesPending pc) ∧
      (∃ pc, out.threads[1 + 1]? = some (.reporter pc) ∧ ReporterAt small.reporter pc) ∧
      out.shared.interims = small.reports.map numbers :=
  ⟨_, rfl, rfl, interims_follow twoReads 1 (fun _ _ => 0) oneReport _ rfl⟩

/-- In every interleaving the INTERIM lines together have no more I/Os and no more bytes
than have completed. When `main` has returned, and the counters have not overflowed, the
FINAL lines are what each worker has completed. -/
theorem lines_add_up (p : BenchParam) (ncpus : Nat) (rand : Nat → Nat → Nat)
    (labels : List (Label Empty Int)) (out : System Shared BenchThread)
    (hrun : (bench p ncpus rand).run (started ncpus) labels = some out) :
    let completed := fun n => (out.shared.th n).device.completed
    (out.shared.interims.map Prod.fst).sum ≤ ∑ n ∈ Finset.range ncpus, completed n ∧
    (out.shared.interims.map Prod.snd).sum ≤ p.size * ∑ n ∈ Finset.range ncpus, completed n ∧
    (out.threads[0]? = some (.main .returned) →
      (∀ n < ncpus, completed n < 2 ^ 64 ∧ p.size * completed n < 2 ^ 64) →
      out.shared.finals = (List.range ncpus).map fun n => (completed n, p.size * completed n)) := by
  intro completed
  obtain ⟨schedule, hfollows⟩ := run_follows_small hrun
  obtain ⟨rpc, hrpc, -⟩ := reporter_ok hrun
  have hreporting : Reporting out.shared rpc _ := hfollows.threads (ncpus + 1) _ hrpc
  have hview := (run_inv ncpus p.size schedule).2
  have htotal : total ncpus (Source.IntervalReport.run ncpus p.size schedule).counters .count ≤
      ∑ n ∈ Finset.range ncpus, completed n := Finset.sum_le_sum fun n hn => by
    obtain ⟨pc, -, -, hcounts⟩ := hfollows.counts (Finset.mem_range.mp hn)
    exact (Nat.le_add_right _ _).trans_eq hcounts.completed.symm
  have hsize : total ncpus (Source.IntervalReport.run ncpus p.size schedule).counters .bytes ≤
      p.size * ∑ n ∈ Finset.range ncpus, completed n := by
    rw [Finset.mul_sum]
    refine Finset.sum_le_sum fun n hn => ?_
    obtain ⟨pc, -, -, hcounts⟩ := hfollows.counts (Finset.mem_range.mp hn)
    exact (Nat.le_add_right _ _).trans_eq hcounts.bytes_eq.symm
  refine ⟨?_, ?_, fun hmain hfit => ?_⟩
  · rw [hreporting.interims, List.map_map]
    exact (hview.sum_difference_le .count).trans htotal
  · rw [hreporting.interims, List.map_map]
    exact (hview.sum_difference_le .bytes).trans hsize
  · obtain ⟨-, hended, hfinals⟩ := ((bench_holds hrun).threads 0 _ hmain).2
    rw [hfinals]
    refine List.map_congr_left fun n hn => ?_
    have hlt : n < ncpus := List.mem_range.mp hn
    obtain ⟨pc, -, hfinished, hcounts⟩ := hfollows.counts hlt
    obtain rfl := hfinished.mp (hended.1 n hlt)
    have hcompleted : completed n = _ + 0 := hcounts.completed
    have hbytes : p.size * completed n = _ + p.size * 0 := hcounts.bytes_eq
    have hbounds := hfit n hlt
    rw [Nat.add_zero] at hcompleted
    rw [Nat.mul_zero, Nat.add_zero] at hbytes
    rw [result, hcounts.count, hcounts.bytes, ← hcompleted, ← hbytes, wrap_of_lt hbounds.1,
      wrap_of_lt hbounds.2]

theorem lines_add_up_one : ∃ out,
    (bench twoReads 1 fun _ _ => 0).run (started 1) oneReport = some out ∧
    (let completed := fun n => (out.shared.th n).device.completed
    (out.shared.interims.map Prod.fst).sum ≤ ∑ n ∈ Finset.range 1, completed n ∧
    (out.shared.interims.map Prod.snd).sum ≤ twoReads.size * ∑ n ∈ Finset.range 1, completed n ∧
    (out.threads[0]? = some (.main .returned) →
      (∀ n < 1, completed n < 2 ^ 64 ∧ twoReads.size * completed n < 2 ^ 64) →
      out.shared.finals =
        (List.range 1).map fun n => (completed n, twoReads.size * completed n))) :=
  ⟨_, rfl, lines_add_up twoReads 1 (fun _ _ => 0) oneReport _ rfl⟩

end Nvpkt.Guarantees.InterimLines
