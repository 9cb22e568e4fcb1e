import Nvpkt.Guarantees.BenchDevice

/-!
# How `bench-nvme` comes to its end

After `main` has set `caught_signal` no worker begins another round, so that each submits
at most the rest of a batch (`overrun_le`). Every run from there on is bounded, and the
only state in which no thread can act is the one where `main` has returned
(`bench_returns`). When the device is closed nobody uses it any more, and what is printed
is what the counters were then (`closed_quiet`).
-/

set_option autoImplicit false

namespace Nvpkt.Guarantees.BenchShutdown
open Nvpkt.Library.Interleaving
open Nvpkt.Source.BenchNvme Nvpkt.Source.BenchMain
open Nvpkt.Guarantees.BenchThreads Nvpkt.Guarantees.BenchDevice

variable {p : BenchParam} {ncpus : Nat} {rand : Nat → Nat → Nat}
  {mid out : System Shared BenchThread} {labels later : List (Label Empty Int)}

/-! ## After the signal -/

section Signalled
variable {i j n : Nat} {s s' : Shared} {l l' m : BenchThread} {poll : Int}

/-- `Inv` after `caught_signal` is set. -/
def Signalled (ncpus : Nat) (s : Shared) : Prop := Inv ncpus s ∧ s.caughtSignal = true

theorem signalled_keeps (hact : benchAction p ncpus rand i s l poll = some (s', l'))
    (h : Signalled ncpus s) (hok : Ok p ncpus rand i s l) :
    Signalled ncpus s' ∧ Ok p ncpus rand i s' l' := by
  obtain ⟨hinv, hok'⟩ := action_keeps hact h.1 hok
  exact ⟨⟨hinv, (flags_kept hact hok).1 h.2⟩, hok'⟩

/-- The I/Os a worker submits before it comes to its `while` again. -/
def room (p : BenchParam) : WorkerPc → Nat
  | .submitting b => p.batch - b
  | _ => 0

theorem room_le (p : BenchParam) (pc : WorkerPc) : room p pc ≤ p.batch := by
  cases pc with
  | submitting b => exact Nat.sub_le p.batch b
  | _ => exact Nat.zero_le _

theorem submitIo_submitted (p : BenchParam) (qid : Nat) (rnd : Nat → Nat) (th : Thread) (b : Nat) :
    (submitIo p qid rnd th b).device.submitted.length = th.device.submitted.length + 1 := by
  simp only [submitIo, Source.BenchNvme.bench, Device.submit, List.length_append,
    List.length_singleton]

/-- A worker that sees the signal uses up its room. -/
theorem worker_room {pc pc' : WorkerPc}
    (hact : workerAction p ncpus rand n s poll pc = some (s', pc'))
    (hsignal : s.caughtSignal = true) :
    (s'.th n).device.submitted.length + room p pc' ≤
      (s.th n).device.submitted.length + room p pc := by
  cases pc with
  | waiting =>
    simp only [workerAction] at hact
    split at hact
    · obtain ⟨rfl, rfl⟩ := Prod.mk.inj (Option.some.inj hact)
      simp [Shared.setTh, benchInit, room]
    · cases hact
  | check =>
    rw [workerAction, if_pos hsignal] at hact
    obtain ⟨rfl, rfl⟩ := Prod.mk.inj (Option.some.inj hact)
    exact Nat.le_refl _
  | submitting b =>
    simp only [workerAction] at hact
    split at hact
    · next hb =>
      obtain ⟨rfl, rfl⟩ := Prod.mk.inj (Option.some.inj hact)
      simp only [Shared.setTh, Function.update_self, submitIo_submitted, room]
      omega
    · obtain ⟨rfl, rfl⟩ := Prod.mk.inj (Option.some.inj hact)
      exact Nat.le_add_right _ _
  | polling b =>
    simp only [workerAction] at hact
    split at hact
    · obtain ⟨rfl, rfl⟩ := Prod.mk.inj (Option.some.inj hact)
      have hroom : room p (if poll = 0 then .addingBytes b else .polling (b + 1)) = 0 := by
        split <;> rfl
      rw [hroom]
      simp only [Shared.setTh, Function.update_self, (apollIo_walk poll _ b).submitted, room,
        Nat.le_refl]
    · obtain ⟨rfl, rfl⟩ := Prod.mk.inj (Option.some.inj hact)
      exact Nat.le_refl _
  | addingBytes b | addingCount b =>
    obtain ⟨rfl, rfl⟩ := Prod.mk.inj (Option.some.inj hact)
    simp only [Shared.setTh, Function.update_self, room]
    exact Nat.le_refl _
  | done => cases hact

/-- A worker stays below what `limit` says. -/
def Limited (p : BenchParam) (limit : Nat → Nat) (i : Nat) (s : Shared) : BenchThread → Prop
  | .worker pc => (s.th (i - 1)).device.submitted.length + room p pc ≤ limit (i - 1)
  | _ => True

theorem limited_keeps {limit : Nat → Nat}
    (hact : benchAction p ncpus rand i s l poll = some (s', l')) (hsignal : s.caughtSignal = true)
    (h : Limited p limit i s l) : Limited p limit i s' l' := by
  cases l with
  | main pc | reporter pc =>
    obtain ⟨next, -, hnext⟩ := Option.map_eq_some_iff.mp hact
    obtain ⟨rfl, rfl⟩ := Prod.mk.inj hnext
    trivial
  | worker pc =>
    obtain ⟨⟨t, pc'⟩, hworker, hnext⟩ := Option.map_eq_some_iff.mp hact
    obtain ⟨rfl, rfl⟩ := Prod.mk.inj hnext
    exact Nat.le_trans (worker_room hworker hsignal) h

theorem limited_frame {limit : Nat → Nat} (hji : j ≠ i)
    (hact : benchAction p ncpus rand i s l poll = some (s', l')) (hok : Ok p ncpus rand i s l)
    (hother : Ok p ncpus rand j s m) (h : Limited p limit j s m) : Limited p limit j s' m := by
  cases m with
  | main pc | reporter pc => trivial
  | worker pc =>
    have hj := hother.1
    have hkept : s'.th (j - 1) = s.th (j - 1) := others_kept hact hok (by omega)
    simp only [Limited, hkept]
    exact h

end Signalled

/-- Once `caught_signal` is set a worker submits at most one more batch, however long the
run goes on and whatever the polls return. -/
theorem overrun_le (p : BenchParam) (ncpus : Nat) (rand : Nat → Nat → Nat)
    (labels later : List (Label Empty Int)) (mid out : System Shared BenchThread)
    (hrun : (bench p ncpus rand).run (started ncpus) labels = some mid)
    (hsignal : mid.shared.caughtSignal = true)
    (hlater : (bench p ncpus rand).run mid later = some out) :
    ∀ n < ncpus, (out.shared.th n).device.submitted.length ≤
      (mid.shared.th n).device.submitted.length + p.batch := by
  intro n hn
  have hmid := bench_holds hrun
  let limit : Nat → Nat := fun n => (mid.shared.th n).device.submitted.length + p.batch
  have hstart : Holds (Signalled ncpus)
      (fun i s l => Ok p ncpus rand i s l ∧ Limited p limit i s l) mid := by
    refine ⟨⟨hmid.shared, hsignal⟩, fun i l hl => ⟨hmid.threads i l hl, ?_⟩⟩
    cases l with
    | main pc | reporter pc => trivial
    | worker pc => exact Nat.add_le_add_left (room_le p pc) _
  have hend := run_keeps (fun program => program.elim)
    (fun _ _ _ _ _ _ _ hact hinv hok =>
      have hkept := signalled_keeps hact hinv hok.1
      ⟨hkept.1, hkept.2, limited_keeps hact hinv.2 hok.2⟩)
    (fun _ _ _ _ _ _ _ _ _ hji hact _ hok hother =>
      ⟨action_frame hji hact hok.1 hother.1, limited_frame hji hact hok.1 hother.1 hother.2⟩)
    hstart hlater
  obtain ⟨pc, hpc, -, -⟩ := worker_ok (by rw [run_append hrun]; exact hlater) hn
  exact Nat.le_of_add_right_le (hend.threads (n + 1) _ hpc).2

/-- The only worker is about to poll for its I/O when the time is over. -/
def untilSignal : List (Label Empty Int) :=
  [.act 0 0, .act 0 0, .act 1 0, .act 1 0, .act 1 0, .act 0 0]

/-- The worker ends its round, the reporter has nothing to do, and `main` waits for both. -/
def untilClosed : List (Label Empty Int) :=
  List.replicate 6 (.act 1 0) ++ List.replicate 2 (.act 2 0) ++ List.replicate 4 (.act 0 0)

theorem overrun_le_one : ∃ mid out,
    (bench twoReads 1 fun _ _ => 0).run (started 1) untilSignal = some mid ∧
    (bench twoReads 1 fun _ _ => 0).run mid untilClosed = some out ∧
    ∀ n < 1, (out.shared.th n).device.submitted.length ≤
      (mid.shared.th n).device.submitted.length + twoReads.batch :=
  ⟨_, _, rfl, rfl,
    overrun_le twoReads 1 (fun _ _ => 0) untilSignal untilClosed _ _ rfl rfl rfl⟩

/-! ## To the end -/

/-- What is left to do when `caught_signal` is set. -/
def rank (p : BenchParam) (ncpus : Nat) : BenchThread → Nat
  | .main (.create _) => 0
  | .main .sleeping => 2 * ncpus + 5
  | .main (.joining n) => (ncpus - n) + ncpus + 4
  | .main .joiningReporter => ncpus + 3
  | .main .closing => ncpus + 2
  | .main (.printing n) => (ncpus - n) + 1
  | .main .returned => 0
  | .worker .waiting => 2
  | .worker .check => 1
  | .worker (.submitting b) => (p.batch - b) + 3 * p.batch + 3
  | .worker (.polling b) => 3 * (p.batch - b) + 2
  | .worker (.addingBytes b) => 3 * (p.batch - (b + 1)) + 4
  | .worker (.addingCount b) => 3 * (p.batch - (b + 1)) + 3
  | .worker .done => 0
  | .reporter .waiting => 2
  | .reporter .check => 1
  | .reporter (.first n .count _ _) => 2 * (ncpus - n) + 2 * ncpus + 3
  | .reporter (.first n .bytes _ _) => 2 * (ncpus - (n + 1)) + 2 * ncpus + 4
  | .reporter (.second n .count _ _ _ _) => 2 * (ncpus - n) + 2
  | .reporter (.second n .bytes _ _ _ _) => 2 * (ncpus - (n + 1)) + 3
  | .reporter .done => 0

theorem main_rank_le (p : BenchParam) (ncpus : Nat) (pc : MainPc) :
    rank p ncpus (.main pc) ≤ 2 * ncpus + 5 := by
  cases pc <;> simp only [rank] <;> omega

theorem worker_rank_le (p : BenchParam) (ncpus : Nat) (pc : WorkerPc) :
    rank p ncpus (.worker pc) ≤ 4 * p.batch + 4 := by
  cases pc <;> simp only [rank] <;> omega

theorem reporter_rank_le (p : BenchParam) (ncpus : Nat) (pc : ReporterPc) :
    rank p ncpus (.reporter pc) ≤ 4 * ncpus + 4 := by
  cases pc with
  | first n next | second n next => cases next <;> simp only [rank] <;> omega
  | _ => simp only [rank]; omega

section Progress
variable {i n : Nat} {s s' : Shared} {l l' : BenchThread} {poll : Int}

theorem main_rank {pc pc' : MainPc} (hact : mainAction ncpus s pc = some (s', pc'))
    (hsignal : s.caughtSignal = true) (hat : MainAt ncpus s pc) :
    rank p ncpus (.main pc') < rank p ncpus (.main pc) := by
  cases pc with
  | create n => exact absurd (hat.2.2.1.symm.trans hsignal) Bool.false_ne_true
  | sleeping | closing =>
    obtain ⟨rfl, rfl⟩ := Prod.mk.inj (Option.some.inj hact)
    simp only [rank]
    omega
  | joining n =>
    simp only [mainAction] at hact
    split at hact
    · split at hact
      · obtain ⟨rfl, rfl⟩ := Prod.mk.inj (Option.some.inj hact)
        simp only [rank]
        omega
      · cases hact
    · obtain ⟨rfl, rfl⟩ := Prod.mk.inj (Option.some.inj hact)
      simp only [rank]
      omega
  | joiningReporter =>
    simp only [mainAction] at hact
    split at hact
    · obtain ⟨rfl, rfl⟩ := Prod.mk.inj (Option.some.inj hact)
      simp only [rank]
      omega
    · cases hact
  | printing n =>
    simp only [mainAction] at hact
    split at hact
    all_goals
      obtain ⟨rfl, rfl⟩ := Prod.mk.inj (Option.some.inj hact)
      simp only [rank]
      omega
  | returned => cases hact

theorem worker_rank {pc pc' : WorkerPc}
    (hact : workerAction p ncpus rand n s poll pc = some (s', pc'))
    (hsignal : s.caughtSignal = true) :
    rank p ncpus (.worker pc') < rank p ncpus (.worker pc) := by
  cases pc with
  | waiting =>
    simp only [workerAction] at hact
    split at hact
    · obtain ⟨rfl, rfl⟩ := Prod.mk.inj (Option.some.inj hact)
      exact Nat.lt_succ_self 1
    · cases hact
  | check =>
    rw [workerAction, if_pos hsignal] at hact
    obtain ⟨rfl, rfl⟩ := Prod.mk.inj (Option.some.inj hact)
    exact Nat.one_pos
  | submitting b =>
    simp only [workerAction] at hact
    split at hact
    all_goals
      obtain ⟨rfl, rfl⟩ := Prod.mk.inj (Option.some.inj hact)
      simp only [rank]
      omega
  | polling b =>
    simp only [workerAction] at hact
    split at hact
    · obtain ⟨rfl, rfl⟩ := Prod.mk.inj (Option.some.inj hact)
      split
      all_goals
        simp only [rank]
        omega
    · obtain ⟨rfl, rfl⟩ := Prod.mk.inj (Option.some.inj hact)
      simp only [rank]
      omega
  | addingBytes b | addingCount b =>
    obtain ⟨rfl, rfl⟩ := Prod.mk.inj (Option.some.inj hact)
    simp only [rank]
    omega
  | done => cases hact

theorem reporter_rank {pc pc' : ReporterPc} (hact : reporterAction ncpus s pc = some (s', pc'))
    (hsignal : s.caughtSignal = true) :
    rank p ncpus (.reporter pc') < rank p ncpus (.reporter pc) := by
  cases pc with
  | waiting =>
    simp only [reporterAction] at hact
    split at hact
    · obtain ⟨rfl, rfl⟩ := Prod.mk.inj (Option.some.inj hact)
      exact Nat.lt_succ_self 1
    · cases hact
  | check =>
    rw [reporterAction, if_pos hsignal] at hact
    obtain ⟨rfl, rfl⟩ := Prod.mk.inj (Option.some.inj hact)
    exact Nat.one_pos
  | first n next | second n next =>
    cases next with
    | count =>
      simp only [reporterAction] at hact
      split at hact
      all_goals
        obtain ⟨rfl, rfl⟩ := Prod.mk.inj (Option.some.inj hact)
        simp only [rank]
        omega
    | bytes =>
      obtain ⟨rfl, rfl⟩ := Prod.mk.inj (Option.some.inj hact)
      simp only [rank]
      omega
  | done => cases hact

theorem action_rank (hact : benchAction p ncpus rand i s l poll = some (s', l'))
    (hsignal : s.caughtSignal = true) (hok : Ok p ncpus rand i s l) :
    rank p ncpus l' < rank p ncpus l := by
  cases l with
  | main pc =>
    obtain ⟨⟨t, pc'⟩, hmain, hnext⟩ := Option.map_eq_some_iff.mp hact
    obtain ⟨rfl, rfl⟩ := Prod.mk.inj hnext
    exact main_rank hmain hsignal hok.2
  | worker pc =>
    obtain ⟨⟨t, pc'⟩, hworker, hnext⟩ := Option.map_eq_some_iff.mp hact
    obtain ⟨rfl, rfl⟩ := Prod.mk.inj hnext
    exact worker_rank hworker hsignal
  | reporter pc =>
    obtain ⟨⟨t, pc'⟩, hreporter, hnext⟩ := Option.map_eq_some_iff.mp hact
    obtain ⟨rfl, rfl⟩ := Prod.mk.inj hnext
    exact reporter_rank hreporter hsignal

/-! ## Nobody waits for ever -/

/-- A worker that is created can act until it has ended. -/
theorem worker_ready {pc : WorkerPc} (hcreated : n < s.created) (hpc : pc ≠ .done) (poll : Int) :
    (workerAction p ncpus rand n s poll pc).isSome := by
  cases pc with
  | waiting => simp only [workerAction, if_pos hcreated, Option.isSome_some]
  | check | submitting b | polling b =>
    simp only [workerAction]
    split <;> rfl
  | addingBytes b | addingCount b => rfl
  | done => exact absurd rfl hpc

theorem reporter_ready {pc : ReporterPc} (hcreated : s.reporterCreated = true)
    (hpc : pc ≠ .done) : (reporterAction ncpus s pc).isSome := by
  cases pc with
  | waiting => simp only [reporterAction, if_pos hcreated, Option.isSome_some]
  | check =>
    simp only [reporterAction]
    split <;> rfl
  | first n next | second n next =>
    cases next with
    | count =>
      simp only [reporterAction]
      split <;> rfl
    | bytes => rfl
  | done => exact absurd rfl hpc

/-- `main` can act, or it waits for a thread that has not ended. -/
theorem main_ready {pc : MainPc} (hat : MainAt ncpus s pc) (hpc : pc ≠ .returned) :
    (mainAction ncpus s pc).isSome ∨ Stopping ncpus s ∧
      ((∃ n < ncpus, ¬ s.finished n = true) ∨ ¬ s.reporterFinished = true) := by
  cases pc with
  | create n | printing n =>
    refine .inl ?_
    simp only [mainAction]
    split <;> rfl
  | sleeping | closing => exact .inl rfl
  | joining n =>
    by_cases hn : n < ncpus
    · by_cases hfinished : s.finished n = true
      · exact .inl (by simp only [mainAction, if_pos hn, if_pos hfinished, Option.isSome_some])
      · exact .inr ⟨hat.1, .inl ⟨n, hn, hfinished⟩⟩
    · exact .inl (by simp only [mainAction, if_neg hn, Option.isSome_some])
  | joiningReporter =>
    by_cases hfinished : s.reporterFinished = true
    · exact .inl (by simp only [mainAction, if_pos hfinished, Option.isSome_some])
    · exact .inr ⟨hat.1, .inr hfinished⟩
  | returned => exact absurd rfl hpc

end Progress

/-- An action that a thread can do is a step. -/
theorem step_isSome {i : Nat} {l : BenchThread} {poll : Int} (hl : out.threads[i]? = some l)
    (h : (benchAction p ncpus rand i out.shared l poll).isSome) :
    (bench p ncpus rand).step out (.act i poll) ≠ none := by
  obtain ⟨⟨s', l'⟩, hact⟩ := Option.isSome_iff_exists.mp h
  rw [act_step (M := bench p ncpus rand) hl hact]
  exact Option.some_ne_none _

/-- Some thread can act as long as `main` has not returned. -/
theorem not_stuck (hrun : (bench p ncpus rand).run (started ncpus) labels = some out)
    (hmain : out.threads[0]? ≠ some (.main .returned)) (poll : Int) :
    ∃ i, (bench p ncpus rand).step out (.act i poll) ≠ none := by
  obtain ⟨pc, hpc, hat⟩ := main_ok hrun
  have hnot : pc ≠ .returned := by
    rintro rfl
    exact hmain hpc
  rcases main_ready hat hnot with hready | ⟨hstop, ⟨n, hn, hrunning⟩ | hrunning⟩
  · refine ⟨0, step_isSome hpc ?_⟩
    simpa only [benchAction, Option.isSome_map] using hready
  · obtain ⟨wpc, hwpc, hfinished, -⟩ := worker_ok hrun hn
    refine ⟨n + 1, step_isSome hwpc ?_⟩
    have hcreated : n < out.shared.created := by
      rw [hstop.1]
      exact hn
    simpa only [benchAction, Option.isSome_map, Nat.add_sub_cancel] using
      worker_ready hcreated (fun hdone => hrunning (hfinished.mpr hdone)) poll
  · obtain ⟨rpc, hrpc, hfinished⟩ := reporter_ok hrun
    refine ⟨ncpus + 1, step_isSome hrpc ?_⟩
    have hready : (reporterAction ncpus out.shared rpc).isSome :=
      reporter_ready hstop.2.1 fun hdone => hrunning (hfinished.mpr hdone)
    simpa only [benchAction, Option.isSome_map] using hready

/-- No thread can act when `main` has returned. -/
theorem returned_stuck (hrun : (bench p ncpus rand).run (started ncpus) labels = some out)
    (hmain : out.threads[0]? = some (.main .returned)) (i : Nat) (poll : Int) :
    (bench p ncpus rand).step out (.act i poll) = none := by
  obtain ⟨-, hended, -⟩ := ((bench_holds hrun).threads 0 _ hmain).2
  refine Option.eq_none_iff_forall_not_mem.mpr fun next hnext => ?_
  obtain ⟨l, s', l', hl, hact, -⟩ := step_act hnext
  have hok := (bench_holds hrun).threads i l hl
  cases l with
  | main pc =>
    obtain rfl := hok.1
    obtain rfl : pc = .returned := by
      rw [hmain] at hl
      exact (BenchThread.main.inj (Option.some.inj hl)).symm
    cases hact
  | worker pc =>
    have hi := hok.1
    obtain rfl := hok.2.1.mp (hended.1 (i - 1) (by omega))
    cases hact
  | reporter pc =>
    obtain rfl := hok.2.mp hended.2
    cases hact

/-- The most that is left to do for thread `i`. -/
def rankBound (p : BenchParam) (ncpus i : Nat) : Nat :=
  if i = 0 then 2 * ncpus + 5 else if i ≤ ncpus then 4 * p.batch + 4 else 4 * ncpus + 4

theorem rank_le_bound {i : Nat} {s : Shared} {l : BenchThread} (hok : Ok p ncpus rand i s l) :
    rank p ncpus l ≤ rankBound p ncpus i := by
  cases l with
  | main pc =>
    rw [rankBound, if_pos hok.1]
    exact main_rank_le p ncpus pc
  | worker pc =>
    obtain ⟨hpos, hle⟩ := hok.1
    rw [rankBound, if_neg (by omega), if_pos hle]
    exact worker_rank_le p ncpus pc
  | reporter pc =>
    obtain rfl := hok.1
    rw [rankBound, if_neg (by omega), if_neg (by omega)]
    exact reporter_rank_le p ncpus pc

/-- The bounds of `main`, of `ncpus` workers and of the reporter. -/
theorem sum_rankBound (p : BenchParam) (ncpus : Nat) :
    ((List.range (ncpus + 2)).map (rankBound p ncpus)).sum = ncpus * (4 * p.batch + 10) + 9 := by
  have hworkers : (List.range ncpus).map (fun i => rankBound p ncpus (i + 1)) =
      (List.range ncpus).map fun _ => 4 * p.batch + 4 := by
    refine List.map_congr_left fun i hi => ?_
    have hlt : i < ncpus := List.mem_range.mp hi
    rw [rankBound, if_neg (by omega), if_pos (by omega)]
  have hlast : rankBound p ncpus (ncpus + 1) = 4 * ncpus + 4 := by
    rw [rankBound, if_neg (by omega), if_neg (by omega)]
  rw [List.range_succ, List.range_succ_eq_map, List.map_append, List.map_singleton, hlast,
    List.map_cons, List.map_map, List.sum_append, List.sum_cons, List.sum_singleton]
  have hsum : ((List.range ncpus).map (rankBound p ncpus ∘ Nat.succ)).sum =
      ncpus * (4 * p.batch + 4) := by
    refine (congrArg List.sum hworkers).trans ?_
    rw [List.map_const', List.sum_replicate_nat, List.length_range]
  rw [hsum, rankBound, if_pos rfl]
  grind

theorem ranks_le (hrun : (bench p ncpus rand).run (started ncpus) labels = some out) :
    (out.threads.map (rank p ncpus)).sum ≤ ncpus * (4 * p.batch + 10) + 9 := by
  have hsum := sum_le_sum_range out.threads fun i l hl =>
    rank_le_bound ((bench_holds hrun).threads i l hl)
  rwa [threads_length hrun, sum_rankBound] at hsum

/-- Every run is bounded once `caught_signal` is set, and the states in which no thread
can act, whatever the poll would return, are those where `main` has returned. So every
run that is not cut short ends, with all threads joined and the device closed. -/
theorem bench_returns (p : BenchParam) (ncpus : Nat) (rand : Nat → Nat → Nat)
    (labels later : List (Label Empty Int)) (mid out : System Shared BenchThread)
    (hrun : (bench p ncpus rand).run (started ncpus) labels = some mid)
    (hsignal : mid.shared.caughtSignal = true)
    (hlater : (bench p ncpus rand).run mid later = some out) :
    (inputs later).length ≤ ncpus * (4 * p.batch + 10) + 9 ∧
    ((∀ i poll, (bench p ncpus rand).step out (.act i poll) = none) ↔
      out.threads[0]? = some (.main .returned)) := by
  have hall : (bench p ncpus rand).run (started ncpus) (labels ++ later) = some out := by
    rw [run_append hrun]
    exact hlater
  constructor
  · have hmid := bench_holds hrun
    have hstart : Holds (Signalled ncpus) (Ok p ncpus rand) mid :=
      ⟨⟨hmid.shared, hsignal⟩, hmid.threads⟩
    have hbound : (inputs later).length + (out.threads.map (rank p ncpus)).sum ≤
        (mid.threads.map (rank p ncpus)).sum +
          ((spawned later).map fun q => rank p ncpus ((bench p ncpus rand).init q)).sum := by
      refine run_rank (rank p ncpus) ?_ ?_ ?_ ?_ hstart hlater
      · exact fun program => program.elim
      · exact fun _ _ _ _ _ _ _ hact => signalled_keeps hact
      · exact fun _ _ _ _ _ _ _ _ _ hji hact _ => action_frame hji hact
      · exact fun _ _ _ _ _ _ hact hinv => action_rank hact hinv.2
    have hspawned : spawned later = [] := List.eq_nil_iff_forall_not_mem.mpr fun q => q.elim
    have hranks := ranks_le hrun
    simp only [hspawned, List.map_nil, List.sum_nil] at hbound
    omega
  · constructor
    · intro hstuck
      by_contra hmain
      obtain ⟨i, hi⟩ := not_stuck hall hmain 0
      exact hi (hstuck i 0)
    · exact fun hmain => returned_stuck hall hmain

theorem bench_returns_one : ∃ mid out,
    (bench twoReads 1 fun _ _ => 0).run (started 1) untilSignal = some mid ∧
    (bench twoReads 1 fun _ _ => 0).run mid untilClosed = some out ∧
    (inputs untilClosed).length ≤ 1 * (4 * twoReads.batch + 10) + 9 ∧
    ((∀ i poll, (bench twoReads 1 fun _ _ => 0).step out (.act i poll) = none) ↔
      out.threads[0]? = some (.main .returned)) :=
  ⟨_, _, rfl, rfl,
    bench_returns twoReads 1 (fun _ _ => 0) untilSignal untilClosed _ _ rfl rfl rfl⟩

/-! ## The device is closed -/

section Closed
variable {i : Nat} {s s' : Shared} {l l' : BenchThread} {poll : Int}

/-- When all have ended the `bench_thread` structures are not written any more. -/
theorem ended_kept (hact : benchAction p ncpus rand i s l poll = some (s', l'))
    (hok : Ok p ncpus rand i s l) (hended : Ended ncpus s) :
    ∀ n < ncpus, s'.th n = s.th n := by
  intro n hn
  by_cases hi : n + 1 = i
  · subst hi
    cases l with
    | main pc => exact absurd hok.1 (Nat.succ_ne_zero n)
    | worker pc =>
      obtain rfl := hok.2.1.mp (hended.1 n hn)
      cases hact
    | reporter pc =>
      have hreporter := hok.1
      omega
  · exact others_kept hact hok hi

/-- `Inv` where the device is closed, and the workers are as they were. -/
def Closed (ncpus : Nat) (th : Nat → Thread) (s : Shared) : Prop :=
  Inv ncpus s ∧ s.closed = true ∧ ∀ n < ncpus, s.th n = th n

theorem closed_keeps {th : Nat → Thread}
    (hact : benchAction p ncpus rand i s l poll = some (s', l')) (h : Closed ncpus th s)
    (hok : Ok p ncpus rand i s l) : Closed ncpus th s' ∧ Ok p ncpus rand i s' l' := by
  obtain ⟨hinv, hclosed, hth⟩ := h
  obtain ⟨hinv', hok'⟩ := action_keeps hact hinv hok
  refine ⟨⟨hinv', (flags_kept hact hok).2 hclosed, fun n hn => ?_⟩, hok'⟩
  rw [ended_kept hact hok (hinv.closed hclosed) n hn, hth n hn]

end Closed

/-- When `unvme_close` is called every worker has left its loop after whole rounds. Nothing
is submitted or polled for afterwards, and what is printed in the end are the counters
of that moment, one line for each worker. -/
theorem closed_quiet (p : BenchParam) (ncpus : Nat) (rand : Nat → Nat → Nat)
    (labels later : List (Label Empty Int)) (mid out : System Shared BenchThread)
    (hrun : (bench p ncpus rand).run (started ncpus) labels = some mid)
    (hclosed : mid.shared.closed = true)
    (hlater : (bench p ncpus rand).run mid later = some out) :
    (∀ n < ncpus, out.shared.th n = mid.shared.th n ∧
      ∃ rounds, mid.shared.th n = benchStart p n (rand n) (threadSlba ncpus n) rounds) ∧
    (out.threads[0]? = some (.main .returned) →
      out.shared.finals = (List.range ncpus).map (result mid.shared)) := by
  have hmid := bench_holds hrun
  have hstart : Holds (Closed ncpus mid.shared.th) (Ok p ncpus rand) mid :=
    ⟨⟨hmid.shared, hclosed, fun _ _ => rfl⟩, hmid.threads⟩
  have hend : Holds (Closed ncpus mid.shared.th) (Ok p ncpus rand) out := by
    refine run_keeps ?_ ?_ ?_ hstart hlater
    · exact fun program => program.elim
    · exact fun _ _ _ _ _ _ _ hact => closed_keeps hact
    · exact fun _ _ _ _ _ _ _ _ _ hji hact _ => action_frame hji hact
  have hth := hend.shared.2.2
  refine ⟨fun n hn => ⟨hth n hn, ?_⟩, fun hmain => ?_⟩
  · obtain ⟨pc, -, hfinished, hat⟩ := worker_ok hrun hn
    obtain rfl := hfinished.mp ((hmid.shared.closed hclosed).1 n hn)
    exact hat
  · obtain ⟨-, -, hfinals⟩ := (hend.threads 0 _ hmain).2
    rw [hfinals]
    refine List.map_congr_left fun n hn => ?_
    rw [result, result, hth n (List.mem_range.mp hn)]

/-- What is left is to print the line of the worker. -/
def untilReturned : List (Label Empty Int) := [.act 0 0, .act 0 0]

theorem closed_quiet_one : ∃ mid out,
    (bench twoReads 1 fun _ _ => 0).run (started 1) (untilSignal ++ untilClosed) = some mid ∧
    (bench twoReads 1 fun _ _ => 0).run mid untilReturned = some out ∧
    (∀ n < 1, out.shared.th n = mid.shared.th n ∧ ∃ rounds, mid.shared.th n =
      benchStart twoReads n (fun _ => 0) (threadSlba 1 n) rounds) ∧
    (out.threads[0]? = some (.main .returned) →
      out.shared.finals = (List.range 1).map (result mid.shared)) :=
  ⟨_, _, rfl, rfl,
    closed_quiet twoReads 1 (fun _ _ => 0) (untilSignal ++ untilClosed) untilReturned _ _ rfl rfl
      rfl⟩

end Nvpkt.Guarantees.BenchShutdown
