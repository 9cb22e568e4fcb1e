import Nvpkt.Source.BenchMain

/-!
# Where the threads of `bench-nvme` stand

The invariant of every interleaving. `main` has waited for whoever it is past the
`pthread_join` of, a thread is waited for exactly until it has ended, and the variables
of a worker are those that `bench_start` has at its place after some number of rounds,
whatever the other threads do in between (`bench_holds`).
-/

set_option autoImplicit false

namespace Nvpkt.Guarantees.BenchThreads
open Nvpkt.Library.Interleaving
open Nvpkt.Source.BenchNvme Nvpkt.Source.BenchMain

variable {p : BenchParam} {ncpus : Nat} {rand : Nat → Nat → Nat}

/-- What a FINAL line is printed from. -/
def result (s : Shared) (n : Nat) : Nat × Nat := ((s.th n).count, (s.th n).bytes)

/-- Everything is started, and is to stop. -/
def Stopping (ncpus : Nat) (s : Shared) : Prop :=
  s.created = ncpus ∧ s.reporterCreated = true ∧ s.caughtSignal = true

/-- All threads but `main` have ended. -/
def Ended (ncpus : Nat) (s : Shared) : Prop :=
  (∀ n < ncpus, s.finished n = true) ∧ s.reporterFinished = true

def MainAt (ncpus : Nat) (s : Shared) : MainPc → Prop
  | .create n => s.created = n ∧ n ≤ ncpus ∧ s.caughtSignal = false ∧ s.finals = []
  | .sleeping => s.created = ncpus ∧ s.reporterCreated = true ∧ s.finals = []
  | .joining n => Stopping ncpus s ∧ (∀ j < n, s.finished j = true) ∧ n ≤ ncpus ∧ s.finals = []
  | .joiningReporter => Stopping ncpus s ∧ (∀ j < ncpus, s.finished j = true) ∧ s.finals = []
  | .closing => Stopping ncpus s ∧ Ended ncpus s ∧ s.finals = []
  | .printing n =>
    Stopping ncpus s ∧ Ended ncpus s ∧ n ≤ ncpus ∧ s.finals = (List.range n).map (result s)
  | .returned => Stopping ncpus s ∧ Ended ncpus s ∧ s.finals = (List.range ncpus).map (result s)

/-- The variables of a worker are those of `bench_start` at its place. -/
def WorkerAt (p : BenchParam) (qid : Nat) (rand : Nat → Nat) (slba : Nat) (th : Thread) :
    WorkerPc → Prop
  | .waiting => th = zeroThread
  | .check => ∃ rounds, th = benchStart p qid rand slba rounds
  | .submitting b => ∃ rounds, b ≤ p.batch ∧
      th = submitLoop p qid rand (benchStart p qid rand slba rounds) b
  | .polling b => ∃ rounds polls, b ≤ p.batch ∧
      th = pollLoop p polls (submitLoop p qid rand (benchStart p qid rand slba rounds) p.batch) b
  | .addingBytes b => ∃ rounds polls, b < p.batch ∧ th = apollIo 0
      (pollLoop p polls (submitLoop p qid rand (benchStart p qid rand slba rounds) p.batch) b) b
  | .addingCount b => ∃ rounds polls, b < p.batch ∧ th = addBytes p (apollIo 0
      (pollLoop p polls (submitLoop p qid rand (benchStart p qid rand slba rounds) p.batch) b) b)
  | .done => ∃ rounds, th = benchStart p qid rand slba rounds

/-- What holds of the shared state alone. -/
structure Inv (ncpus : Nat) (s : Shared) : Prop where
  signalled : s.caughtSignal = true → Stopping ncpus s
  closed : s.closed = true → Ended ncpus s

/-- What holds of thread `i`. -/
def Ok (p : BenchParam) (ncpus : Nat) (rand : Nat → Nat → Nat) (i : Nat) (s : Shared) :
    BenchThread → Prop
  | .main pc => i = 0 ∧ MainAt ncpus s pc
  | .worker pc => (0 < i ∧ i ≤ ncpus) ∧ (s.finished (i - 1) = true ↔ pc = .done) ∧
      WorkerAt p (i - 1) (rand (i - 1)) (threadSlba ncpus (i - 1)) (s.th (i - 1)) pc
  | .reporter pc => i = ncpus + 1 ∧ (s.reporterFinished = true ↔ pc = .done)

/-! ## The steps of a worker -/

section Worker
variable {qid slba b : Nat} {rnd : Nat → Nat} {th : Thread}

/-- The polls of the passes to come are not looked at. -/
theorem pollLoop_congr {polls polls' : Nat → Int} (h : ∀ j < b, polls j = polls' j) :
    pollLoop p polls th b = pollLoop p polls' th b := by
  induction b with
  | zero => rfl
  | succ b ih =>
    rw [pollLoop_succ, pollLoop_succ, ih (fun j hj => h j (by omega))]
    simp only [pollIo, h b (by omega)]

theorem submitting_next (h : WorkerAt p qid rnd slba th (.submitting b)) (hb : b < p.batch) :
    WorkerAt p qid rnd slba (submitIo p qid rnd th b) (.submitting (b + 1)) := by
  obtain ⟨rounds, -, rfl⟩ := h
  exact ⟨rounds, hb, (submitLoop_succ ..).symm⟩

theorem submitting_last (h : WorkerAt p qid rnd slba th (.submitting b)) (hb : ¬ b < p.batch) :
    WorkerAt p qid rnd slba th (.polling 0) := by
  obtain ⟨rounds, hle, rfl⟩ := h
  obtain rfl : b = p.batch := by omega
  exact ⟨rounds, fun _ => 0, Nat.zero_le _, rfl⟩

/-- The pass of the polling loop for I/O `b`, with one more poll to go by. -/
theorem pollLoop_next (p : BenchParam) (polls : Nat → Int) (th : Thread) (b : Nat) (poll : Int) :
    pollLoop p (Function.update polls b poll) th (b + 1) =
      if poll = 0 then addCount (addBytes p (apollIo poll (pollLoop p polls th b) b))
      else apollIo poll (pollLoop p polls th b) b := by
  have hpast : ∀ j < b, polls j = Function.update polls b poll j := fun j hj =>
    (Function.update_of_ne (by omega) _ _).symm
  rw [pollLoop_succ, ← pollLoop_congr hpast, pollIo_steps, Function.update_self]

theorem polling_next (h : WorkerAt p qid rnd slba th (.polling b)) (hb : b < p.batch)
    (poll : Int) : WorkerAt p qid rnd slba (apollIo poll th b)
      (if poll = 0 then .addingBytes b else .polling (b + 1)) := by
  obtain ⟨rounds, polls, -, rfl⟩ := h
  split
  case isTrue hpoll =>
    subst hpoll
    exact ⟨rounds, polls, hb, rfl⟩
  case isFalse hpoll =>
    refine ⟨rounds, Function.update polls b poll, hb, ?_⟩
    rw [pollLoop_next, if_neg hpoll]

theorem addingBytes_next (h : WorkerAt p qid rnd slba th (.addingBytes b)) :
    WorkerAt p qid rnd slba (addBytes p th) (.addingCount b) := by
  obtain ⟨rounds, polls, hb, rfl⟩ := h
  exact ⟨rounds, polls, hb, rfl⟩

theorem addingCount_next (h : WorkerAt p qid rnd slba th (.addingCount b)) :
    WorkerAt p qid rnd slba (addCount th) (.polling (b + 1)) := by
  obtain ⟨rounds, polls, hb, rfl⟩ := h
  refine ⟨rounds, Function.update polls b 0, hb, ?_⟩
  rw [pollLoop_next, if_pos rfl]

theorem polling_last (h : WorkerAt p qid rnd slba th (.polling b)) (hb : ¬ b < p.batch) :
    WorkerAt p qid rnd slba th .check := by
  obtain ⟨rounds, polls, hle, rfl⟩ := h
  obtain rfl : b = p.batch := by omega
  refine ⟨rounds ++ [polls], ?_⟩
  simp only [benchStart, List.foldl_append, List.foldl_cons, List.foldl_nil, benchRound]

end Worker

/-! ## The invariant -/

section Actions
variable {i j : Nat} {s s' : Shared} {poll : Int}

theorem main_keeps {pc pc' : MainPc} (hact : mainAction ncpus s pc = some (s', pc'))
    (hinv : Inv ncpus s) (h : MainAt ncpus s pc) : Inv ncpus s' ∧ MainAt ncpus s' pc' := by
  cases pc with
  | create n =>
    obtain ⟨hcreated, hle, hsignal, hfinals⟩ := h
    simp only [mainAction] at hact
    split at hact
    · obtain ⟨rfl, rfl⟩ := Prod.mk.inj (Option.some.inj hact)
      refine ⟨⟨fun hs => ?_, hinv.closed⟩, rfl, by omega, hsignal, hfinals⟩
      exact absurd (hsignal.symm.trans hs) Bool.false_ne_true
    · obtain ⟨rfl, rfl⟩ := Prod.mk.inj (Option.some.inj hact)
      refine ⟨⟨fun hs => ?_, hinv.closed⟩, by simp only; omega, rfl, hfinals⟩
      exact absurd (hsignal.symm.trans hs) Bool.false_ne_true
  | sleeping =>
    obtain ⟨hcreated, hreporter, hfinals⟩ := h
    obtain ⟨rfl, rfl⟩ := Prod.mk.inj (Option.some.inj hact)
    have hstop : Stopping ncpus { s with caughtSignal := true } := ⟨hcreated, hreporter, rfl⟩
    exact ⟨⟨fun _ => hstop, hinv.closed⟩, hstop, by simp, Nat.zero_le _, hfinals⟩
  | joining n =>
    obtain ⟨hstop, hall, hle, hfinals⟩ := h
    simp only [mainAction] at hact
    split at hact
    · split at hact
      · next hfinished =>
        obtain ⟨rfl, rfl⟩ := Prod.mk.inj (Option.some.inj hact)
        refine ⟨hinv, hstop, fun j hj => ?_, by omega, hfinals⟩
        rcases Nat.lt_succ_iff_lt_or_eq.mp hj with hj | rfl
        · exact hall j hj
        · exact hfinished
      · cases hact
    · obtain ⟨rfl, rfl⟩ := Prod.mk.inj (Option.some.inj hact)
      exact ⟨hinv, hstop, fun j hj => hall j (by omega), hfinals⟩
  | joiningReporter =>
    obtain ⟨hstop, hall, hfinals⟩ := h
    simp only [mainAction] at hact
    split at hact
    · next hreporter =>
      obtain ⟨rfl, rfl⟩ := Prod.mk.inj (Option.some.inj hact)
      exact ⟨hinv, hstop, ⟨hall, hreporter⟩, hfinals⟩
    · cases hact
  | closing =>
    obtain ⟨hstop, hended, hfinals⟩ := h
    obtain ⟨rfl, rfl⟩ := Prod.mk.inj (Option.some.inj hact)
    exact ⟨⟨fun _ => hstop, fun _ => hended⟩, hstop, hended, Nat.zero_le _, hfinals⟩
  | printing n =>
    obtain ⟨hstop, hended, hle, hfinals⟩ := h
    simp only [mainAction] at hact
    split at hact
    · obtain ⟨rfl, rfl⟩ := Prod.mk.inj (Option.some.inj hact)
      refine ⟨⟨fun _ => hstop, fun _ => hended⟩, hstop, hended, by omega, ?_⟩
      rw [List.range_succ, List.map_append, hfinals]
      rfl
    · obtain ⟨rfl, rfl⟩ := Prod.mk.inj (Option.some.inj hact)
      obtain rfl : n = ncpus := by omega
      exact ⟨hinv, hstop, hended, hfinals⟩
  | returned => cases hact

/-- What `main` relies on while others act. -/
structure Undisturbed (ncpus : Nat) (s s' : Shared) : Prop where
  created : s'.created = s.created
  reporterCreated : s'.reporterCreated = s.reporterCreated
  caughtSignal : s'.caughtSignal = s.caughtSignal
  closed : s'.closed = s.closed
  finals : s'.finals = s.finals
  finished : ∀ n, s.finished n = true → s'.finished n = true
  reporterFinished : s.reporterFinished = true → s'.reporterFinished = true
  th : Ended ncpus s → ∀ n < ncpus, s'.th n = s.th n

namespace Undisturbed
variable (h : Undisturbed ncpus s s')
include h

theorem stopping (hstop : Stopping ncpus s) : Stopping ncpus s' :=
  ⟨h.created.trans hstop.1, h.reporterCreated.trans hstop.2.1, h.caughtSignal.trans hstop.2.2⟩

theorem ended (hended : Ended ncpus s) : Ended ncpus s' :=
  ⟨fun n hn => h.finished n (hended.1 n hn), h.reporterFinished hended.2⟩

theorem inv (hinv : Inv ncpus s) : Inv ncpus s' := by
  constructor
  · intro hsignal
    rw [h.caughtSignal] at hsignal
    exact h.stopping (hinv.signalled hsignal)
  · intro hclosed
    rw [h.closed] at hclosed
    exact h.ended (hinv.closed hclosed)

theorem results (hended : Ended ncpus s) {n : Nat} (hn : n ≤ ncpus) :
    (List.range n).map (result s') = (List.range n).map (result s) := by
  refine List.map_congr_left fun m hm => ?_
  have hlt : m < n := List.mem_range.mp hm
  rw [result, result, h.th hended m (by omega)]

theorem mainAt {pc : MainPc} (hmain : MainAt ncpus s pc) : MainAt ncpus s' pc := by
  cases pc with
  | create n =>
    obtain ⟨hcreated, hle, hsignal, hfinals⟩ := hmain
    exact ⟨h.created.trans hcreated, hle, h.caughtSignal.trans hsignal, h.finals.trans hfinals⟩
  | sleeping =>
    obtain ⟨hcreated, hreporter, hfinals⟩ := hmain
    exact ⟨h.created.trans hcreated, h.reporterCreated.trans hreporter, h.finals.trans hfinals⟩
  | joining n =>
    obtain ⟨hstop, hall, hle, hfinals⟩ := hmain
    exact ⟨h.stopping hstop, fun j hj => h.finished j (hall j hj), hle, h.finals.trans hfinals⟩
  | joiningReporter =>
    obtain ⟨hstop, hall, hfinals⟩ := hmain
    exact ⟨h.stopping hstop, fun j hj => h.finished j (hall j hj), h.finals.trans hfinals⟩
  | closing =>
    obtain ⟨hstop, hended, hfinals⟩ := hmain
    exact ⟨h.stopping hstop, h.ended hended, h.finals.trans hfinals⟩
  | printing n =>
    obtain ⟨hstop, hended, hle, hfinals⟩ := hmain
    exact ⟨h.stopping hstop, h.ended hended, hle,
      h.finals.trans (hfinals.trans (h.results hended hle).symm)⟩
  | returned =>
    obtain ⟨hstop, hended, hfinals⟩ := hmain
    exact ⟨h.stopping hstop, h.ended hended,
      h.finals.trans (hfinals.trans (h.results hended (Nat.le_refl _)).symm)⟩

end Undisturbed

/-- A worker touches its own `bench_thread` and its own end, and nothing else. -/
structure WorkerStep (n : Nat) (s s' : Shared) : Prop where
  created : s'.created = s.created
  reporterCreated : s'.reporterCreated = s.reporterCreated
  caughtSignal : s'.caughtSignal = s.caughtSignal
  closed : s'.closed = s.closed
  finals : s'.finals = s.finals
  interims : s'.interims = s.interims
  reporterFinished : s'.reporterFinished = s.reporterFinished
  finished : ∀ m, m ≠ n → s'.finished m = s.finished m
  th : ∀ m, m ≠ n → s'.th m = s.th m

theorem worker_step {n : Nat} {pc pc' : WorkerPc}
    (hact : workerAction p ncpus rand n s poll pc = some (s', pc')) :
    WorkerStep n s s' ∧ pc ≠ .done ∧ (s.finished n = true → s'.finished n = true) := by
  cases pc with
  | waiting =>
    simp only [workerAction] at hact
    split at hact
    · obtain ⟨rfl, rfl⟩ := Prod.mk.inj (Option.some.inj hact)
      refine ⟨⟨rfl, rfl, rfl, rfl, rfl, rfl, rfl, fun _ _ => rfl, fun m hm => ?_⟩, by simp, id⟩
      exact Function.update_of_ne hm _ _
    · cases hact
  | check =>
    simp only [workerAction] at hact
    split at hact
    · obtain ⟨rfl, rfl⟩ := Prod.mk.inj (Option.some.inj hact)
      refine ⟨⟨rfl, rfl, rfl, rfl, rfl, rfl, rfl, fun m hm => ?_, fun _ _ => rfl⟩, by simp, ?_⟩
      · exact Function.update_of_ne hm _ _
      · exact fun _ => Function.update_self ..
    · obtain ⟨rfl, rfl⟩ := Prod.mk.inj (Option.some.inj hact)
      exact ⟨⟨rfl, rfl, rfl, rfl, rfl, rfl, rfl, fun _ _ => rfl, fun _ _ => rfl⟩, by simp, id⟩
  | submitting b | polling b =>
    simp only [workerAction] at hact
    split at hact
    · obtain ⟨rfl, rfl⟩ := Prod.mk.inj (Option.some.inj hact)
      refine ⟨⟨rfl, rfl, rfl, rfl, rfl, rfl, rfl, fun _ _ => rfl, fun m hm => ?_⟩, by simp, id⟩
      exact Function.update_of_ne hm _ _
    · obtain ⟨rfl, rfl⟩ := Prod.mk.inj (Option.some.inj hact)
      exact ⟨⟨rfl, rfl, rfl, rfl, rfl, rfl, rfl, fun _ _ => rfl, fun _ _ => rfl⟩, by simp, id⟩
  | addingBytes b | addingCount b =>
    obtain ⟨rfl, rfl⟩ := Prod.mk.inj (Option.some.inj hact)
    refine ⟨⟨rfl, rfl, rfl, rfl, rfl, rfl, rfl, fun _ _ => rfl, fun m hm => ?_⟩, by simp, id⟩
    exact Function.update_of_ne hm _ _
  | done => cases hact

/-- The variables of a worker after its step. -/
theorem worker_at {n : Nat} {pc pc' : WorkerPc}
    (hact : workerAction p ncpus rand n s poll pc = some (s', pc'))
    (h : WorkerAt p n (rand n) (threadSlba ncpus n) (s.th n) pc) :
    WorkerAt p n (rand n) (threadSlba ncpus n) (s'.th n) pc' := by
  cases pc with
  | waiting =>
    simp only [workerAction] at hact
    split at hact
    · obtain ⟨rfl, rfl⟩ := Prod.mk.inj (Option.some.inj hact)
      exact ⟨[], Function.update_self ..⟩
    · cases hact
  | check =>
    simp only [workerAction] at hact
    split at hact
    · obtain ⟨rfl, rfl⟩ := Prod.mk.inj (Option.some.inj hact)
      exact h
    · obtain ⟨rfl, rfl⟩ := Prod.mk.inj (Option.some.inj hact)
      obtain ⟨rounds, hrounds⟩ := h
      exact ⟨rounds, Nat.zero_le _, hrounds⟩
  | submitting b =>
    simp only [workerAction] at hact
    split at hact
    · next hb =>
      obtain ⟨rfl, rfl⟩ := Prod.mk.inj (Option.some.inj hact)
      simp only [Shared.setTh, Function.update_self]
      exact submitting_next h hb
    · next hb =>
      obtain ⟨rfl, rfl⟩ := Prod.mk.inj (Option.some.inj hact)
      exact submitting_last h hb
  | polling b =>
    simp only [workerAction] at hact
    split at hact
    · next hb =>
      obtain ⟨rfl, rfl⟩ := Prod.mk.inj (Option.some.inj hact)
      simp only [Shared.setTh, Function.update_self]
      exact polling_next h hb poll
    · next hb =>
      obtain ⟨rfl, rfl⟩ := Prod.mk.inj (Option.some.inj hact)
      exact polling_last h hb
  | addingBytes b =>
    obtain ⟨rfl, rfl⟩ := Prod.mk.inj (Option.some.inj hact)
    simp only [Shared.setTh, Function.update_self]
    exact addingBytes_next h
  | addingCount b =>
    obtain ⟨rfl, rfl⟩ := Prod.mk.inj (Option.some.inj hact)
    simp only [Shared.setTh, Function.update_self]
    exact addingCount_next h
  | done => cases hact

/-- A worker is waited for until its last step. -/
theorem worker_finished {n : Nat} {pc pc' : WorkerPc}
    (hact : workerAction p ncpus rand n s poll pc = some (s', pc'))
    (h : s.finished n = true ↔ pc = .done) : s'.finished n = true ↔ pc' = .done := by
  have hrunning : ¬ s.finished n = true := fun hdone => (worker_step hact).2.1 (h.mp hdone)
  cases pc with
  | done => cases hact
  | check =>
    simp only [workerAction] at hact
    split at hact
    · obtain ⟨rfl, rfl⟩ := Prod.mk.inj (Option.some.inj hact)
      simp
    · obtain ⟨rfl, rfl⟩ := Prod.mk.inj (Option.some.inj hact)
      simpa using hrunning
  | waiting =>
    simp only [workerAction] at hact
    split at hact
    · obtain ⟨rfl, rfl⟩ := Prod.mk.inj (Option.some.inj hact)
      simpa [Shared.setTh] using hrunning
    · cases hact
  | submitting b =>
    simp only [workerAction] at hact
    split at hact
    all_goals
      obtain ⟨rfl, rfl⟩ := Prod.mk.inj (Option.some.inj hact)
      simpa [Shared.setTh] using hrunning
  | polling b =>
    simp only [workerAction] at hact
    split at hact
    · obtain ⟨rfl, rfl⟩ := Prod.mk.inj (Option.some.inj hact)
      have hgoes : (if poll = 0 then WorkerPc.addingBytes b else .polling (b + 1)) ≠ .done := by
        split <;> exact fun h => nomatch h
      simpa [Shared.setTh, hgoes] using hrunning
    · obtain ⟨rfl, rfl⟩ := Prod.mk.inj (Option.some.inj hact)
      simpa using hrunning
  | addingBytes b | addingCount b =>
    obtain ⟨rfl, rfl⟩ := Prod.mk.inj (Option.some.inj hact)
    simpa [Shared.setTh] using hrunning

/-- The reporter changes what it prints and whether it has ended. -/
theorem reporter_step {pc pc' : ReporterPc} (hact : reporterAction ncpus s pc = some (s', pc'))
    (h : s.reporterFinished = true ↔ pc = .done) :
    Undisturbed ncpus s s' ∧ s'.th = s.th ∧ s'.finished = s.finished ∧
      (s'.reporterFinished = true ↔ pc' = .done) := by
  have hsame : Undisturbed ncpus s s :=
    ⟨rfl, rfl, rfl, rfl, rfl, fun _ => id, id, fun _ _ _ => rfl⟩
  have hrunning : pc ≠ .done → ¬ s.reporterFinished = true := fun hpc hdone => hpc (h.mp hdone)
  cases pc with
  | done => cases hact
  | check =>
    simp only [reporterAction] at hact
    split at hact
    · obtain ⟨rfl, rfl⟩ := Prod.mk.inj (Option.some.inj hact)
      exact ⟨⟨rfl, rfl, rfl, rfl, rfl, fun _ => id, fun _ => rfl, fun _ _ _ => rfl⟩, rfl, rfl,
        by simp⟩
    · obtain ⟨rfl, rfl⟩ := Prod.mk.inj (Option.some.inj hact)
      exact ⟨hsame, rfl, rfl, by simpa using hrunning⟩
  | waiting =>
    simp only [reporterAction] at hact
    split at hact
    · obtain ⟨rfl, rfl⟩ := Prod.mk.inj (Option.some.inj hact)
      exact ⟨hsame, rfl, rfl, by simpa using hrunning⟩
    · cases hact
  | first n next countStart bytesStart =>
    cases next with
    | count =>
      simp only [reporterAction] at hact
      split at hact
      all_goals
        obtain ⟨rfl, rfl⟩ := Prod.mk.inj (Option.some.inj hact)
        exact ⟨hsame, rfl, rfl, by simpa using hrunning⟩
    | bytes =>
      obtain ⟨rfl, rfl⟩ := Prod.mk.inj (Option.some.inj hact)
      exact ⟨hsame, rfl, rfl, by simpa using hrunning⟩
  | second n next countStart bytesStart count bytes =>
    cases next with
    | count =>
      simp only [reporterAction] at hact
      split at hact
      · obtain ⟨rfl, rfl⟩ := Prod.mk.inj (Option.some.inj hact)
        exact ⟨hsame, rfl, rfl, by simpa using hrunning⟩
      · obtain ⟨rfl, rfl⟩ := Prod.mk.inj (Option.some.inj hact)
        exact ⟨⟨rfl, rfl, rfl, rfl, rfl, fun _ => id, id, fun _ _ _ => rfl⟩, rfl, rfl,
          by simpa using hrunning⟩
    | bytes =>
      obtain ⟨rfl, rfl⟩ := Prod.mk.inj (Option.some.inj hact)
      exact ⟨hsame, rfl, rfl, by simpa using hrunning⟩

/-- `main` leaves to the others what is theirs, and takes no flag back. -/
structure MainStep (s s' : Shared) : Prop where
  th : s'.th = s.th
  finished : s'.finished = s.finished
  reporterFinished : s'.reporterFinished = s.reporterFinished
  caughtSignal : s.caughtSignal = true → s'.caughtSignal = true
  closed : s.closed = true → s'.closed = true

theorem main_step {pc pc' : MainPc} (hact : mainAction ncpus s pc = some (s', pc')) :
    MainStep s s' := by
  cases pc with
  | returned => cases hact
  | sleeping =>
    obtain ⟨rfl, rfl⟩ := Prod.mk.inj (Option.some.inj hact)
    exact ⟨rfl, rfl, rfl, fun _ => rfl, id⟩
  | closing =>
    obtain ⟨rfl, rfl⟩ := Prod.mk.inj (Option.some.inj hact)
    exact ⟨rfl, rfl, rfl, id, fun _ => rfl⟩
  | create n | printing n =>
    simp only [mainAction] at hact
    split at hact
    all_goals
      obtain ⟨rfl, rfl⟩ := Prod.mk.inj (Option.some.inj hact)
      exact ⟨rfl, rfl, rfl, id, id⟩
  | joiningReporter =>
    simp only [mainAction] at hact
    split at hact
    · obtain ⟨rfl, rfl⟩ := Prod.mk.inj (Option.some.inj hact)
      exact ⟨rfl, rfl, rfl, id, id⟩
    · cases hact
  | joining n =>
    simp only [mainAction] at hact
    split at hact
    · split at hact
      · obtain ⟨rfl, rfl⟩ := Prod.mk.inj (Option.some.inj hact)
        exact ⟨rfl, rfl, rfl, id, id⟩
      · cases hact
    · obtain ⟨rfl, rfl⟩ := Prod.mk.inj (Option.some.inj hact)
      exact ⟨rfl, rfl, rfl, id, id⟩

/-- While a worker still runs, `main` is not disturbed by it. -/
theorem WorkerStep.undisturbed {n : Nat} (h : WorkerStep n s s')
    (hown : s.finished n = true → s'.finished n = true) (hn : n < ncpus)
    (hrunning : ¬ s.finished n = true) : Undisturbed ncpus s s' where
  created := h.created
  reporterCreated := h.reporterCreated
  caughtSignal := h.caughtSignal
  closed := h.closed
  finals := h.finals
  finished m hm := by
    by_cases hmn : m = n
    · subst hmn
      exact hown hm
    · rw [h.finished m hmn]
      exact hm
  reporterFinished hr := h.reporterFinished.trans hr
  th hended := absurd (hended.1 n hn) hrunning

end Actions

/-! ## Every interleaving -/

section Runs
variable {i j : Nat} {s s' : Shared} {l l' m : BenchThread} {poll : Int}

/-- A thread that acts keeps what it needs. -/
theorem action_keeps (hact : benchAction p ncpus rand i s l poll = some (s', l'))
    (hinv : Inv ncpus s) (hok : Ok p ncpus rand i s l) :
    Inv ncpus s' ∧ Ok p ncpus rand i s' l' := by
  cases l with
  | main pc =>
    obtain ⟨⟨t, pc'⟩, hmain, hnext⟩ := Option.map_eq_some_iff.mp hact
    obtain ⟨rfl, rfl⟩ := Prod.mk.inj hnext
    obtain ⟨hi, hat⟩ := hok
    obtain ⟨hinv', hat'⟩ := main_keeps hmain hinv hat
    exact ⟨hinv', hi, hat'⟩
  | worker pc =>
    obtain ⟨⟨t, pc'⟩, hworker, hnext⟩ := Option.map_eq_some_iff.mp hact
    obtain ⟨rfl, rfl⟩ := Prod.mk.inj hnext
    obtain ⟨hi, hfinished, hat⟩ := hok
    obtain ⟨hstep, hpc, hown⟩ := worker_step hworker
    have hrunning : ¬ s.finished (i - 1) = true := fun hdone => hpc (hfinished.mp hdone)
    refine ⟨(hstep.undisturbed hown (by omega) hrunning).inv hinv, hi, ?_, ?_⟩
    · exact worker_finished hworker hfinished
    · exact worker_at hworker hat
  | reporter pc =>
    obtain ⟨⟨t, pc'⟩, hreporter, hnext⟩ := Option.map_eq_some_iff.mp hact
    obtain ⟨rfl, rfl⟩ := Prod.mk.inj hnext
    obtain ⟨hi, hfinished⟩ := hok
    obtain ⟨hrest, -, -, hfinished'⟩ := reporter_step hreporter hfinished
    exact ⟨hrest.inv hinv, hi, hfinished'⟩

/-- A thread that acts disturbs no other. -/
theorem action_frame (hji : j ≠ i) (hact : benchAction p ncpus rand i s l poll = some (s', l'))
    (hok : Ok p ncpus rand i s l) (hother : Ok p ncpus rand j s m) :
    Ok p ncpus rand j s' m := by
  cases l with
  | main pc =>
    obtain ⟨⟨t, pc'⟩, hmain, hnext⟩ := Option.map_eq_some_iff.mp hact
    obtain ⟨rfl, rfl⟩ := Prod.mk.inj hnext
    obtain ⟨hth, hfinished, hreporter, -, -⟩ := main_step hmain
    cases m with
    | main pc => exact absurd (hother.1.trans hok.1.symm) hji
    | worker pc =>
      simp only [Ok, hth, hfinished]
      exact hother
    | reporter pc =>
      simp only [Ok, hreporter]
      exact hother
  | worker pc =>
    obtain ⟨⟨t, pc'⟩, hworker, hnext⟩ := Option.map_eq_some_iff.mp hact
    obtain ⟨rfl, rfl⟩ := Prod.mk.inj hnext
    obtain ⟨hi, hfinished, hat⟩ := hok
    obtain ⟨hstep, hpc, hown⟩ := worker_step hworker
    have hrunning : ¬ s.finished (i - 1) = true := fun hdone => hpc (hfinished.mp hdone)
    cases m with
    | main pc => exact ⟨hother.1, (hstep.undisturbed hown (by omega) hrunning).mainAt hother.2⟩
    | worker pc =>
      have hne : j - 1 ≠ i - 1 := by
        have hj := hother.1
        omega
      simp only [Ok, hstep.th (j - 1) hne, hstep.finished (j - 1) hne]
      exact hother
    | reporter pc =>
      simp only [Ok, hstep.reporterFinished]
      exact hother
  | reporter pc =>
    obtain ⟨⟨t, pc'⟩, hreporter, hnext⟩ := Option.map_eq_some_iff.mp hact
    obtain ⟨rfl, rfl⟩ := Prod.mk.inj hnext
    obtain ⟨hrest, hth, hfinished, -⟩ := reporter_step hreporter hok.2
    cases m with
    | main pc => exact ⟨hother.1, hrest.mainAt hother.2⟩
    | worker pc =>
      simp only [Ok, hth, hfinished]
      exact hother
    | reporter pc => exact absurd (hother.1.trans hok.1.symm) hji

/-- No thread touches the `bench_thread` of another. -/
theorem others_kept (hact : benchAction p ncpus rand i s l poll = some (s', l'))
    (hok : Ok p ncpus rand i s l) {n : Nat} (hn : n + 1 ≠ i) : s'.th n = s.th n := by
  cases l with
  | main pc =>
    obtain ⟨⟨t, pc'⟩, hmain, hnext⟩ := Option.map_eq_some_iff.mp hact
    obtain ⟨rfl, rfl⟩ := Prod.mk.inj hnext
    rw [(main_step hmain).th]
  | worker pc =>
    obtain ⟨⟨t, pc'⟩, hworker, hnext⟩ := Option.map_eq_some_iff.mp hact
    obtain ⟨rfl, rfl⟩ := Prod.mk.inj hnext
    have hi := hok.1
    exact (worker_step hworker).1.th n (by omega)
  | reporter pc =>
    obtain ⟨⟨t, pc'⟩, hreporter, hnext⟩ := Option.map_eq_some_iff.mp hact
    obtain ⟨rfl, rfl⟩ := Prod.mk.inj hnext
    rw [(reporter_step hreporter hok.2).2.1]

/-- No thread takes a flag back. -/
theorem flags_kept (hact : benchAction p ncpus rand i s l poll = some (s', l'))
    (hok : Ok p ncpus rand i s l) :
    (s.caughtSignal = true → s'.caughtSignal = true) ∧ (s.closed = true → s'.closed = true) := by
  cases l with
  | main pc =>
    obtain ⟨⟨t, pc'⟩, hmain, hnext⟩ := Option.map_eq_some_iff.mp hact
    obtain ⟨rfl, rfl⟩ := Prod.mk.inj hnext
    exact ⟨(main_step hmain).caughtSignal, (main_step hmain).closed⟩
  | worker pc =>
    obtain ⟨⟨t, pc'⟩, hworker, hnext⟩ := Option.map_eq_some_iff.mp hact
    obtain ⟨rfl, rfl⟩ := Prod.mk.inj hnext
    have hstep := (worker_step hworker).1
    exact ⟨hstep.caughtSignal.trans, hstep.closed.trans⟩
  | reporter pc =>
    obtain ⟨⟨t, pc'⟩, hreporter, hnext⟩ := Option.map_eq_some_iff.mp hact
    obtain ⟨rfl, rfl⟩ := Prod.mk.inj hnext
    have hrest := (reporter_step hreporter hok.2).1
    exact ⟨hrest.caughtSignal.trans, hrest.closed.trans⟩

/-- The start is in order. -/
theorem started_holds : Holds (Inv ncpus) (Ok p ncpus rand) (started ncpus) := by
  refine ⟨⟨fun h => ?_, fun h => ?_⟩, fun i l hl => ?_⟩
  · exact absurd h Bool.false_ne_true
  · exact absurd h Bool.false_ne_true
  · cases i with
    | zero =>
      obtain rfl := Option.some.inj hl
      exact ⟨rfl, rfl, Nat.zero_le _, rfl, rfl⟩
    | succ i =>
      rw [started, List.cons_append, List.getElem?_cons_succ, List.getElem?_append] at hl
      split at hl
      · next hlt =>
        rw [List.length_replicate] at hlt
        rw [List.getElem?_replicate, if_pos hlt] at hl
        obtain rfl := Option.some.inj hl
        exact ⟨⟨Nat.succ_pos i, hlt⟩, by simp [started], rfl⟩
      · next hge =>
        rw [List.length_replicate] at hge hl
        have hlt : i - ncpus < 1 := (List.getElem?_eq_some_iff.mp hl).1
        obtain rfl := List.mem_singleton.mp (List.mem_of_getElem? hl)
        exact ⟨by omega, by simp [started]⟩

/-- From anywhere where all is in order, all stays in order. -/
theorem bench_keeps {sys out : System Shared BenchThread} {labels : List (Label Empty Int)}
    (h : Holds (Inv ncpus) (Ok p ncpus rand) sys)
    (hrun : (bench p ncpus rand).run sys labels = some out) :
    Holds (Inv ncpus) (Ok p ncpus rand) out :=
  run_keeps (fun program => program.elim) (fun _ _ _ _ _ _ _ hact => action_keeps hact)
    (fun _ _ _ _ _ _ _ _ _ hji hact _ => action_frame hji hact) h hrun

theorem bench_holds {out : System Shared BenchThread} {labels : List (Label Empty Int)}
    (hrun : (bench p ncpus rand).run (started ncpus) labels = some out) :
    Holds (Inv ncpus) (Ok p ncpus rand) out := bench_keeps started_holds hrun

end Runs

end Nvpkt.Guarantees.BenchThreads
