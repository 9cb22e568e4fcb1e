import Mathlib.Data.List.Induction
import Nvpkt.Guarantees.BenchLba
import Nvpkt.Guarantees.BenchThreads

/-!
# What the workers of `bench-nvme` do to the device

Whatever the threads do in between, what holds of a `bench_start` on its own holds of a
worker (`worker_rule`). So every I/O of every worker is inside the device
(`workers_inside`), and workers that walk in place never touch each other's blocks
(`same_walk_apart`). What a worker submits is the beginning of a stream that the options
and its own random values determine (`worker_stream`).
-/

set_option autoImplicit false

namespace Nvpkt.Guarantees.BenchDevice
open Nvpkt.Library.FixedWidth Nvpkt.Library.Interleaving
open Nvpkt.Source.BenchNvme Nvpkt.Source.BenchMain
open Nvpkt.Guarantees.BenchLba Nvpkt.Guarantees.BenchThreads

variable {p : BenchParam} {ncpus : Nat} {rand : Nat → Nat → Nat}
  {out : System Shared BenchThread} {labels : List (Label Empty Int)}

/-! ## The threads by their numbers -/

theorem threads_length (hrun : (bench p ncpus rand).run (started ncpus) labels = some out) :
    out.threads.length = ncpus + 2 := by
  have hspawned : spawned labels = [] := List.eq_nil_iff_forall_not_mem.mpr fun q => q.elim
  rw [run_length hrun, hspawned]
  simp [started]

theorem thread_ok (hrun : (bench p ncpus rand).run (started ncpus) labels = some out) {i : Nat}
    (hi : i < ncpus + 2) :
    ∃ l, out.threads[i]? = some l ∧ Ok p ncpus rand i out.shared l := by
  have hlt : i < out.threads.length := by rwa [threads_length hrun]
  have hl := List.getElem?_eq_getElem hlt
  exact ⟨_, hl, (bench_holds hrun).threads i _ hl⟩

theorem main_ok (hrun : (bench p ncpus rand).run (started ncpus) labels = some out) :
    ∃ pc, out.threads[0]? = some (.main pc) ∧ MainAt ncpus out.shared pc := by
  obtain ⟨l, hl, hok⟩ := thread_ok hrun (Nat.succ_pos (ncpus + 1))
  cases l with
  | main pc => exact ⟨pc, hl, hok.2⟩
  | worker pc => exact absurd hok.1.1 (Nat.lt_irrefl 0)
  | reporter pc => exact absurd hok.1.symm (Nat.succ_ne_zero ncpus)

theorem worker_ok (hrun : (bench p ncpus rand).run (started ncpus) labels = some out) {n : Nat}
    (hn : n < ncpus) :
    ∃ pc, out.threads[n + 1]? = some (.worker pc) ∧
      (out.shared.finished n = true ↔ pc = .done) ∧
      WorkerAt p n (rand n) (threadSlba ncpus n) (out.shared.th n) pc := by
  obtain ⟨l, hl, hok⟩ := thread_ok hrun (i := n + 1) (by omega)
  cases l with
  | main pc => exact absurd hok.1 (Nat.succ_ne_zero n)
  | worker pc => exact ⟨pc, hl, hok.2⟩
  | reporter pc =>
    have hi := hok.1
    omega

theorem reporter_ok (hrun : (bench p ncpus rand).run (started ncpus) labels = some out) :
    ∃ pc, out.threads[ncpus + 1]? = some (.reporter pc) ∧
      (out.shared.reporterFinished = true ↔ pc = .done) := by
  obtain ⟨l, hl, hok⟩ := thread_ok hrun (i := ncpus + 1) (by omega)
  cases l with
  | main pc => exact absurd hok.1 (Nat.succ_ne_zero ncpus)
  | worker pc => exact absurd hok.1.2 (Nat.not_succ_le_self ncpus)
  | reporter pc => exact ⟨pc, hl, hok.2⟩

/-! ## A rule for workers -/

/-- Where a thread is on its walk and what it has submitted are the same. -/
structure SameWalk (th th' : Thread) : Prop where
  lba : th'.lba = th.lba
  calls : th'.calls = th.calls
  submitted : th'.device.submitted = th.device.submitted

section Rule
variable {qid slba : Nat} {rnd : Nat → Nat} {th th' : Thread} {Q : Thread → Prop}

theorem SameWalk.trans {th'' : Thread} (h : SameWalk th th') (h' : SameWalk th' th'') :
    SameWalk th th'' :=
  ⟨h'.lba.trans h.lba, h'.calls.trans h.calls, h'.submitted.trans h.submitted⟩

theorem apollIo_walk (ret : Int) (th : Thread) (b : Nat) : SameWalk th (apollIo ret th b) := by
  refine ⟨rfl, rfl, ?_⟩
  simp only [apollIo, Device.apoll]
  split <;> rfl

theorem addBytes_walk (p : BenchParam) (th : Thread) : SameWalk th (addBytes p th) :=
  ⟨rfl, rfl, rfl⟩

/-- The polls of a batch leave the walk alone. -/
theorem pollLoop_walk (p : BenchParam) (polls : Nat → Int) (th : Thread) (b : Nat) :
    SameWalk th (pollLoop p polls th b) := by
  induction b with
  | zero => exact ⟨rfl, rfl, rfl⟩
  | succ b ih =>
    rw [pollLoop_succ, pollIo_steps]
    have hpoll := ih.trans (apollIo_walk (polls b) _ b)
    split
    · exact ⟨hpoll.lba, hpoll.calls, hpoll.submitted⟩
    · exact hpoll

/-- A worker that has begun has submitted some I/Os of its last round. -/
theorem WorkerAt.walk {pc : WorkerPc} (h : WorkerAt p qid rnd slba th pc) :
    th = zeroThread ∨ ∃ rounds b, b ≤ p.batch ∧
      SameWalk (submitLoop p qid rnd (benchStart p qid rnd slba rounds) b) th := by
  cases pc with
  | waiting => exact .inl h
  | check | done =>
    obtain ⟨rounds, rfl⟩ := h
    exact .inr ⟨rounds, 0, Nat.zero_le _, rfl, rfl, rfl⟩
  | submitting b =>
    obtain ⟨rounds, hb, rfl⟩ := h
    exact .inr ⟨rounds, b, hb, rfl, rfl, rfl⟩
  | polling b =>
    obtain ⟨rounds, polls, -, rfl⟩ := h
    exact .inr ⟨rounds, p.batch, Nat.le_refl _, pollLoop_walk p polls _ b⟩
  | addingBytes b =>
    obtain ⟨rounds, polls, -, rfl⟩ := h
    exact .inr ⟨rounds, p.batch, Nat.le_refl _,
      (pollLoop_walk p polls _ b).trans (apollIo_walk 0 _ b)⟩
  | addingCount b =>
    obtain ⟨rounds, polls, -, rfl⟩ := h
    exact .inr ⟨rounds, p.batch, Nat.le_refl _,
      ((pollLoop_walk p polls _ b).trans (apollIo_walk 0 _ b)).trans (addBytes_walk p _)⟩

/-- What the start establishes and every submission keeps holds of a worker that has begun,
where it is about the walk. -/
theorem worker_rule {pc : WorkerPc} (hinit : Q (benchInit p rnd slba))
    (hsubmit : ∀ th b, Q th → Q (submitIo p qid rnd th b))
    (hwalk : ∀ th th', SameWalk th th' → Q th → Q th')
    (h : WorkerAt p qid rnd slba th pc) : th = zeroThread ∨ Q th := by
  have hsubmits : ∀ th b, Q th → Q (submitLoop p qid rnd th b) := fun th b hth =>
    List.foldlRecOn _ _ hth fun th hth b _ => hsubmit th b hth
  have hrounds : ∀ rounds, Q (benchStart p qid rnd slba rounds) := fun rounds =>
    List.foldlRecOn _ _ hinit fun th hth polls _ =>
      hwalk _ _ (pollLoop_walk p polls _ _) (hsubmits th _ hth)
  rcases WorkerAt.walk h with hzero | ⟨rounds, b, -, hsame⟩
  · exact .inl hzero
  · exact .inr (hwalk _ _ hsame (hsubmits _ b (hrounds rounds)))

end Rule

/-! ## Inside the device -/

theorem benchInit_inside (hcpus : ncpus ≤ maxCpuNum) {n : Nat} (hn : n < ncpus)
    (rnd : Nat → Nat) : Inside p (benchInit p rnd (threadSlba ncpus n)) := by
  constructor
  · exact nextLba_inside _ (threadSlba_inside hcpus hn)
  · exact fun io hio => absurd hio List.not_mem_nil

theorem Inside.of_walk {th th' : Thread} (hsame : SameWalk th th') (h : Inside p th) :
    Inside p th' := by
  constructor
  · exact hsame.lba ▸ h.next
  · exact hsame.submitted ▸ h.submitted

/-- In every interleaving of `main`, the workers and the reporter, the variables of a
worker are those of `bench_start` at its place, and every I/O it has submitted so far
transfers `nblocks` blocks and ends inside the device. -/
theorem workers_inside (p : BenchParam) (ncpus : Nat) (rand : Nat → Nat → Nat)
    (labels : List (Label Empty Int)) (out : System Shared BenchThread)
    (hcpus : ncpus ≤ maxCpuNum)
    (hrun : (bench p ncpus rand).run (started ncpus) labels = some out) :
    ∀ n < ncpus,
      (∃ pc, out.threads[n + 1]? = some (.worker pc) ∧
        WorkerAt p n (rand n) (threadSlba ncpus n) (out.shared.th n) pc) ∧
      ∀ io ∈ (out.shared.th n).device.submitted,
        io.nblocks = p.nblocks ∧ io.lba + io.nblocks ≤ blockEnd := by
  intro n hn
  obtain ⟨pc, hpc, -, hat⟩ := worker_ok hrun hn
  refine ⟨⟨pc, hpc, hat⟩, fun io hio => ?_⟩
  rcases worker_rule (benchInit_inside hcpus hn (rand n)) (fun _ _ => submitIo_inside)
    (fun _ _ => Inside.of_walk) hat with hzero | hinside
  · rw [hzero] at hio
    exact absurd hio List.not_mem_nil
  · obtain ⟨hsize, hio⟩ := hinside.submitted io hio
    rw [hsize]
    exact ⟨rfl, hio⟩

/-- Two reads in a row of one worker. -/
def twoReads : BenchParam :=
  { mode := .read, walk := .same, size := 1024, batch := 1, size_lt := by decide }

/-- Both workers are created, and each submits an I/O before the other polls. -/
def interleaved : List (Label Empty Int) :=
  [.act 0 0, .act 1 0, .act 1 0, .act 0 0, .act 2 0, .act 2 0, .act 1 0, .act 2 0, .act 1 0,
    .act 1 0]

theorem workers_inside_two : ∃ out,
    (bench twoReads 2 fun _ _ => 0).run (started 2) interleaved = some out ∧
    ∀ n < 2,
      (∃ pc, out.threads[n + 1]? = some (.worker pc) ∧
        WorkerAt twoReads n (fun _ => 0) (threadSlba 2 n) (out.shared.th n) pc) ∧
      ∀ io ∈ (out.shared.th n).device.submitted,
        io.nblocks = twoReads.nblocks ∧ io.lba + io.nblocks ≤ blockEnd :=
  ⟨_, rfl, workers_inside twoReads 2 (fun _ _ => 0) interleaved _ (by decide) rfl⟩

/-! ## Walking in place -/

/-- The I/Os of a thread are all at one place. -/
structure Stays (p : BenchParam) (slba : Nat) (th : Thread) : Prop where
  next : th.lba = slba
  submitted : ∀ io ∈ th.device.submitted, io.nblocks = p.nblocks ∧ io.lba = slba

section Same
variable {slba qid b : Nat} {rnd : Nat → Nat} {th : Thread}

theorem submitIo_stays (hsame : p.walk = .same) (h : Stays p slba th) :
    Stays p slba (submitIo p qid rnd th b) := by
  constructor
  · simp only [submitIo, hsame, nextLba]
    exact h.next
  · intro io hio
    rcases List.mem_append.mp hio with hold | hnew
    · exact h.submitted io hold
    · obtain rfl := List.mem_singleton.mp hnew
      have hn := nblocks_le p
      exact ⟨wrap_of_lt (by omega), h.next⟩

theorem Stays.of_walk {th' : Thread} (hsame : SameWalk th th') (h : Stays p slba th) :
    Stays p slba th' := by
  constructor
  · exact hsame.lba.trans h.next
  · exact hsame.submitted ▸ h.submitted

theorem benchInit_stays (hsame : p.walk = .same) : Stays p slba (benchInit p rnd slba) := by
  constructor
  · simp only [benchInit, hsame, nextLba]
  · exact fun io hio => absurd hio List.not_mem_nil

end Same

/-- An I/O is no larger than the share of a thread. -/
theorem nblocks_le_share (hcpus : ncpus ≤ maxCpuNum) (hpos : 0 < ncpus) :
    p.nblocks ≤ blockEnd / ncpus := by
  have hmin : blockEnd / maxCpuNum ≤ blockEnd / ncpus := Nat.div_le_div_left hcpus hpos
  have hlarge : 4194304 ≤ blockEnd / maxCpuNum := by decide
  have hblocks := nblocks_le p
  omega

/-- A whole I/O fits between two start addresses. -/
theorem threadSlba_apart (hcpus : ncpus ≤ maxCpuNum) {n m : Nat} (hnm : n < m) (hm : m < ncpus) :
    threadSlba ncpus n + p.nblocks ≤ threadSlba ncpus m := by
  have hshare : p.nblocks ≤ blockEnd / ncpus := nblocks_le_share hcpus (by omega)
  rw [threadSlba, threadSlba, wrap_of_lt (slba_lt (by omega)), wrap_of_lt (slba_lt hm)]
  calc blockEnd / ncpus * n + p.nblocks ≤ blockEnd / ncpus * (n + 1) := by
        rw [Nat.mul_succ]
        omega
    _ ≤ blockEnd / ncpus * m := Nat.mul_le_mul_left _ hnm

/-- Workers that walk in place never touch each other's blocks, in any interleaving. -/
theorem same_walk_apart (p : BenchParam) (ncpus : Nat) (rand : Nat → Nat → Nat)
    (labels : List (Label Empty Int)) (out : System Shared BenchThread) (n m : Nat)
    (hcpus : ncpus ≤ maxCpuNum) (hsame : p.walk = .same) (hnm : n < m) (hm : m < ncpus)
    (hrun : (bench p ncpus rand).run (started ncpus) labels = some out) :
    ∀ io ∈ (out.shared.th n).device.submitted, ∀ io' ∈ (out.shared.th m).device.submitted,
      io.lba + io.nblocks ≤ io'.lba := by
  intro io hio io' hio'
  have hplace : ∀ k < ncpus, ∀ o ∈ (out.shared.th k).device.submitted,
      o.nblocks = p.nblocks ∧ o.lba = threadSlba ncpus k := by
    intro k hk o ho
    obtain ⟨pc, -, -, hat⟩ := worker_ok hrun hk
    rcases worker_rule (benchInit_stays hsame) (fun _ _ => submitIo_stays hsame)
      (fun _ _ => Stays.of_walk) hat with hzero | hstays
    · rw [hzero] at ho
      exact absurd ho List.not_mem_nil
    · exact hstays.submitted o ho
  obtain ⟨hsize, hlba⟩ := hplace n (by omega) io hio
  rw [hsize, hlba, (hplace m hm io' hio').2]
  exact threadSlba_apart hcpus hnm hm

theorem same_walk_apart_two : ∃ out,
    (bench twoReads 2 fun _ _ => 0).run (started 2) interleaved = some out ∧
    ∀ io ∈ (out.shared.th 0).device.submitted, ∀ io' ∈ (out.shared.th 1).device.submitted,
      io.lba + io.nblocks ≤ io'.lba :=
  ⟨_, rfl, same_walk_apart twoReads 2 (fun _ _ => 0) interleaved _ 0 1 (by decide) rfl
    (by decide) (by decide) rfl⟩

/-! ## What is submitted -/

/-- Where `next_lba` leads in `k` calls. -/
def lbaAt (p : BenchParam) (rnd : Nat → Nat) (slba : Nat) : Nat → Nat
  | 0 => slba
  | k + 1 => nextLba p.walk (rnd k) (lbaAt p rnd slba k) blockEnd p.nblocks

/-- The I/O that a thread submits after `k` others. -/
def ioAt (p : BenchParam) (qid : Nat) (rnd : Nat → Nat) (slba k : Nat) : Io :=
  { id := k, mode := p.mode, qid := qid, buf := k % p.batch, lba := lbaAt p rnd slba (k + 1)
    nblocks := p.nblocks }

/-- The first `k` I/Os of the stream are submitted. -/
structure Streamed (p : BenchParam) (qid : Nat) (rnd : Nat → Nat) (slba k : Nat) (th : Thread) :
    Prop where
  submitted : th.device.submitted = (List.range k).map (ioAt p qid rnd slba)
  calls : th.calls = k + 1
  lba : th.lba = lbaAt p rnd slba (k + 1)

section Stream
variable {slba qid k b : Nat} {rnd : Nat → Nat} {th : Thread}

theorem submitIo_streamed (h : Streamed p qid rnd slba k th) (hb : k % p.batch = b) :
    Streamed p qid rnd slba (k + 1) (submitIo p qid rnd th b) := by
  have hn := nblocks_le p
  have hlen : th.device.submitted.length = k := by
    rw [h.submitted, List.length_map, List.length_range]
  constructor
  · rw [List.range_succ, List.map_append, ← h.submitted]
    simp only [submitIo, Source.BenchNvme.bench, Device.submit, List.map_cons, List.map_nil, ioAt,
      hlen, hb, h.lba]
    rw [wrap_of_lt (by omega)]
  · simp only [submitIo, h.calls]
  · simp only [submitIo, h.calls, h.lba]
    rfl

theorem Streamed.of_walk {th' : Thread} (hsame : SameWalk th th')
    (h : Streamed p qid rnd slba k th) : Streamed p qid rnd slba k th' :=
  ⟨hsame.submitted.trans h.submitted, hsame.calls.trans h.calls, hsame.lba.trans h.lba⟩

/-- A batch begins with buffer 0 again. -/
theorem submitLoop_streamed {rounds : Nat} (h : Streamed p qid rnd slba (rounds * p.batch) th)
    (hb : b ≤ p.batch) :
    Streamed p qid rnd slba (rounds * p.batch + b) (submitLoop p qid rnd th b) := by
  induction b with
  | zero => exact h
  | succ b ih =>
    rw [submitLoop_succ]
    have hbuf : (rounds * p.batch + b) % p.batch = b := by
      rw [Nat.add_comm, Nat.add_mul_mod_self_right, Nat.mod_eq_of_lt (by omega)]
    exact submitIo_streamed (ih (by omega)) hbuf

theorem benchStart_streamed (rounds : List (Nat → Int)) :
    Streamed p qid rnd slba (rounds.length * p.batch) (benchStart p qid rnd slba rounds) := by
  induction rounds using List.reverseRecOn with
  | nil =>
    rw [List.length_nil, Nat.zero_mul]
    exact ⟨rfl, rfl, rfl⟩
  | append_singleton rounds polls ih =>
    rw [benchStart, List.foldl_append, List.foldl_cons, List.foldl_nil, benchRound,
      List.length_append, List.length_singleton, Nat.succ_mul]
    exact (submitLoop_streamed ih (Nat.le_refl _)).of_walk (pollLoop_walk p polls _ _)

/-- How much of the stream a worker has submitted. -/
theorem WorkerAt.streamed {pc : WorkerPc} (h : WorkerAt p qid rnd slba th pc) :
    ∃ k, th.device.submitted = (List.range k).map (ioAt p qid rnd slba) := by
  rcases WorkerAt.walk h with rfl | ⟨rounds, b, hb, hsame⟩
  · exact ⟨0, rfl⟩
  · have hstart : Streamed p qid rnd slba _ _ := benchStart_streamed rounds
    exact ⟨_, ((submitLoop_streamed hstart hb).of_walk hsame).submitted⟩

/-- Only the random walk looks at what `rand` returns. -/
theorem lbaAt_rand (hwalk : p.walk ≠ .random) (rnd rnd' : Nat → Nat) (slba k : Nat) :
    lbaAt p rnd slba k = lbaAt p rnd' slba k := by
  induction k with
  | zero => rfl
  | succ k ih =>
    rw [lbaAt, lbaAt, ih]
    cases hmode : p.walk with
    | random => exact absurd hmode hwalk
    | seq | same => rfl

end Stream

/-- In every interleaving, and whatever the polls return, what a worker has submitted is
the beginning of the stream that its own results of `rand` make: its I/Os take the addresses
of `next_lba` in order, without a gap or a repetition, and the buffers in turn. A walk that
is not random makes the same stream of all results. -/
theorem worker_stream (p : BenchParam) (ncpus : Nat) (rand : Nat → Nat → Nat)
    (labels : List (Label Empty Int)) (out : System Shared BenchThread) (n : Nat) (hn : n < ncpus)
    (hrun : (bench p ncpus rand).run (started ncpus) labels = some out) :
    ∃ k, (out.shared.th n).device.submitted =
        (List.range k).map (ioAt p n (rand n) (threadSlba ncpus n)) ∧
      (p.walk ≠ .random → ∀ rnd, (out.shared.th n).device.submitted =
        (List.range k).map (ioAt p n rnd (threadSlba ncpus n))) := by
  obtain ⟨pc, -, -, hat⟩ := worker_ok hrun hn
  obtain ⟨k, hk⟩ := WorkerAt.streamed hat
  refine ⟨k, hk, fun hwalk rnd => hk.trans (List.map_congr_left fun j _ => ?_)⟩
  rw [ioAt, ioAt, lbaAt_rand hwalk (rand n) rnd]

theorem worker_stream_two : ∃ out k,
    (bench twoReads 2 fun _ _ => 0).run (started 2) interleaved = some out ∧
    (out.shared.th 1).device.submitted =
        (List.range k).map (ioAt twoReads 1 (fun _ => 0) (threadSlba 2 1)) ∧
      (twoReads.walk ≠ .random → ∀ rnd, (out.shared.th 1).device.submitted =
        (List.range k).map (ioAt twoReads 1 rnd (threadSlba 2 1))) := by
  obtain ⟨k, hk⟩ := worker_stream twoReads 2 (fun _ _ => 0) interleaved _ 1 (by decide) rfl
  exact ⟨_, k, rfl, hk⟩

end Nvpkt.Guarantees.BenchDevice
