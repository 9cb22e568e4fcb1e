import Mathlib.Logic.Function.Basic
import Nvpkt.Library.FixedWidth

/-!
# A thread of `bench-nvme`

`next_lba`, `bench`, `bench_start` and the start addresses `main` hands out. The
UNVMe library is not in the repository: `Device` keeps what it was asked to do
and what of it is outstanding. A poll that returns 0 completes the I/O, any other
result leaves it outstanding. `rand` and the poll results of every round are
given; the list of rounds ends where `caught_signal` is seen.
-/

set_option autoImplicit false

namespace Nvpkt.Source.BenchNvme
open Nvpkt.Library.FixedWidth

inductive Mode where
  | read
  | write
deriving DecidableEq

/-- `WALK_*` -/
inductive Walk where
  | random
  | seq
  | same
deriving DecidableEq

def maxCpuNum : Nat := 32

/-- `struct bench_param`; `main` turns a negative `size` or `batch` down. -/
structure BenchParam where
  mode : Mode
  walk : Walk
  size : Nat
  batch : Nat
  size_lt : size < 2 ^ 31

/-- The hard-coded end of the device. -/
def blockEnd : Nat := 0xe8e088b0

/-- `slba` of thread `n`, in `unsigned int`. -/
def threadSlba (ncpus n : Nat) : Nat := wrap 32 (blockEnd / ncpus * n)

/-- Blocks of one I/O. -/
def BenchParam.nblocks (p : BenchParam) : Nat :=
  if p.size % 512 ≠ 0 then p.size / 512 + 1 else p.size / 512

/-- `next_lba`; `rand` is the value `rand()` would return. -/
def nextLba (walk : Walk) (rand lba blockEnd nblocks : Nat) : Nat :=
  match walk with
  | .random => rand % wsub 64 blockEnd nblocks
  | .same => lba
  | .seq =>
    if wrap 64 (lba + wrap 64 (nblocks <<< 1)) < blockEnd then wrap 64 (lba + nblocks) else 0

/-! ## The library -/

/-- An I/O; `id` is what `unvme_iod_t` stands for and `buf` the index into `bufs`. -/
structure Io where
  id : Nat
  mode : Mode
  qid : Nat
  buf : Nat
  lba : Nat
  nblocks : Nat
deriving DecidableEq

structure Device where
  submitted : List Io
  outstanding : List Io

/-- How many I/Os have completed. -/
def Device.completed (d : Device) : Nat := d.submitted.length - d.outstanding.length

/-- `unvme_aread` and `unvme_awrite`. -/
def Device.submit (d : Device) (mode : Mode) (qid buf lba nblocks : Nat) : Nat × Device :=
  let io : Io :=
    { id := d.submitted.length, mode := mode, qid := qid, buf := buf, lba := lba
      nblocks := nblocks }
  (io.id, { submitted := d.submitted ++ [io], outstanding := d.outstanding ++ [io] })

/-- `unvme_apoll`, which returns `ret`. -/
def Device.apoll (d : Device) (iod : Nat) (ret : Int) : Device :=
  if ret = 0 then { d with outstanding := d.outstanding.eraseP fun io => io.id == iod }
  else d

/-! ## The thread -/

/-- The variables of `bench_start` with the device. `calls` counts the calls of
`next_lba`. -/
structure Thread where
  lba : Nat
  calls : Nat
  iod : Nat → Nat
  count : Nat
  bytes : Nat
  device : Device

/-- `bench`; the block count becomes an `unsigned int`. -/
def bench (mode : Mode) (qid buf lba nblocks : Nat) (d : Device) : Nat × Device :=
  d.submit mode qid buf lba (wrap 32 nblocks)

/-- The body of the loop that submits. -/
def submitIo (p : BenchParam) (qid : Nat) (rand : Nat → Nat) (th : Thread) (b : Nat) : Thread :=
  let io := bench p.mode qid b th.lba p.nblocks th.device
  { th with
    iod := Function.update th.iod b io.1
    device := io.2
    lba := nextLba p.walk (rand th.calls) th.lba blockEnd p.nblocks
    calls := th.calls + 1 }

/-- The body of the loop that polls. -/
def pollIo (p : BenchParam) (polls : Nat → Int) (th : Thread) (b : Nat) : Thread :=
  let ret := polls b
  let device := th.device.apoll (th.iod b) ret
  if ret = 0 then
    { th with
      device := device
      bytes := wrap 64 (th.bytes + p.size)
      count := wrap 64 (th.count + 1) }
  else { th with device := device }

/-- A poll that times out changes nothing. -/
theorem pollIo_timeout {p : BenchParam} {polls : Nat → Int} {th : Thread} {b : Nat}
    (h : polls b ≠ 0) : pollIo p polls th b = th := by
  simp only [pollIo, Device.apoll, if_neg h]

theorem pollIo_done {p : BenchParam} {polls : Nat → Int} {th : Thread} {b : Nat}
    (h : polls b = 0) : pollIo p polls th b =
      { th with
        device := th.device.apoll (th.iod b) 0
        bytes := wrap 64 (th.bytes + p.size)
        count := wrap 64 (th.count + 1) } := by
  simp only [pollIo, h, if_pos]

/-- The first `b` passes of the loop that submits. -/
def submitLoop (p : BenchParam) (qid : Nat) (rand : Nat → Nat) (th : Thread) (b : Nat) :
    Thread :=
  (List.range b).foldl (submitIo p qid rand) th

/-- The first `b` passes of the loop that polls. -/
def pollLoop (p : BenchParam) (polls : Nat → Int) (th : Thread) (b : Nat) : Thread :=
  (List.range b).foldl (pollIo p polls) th

theorem submitLoop_succ (p : BenchParam) (qid : Nat) (rand : Nat → Nat) (th : Thread) (b : Nat) :
    submitLoop p qid rand th (b + 1) = submitIo p qid rand (submitLoop p qid rand th b) b := by
  rw [submitLoop, List.range_succ, List.foldl_append]
  rfl

theorem pollLoop_succ (p : BenchParam) (polls : Nat → Int) (th : Thread) (b : Nat) :
    pollLoop p polls th (b + 1) = pollIo p polls (pollLoop p polls th b) b := by
  rw [pollLoop, List.range_succ, List.foldl_append]
  rfl

/-- A pass of the outer loop. -/
def benchRound (p : BenchParam) (qid : Nat) (rand : Nat → Nat) (th : Thread)
    (polls : Nat → Int) : Thread :=
  pollLoop p polls (submitLoop p qid rand th p.batch) p.batch

/-- The thread before its first round. -/
def benchInit (p : BenchParam) (rand : Nat → Nat) (slba : Nat) : Thread :=
  { lba := nextLba p.walk (rand 0) slba blockEnd p.nblocks
    calls := 1
    iod := fun _ => 0
    count := 0
    bytes := 0
    device := { submitted := [], outstanding := [] } }

/-- `bench_start`. -/
def benchStart (p : BenchParam) (qid : Nat) (rand : Nat → Nat) (slba : Nat)
    (rounds : List (Nat → Int)) : Thread :=
  rounds.foldl (benchRound p qid rand) (benchInit p rand slba)

end Nvpkt.Source.BenchNvme
