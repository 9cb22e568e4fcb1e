import Nvpkt.Library.Interleaving
import Nvpkt.Source.BenchNvme
import Nvpkt.Source.IntervalReport

/-!
# The threads of `bench-nvme`

`main` of `bench-nvme.c` behind its option loop, the workers it creates and the thread
that reports in between. They share `caught_signal`, the `bench_thread` structures and
what `pthread_join` waits for. A worker's steps are the I/Os it submits and polls for and
its two increments behind a poll, the reporter's the counters it reads, one in a step.
`main` is thread 0, worker `n` is thread `n + 1`, and the reporter comes last.

The input of a step is what `unvme_apoll` returns in it. The threads share the generator
behind `rand()`, so that which of its values a thread gets depends on the order of the
calls; `rand n` are those that the calls of worker `n` have got in the run looked at.
-/

set_option autoImplicit false

namespace Nvpkt.Source.BenchMain
open Nvpkt.Library.FixedWidth Nvpkt.Library.Interleaving
open Nvpkt.Source.BenchNvme
open Nvpkt.Source.IntervalReport (Field)

inductive MainPc where
  | create (n : Nat)
  | sleeping
  | joining (n : Nat)
  | joiningReporter
  | closing
  | printing (n : Nat)
  | returned
deriving DecidableEq

/-- `addingBytes b` and `addingCount b` are in front of the increments for I/O `b`. -/
inductive WorkerPc where
  | waiting
  | check
  | submitting (b : Nat)
  | polling (b : Nat)
  | addingBytes (b : Nat)
  | addingCount (b : Nat)
  | done
deriving DecidableEq

/-- `print_interval_result` reads the counters, sleeps and reads them again; `next` is the
counter of thread `n` that comes next. -/
inductive ReporterPc where
  | waiting
  | check
  | first (n : Nat) (next : Field) (countStart bytesStart : Nat)
  | second (n : Nat) (next : Field) (countStart bytesStart countEnd bytesEnd : Nat)
  | done
deriving DecidableEq

inductive BenchThread where
  | main (pc : MainPc)
  | worker (pc : WorkerPc)
  | reporter (pc : ReporterPc)
deriving DecidableEq

/-- What the threads share. `interims` and `finals` are the counts and bytes behind the
lines printed, `finished` what `pthread_join` waits for. -/
structure Shared where
  created : Nat
  reporterCreated : Bool
  caughtSignal : Bool
  closed : Bool
  th : Nat → Thread
  finished : Nat → Bool
  reporterFinished : Bool
  interims : List (Nat × Nat)
  finals : List (Nat × Nat)

/-- A `bench_thread` after the `memset`. -/
def zeroThread : Thread :=
  { lba := 0, calls := 0, iod := fun _ => 0, count := 0, bytes := 0
    device := { submitted := [], outstanding := [] } }

def Shared.setTh (s : Shared) (n : Nat) (th : Thread) : Shared :=
  { s with th := Function.update s.th n th }

/-- `unvme_apoll` for I/O `b` of a batch. -/
def apollIo (ret : Int) (th : Thread) (b : Nat) : Thread :=
  { th with device := th.device.apoll (th.iod b) ret }

/-- `th->bytes += p.size` -/
def addBytes (p : BenchParam) (th : Thread) : Thread :=
  { th with bytes := wrap 64 (th.bytes + p.size) }

/-- `th->count += 1` -/
def addCount (th : Thread) : Thread := { th with count := wrap 64 (th.count + 1) }

/-- The steps that a pass of the polling loop is made of. -/
theorem pollIo_steps (p : BenchParam) (polls : Nat → Int) (th : Thread) (b : Nat) :
    pollIo p polls th b =
      if polls b = 0 then addCount (addBytes p (apollIo (polls b) th b))
      else apollIo (polls b) th b := rfl

def mainAction (ncpus : Nat) (s : Shared) : MainPc → Option (Shared × MainPc)
  | .create n =>
    if n < ncpus then some ({ s with created := n + 1 }, .create (n + 1))
    else some ({ s with reporterCreated := true }, .sleeping)
  | .sleeping => some ({ s with caughtSignal := true }, .joining 0)
  | .joining n =>
    if n < ncpus then if s.finished n then some (s, .joining (n + 1)) else none
    else some (s, .joiningReporter)
  | .joiningReporter => if s.reporterFinished then some (s, .closing) else none
  | .closing => some ({ s with closed := true }, .printing 0)
  | .printing n =>
    if n < ncpus then
      some ({ s with finals := s.finals ++ [((s.th n).count, (s.th n).bytes)] }, .printing (n + 1))
    else some (s, .returned)
  | .returned => none

/-- `bench_start` of worker `n`. -/
def workerAction (p : BenchParam) (ncpus : Nat) (rand : Nat → Nat → Nat) (n : Nat) (s : Shared)
    (poll : Int) : WorkerPc → Option (Shared × WorkerPc)
  | .waiting =>
    if n < s.created then
      some (s.setTh n (benchInit p (rand n) (threadSlba ncpus n)), .check)
    else none
  | .check =>
    if s.caughtSignal then some ({ s with finished := Function.update s.finished n true }, .done)
    else some (s, .submitting 0)
  | .submitting b =>
    if b < p.batch then some (s.setTh n (submitIo p n (rand n) (s.th n) b), .submitting (b + 1))
    else some (s, .polling 0)
  | .polling b =>
    if b < p.batch then
      some (s.setTh n (apollIo poll (s.th n) b),
        if poll = 0 then .addingBytes b else .polling (b + 1))
    else some (s, .check)
  | .addingBytes b => some (s.setTh n (addBytes p (s.th n)), .addingCount b)
  | .addingCount b => some (s.setTh n (addCount (s.th n)), .polling (b + 1))
  | .done => none

/-- `report_interval`. -/
def reporterAction (ncpus : Nat) (s : Shared) : ReporterPc → Option (Shared × ReporterPc)
  | .waiting => if s.reporterCreated then some (s, .check) else none
  | .check =>
    if s.caughtSignal then some ({ s with reporterFinished := true }, .done)
    else some (s, .first 0 .count 0 0)
  | .first n .count count bytes =>
    if n < ncpus then some (s, .first n .bytes (wrap 64 (count + (s.th n).count)) bytes)
    else some (s, .second 0 .count count bytes 0 0)
  | .first n .bytes count bytes =>
    some (s, .first (n + 1) .count count (wrap 64 (bytes + (s.th n).bytes)))
  | .second n .count countStart bytesStart count bytes =>
    if n < ncpus then
      some (s, .second n .bytes countStart bytesStart (wrap 64 (count + (s.th n).count)) bytes)
    else
      some ({ s with
        interims := s.interims ++ [(wsub 64 count countStart, wsub 64 bytes bytesStart)] }, .check)
  | .second n .bytes countStart bytesStart count bytes =>
    some (s, .second (n + 1) .count countStart bytesStart count
      (wrap 64 (bytes + (s.th n).bytes)))
  | .done => none

def benchAction (p : BenchParam) (ncpus : Nat) (rand : Nat → Nat → Nat) (i : Nat) (s : Shared)
    (l : BenchThread) (poll : Int) : Option (Shared × BenchThread) :=
  match l with
  | .main pc => (mainAction ncpus s pc).map fun next => (next.1, .main next.2)
  | .worker pc =>
    (workerAction p ncpus rand (i - 1) s poll pc).map fun next => (next.1, .worker next.2)
  | .reporter pc => (reporterAction ncpus s pc).map fun next => (next.1, .reporter next.2)

/-- No thread is started from outside. -/
def bench (p : BenchParam) (ncpus : Nat) (rand : Nat → Nat → Nat) :
    Machine Shared BenchThread Empty Int where
  init := Empty.elim
  action := benchAction p ncpus rand

/-- The start, when the options are read and the device is open. -/
def started (ncpus : Nat) : System Shared BenchThread where
  shared :=
    { created := 0, reporterCreated := false, caughtSignal := false, closed := false
      th := fun _ => zeroThread, finished := fun _ => false, reporterFinished := false
      interims := [], finals := [] }
  threads := .main (.create 0) :: List.replicate ncpus (.worker .waiting) ++ [.reporter .waiting]

end Nvpkt.Source.BenchMain
