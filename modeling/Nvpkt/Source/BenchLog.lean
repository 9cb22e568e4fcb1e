import Nvpkt.Source.BenchNvme
import Nvpkt.Source.ParserPy

/-!
# What `bench-nvme` prints

The lines of `print_p`, `main`, `bench_start`, `print_interval_result` and `print_result`
on standard output, which `bench-all.sh` writes to a file. `pci` is the name of the
device. The rates are what `printf` makes of finite doubles under `%.2lf`.
-/

set_option autoImplicit false

namespace Nvpkt.Source.BenchLog
open Nvpkt.Source.BenchNvme (Mode Walk)
open Nvpkt.Source.ParserPy

/-- A number as `%.2lf` prints it, if it is not negative. -/
structure Decimal where
  whole : Numeral
  tenths : Char
  hundredths : Char
  tenths_digit : tenths.isDigit = true
  hundredths_digit : hundredths.isDigit = true

def Decimal.text (d : Decimal) : Text := d.whole.digits ++ ['.', d.tenths, d.hundredths]

/-- `%d` -/
def intText (n : Int) : Text :=
  if n < 0 then '-' :: Nat.toDigits 10 n.natAbs else Nat.toDigits 10 n.natAbs

/-- `%#lx` -/
def hexText (n : Nat) : Text := if n = 0 then ['0'] else '0' :: 'x' :: Nat.toDigits 16 n

structure Rates where
  iops : Decimal
  kiops : Decimal
  bps : Decimal
  mbps : Decimal

def Rates.text (r : Rates) : Text :=
  r.iops.text ++ " iops, ".toList ++ r.kiops.text ++ " kiops, ".toList ++ r.bps.text ++
    " Bps, ".toList ++ r.mbps.text ++ " MBps".toList

def modeText : Mode → Text
  | .read => "read".toList
  | .write => "write".toList

def walkStr : Walk → Text
  | .random => "random".toList
  | .seq => "seq".toList
  | .same => "same".toList

/-- A line, with what its `printf` is given. -/
inductive Line where
  | configuration
  | mode (mode : Mode)
  | walk (walk : Walk)
  | size (size : Int)
  | batch (batch : Int)
  | device
  | ncpus (ncpus : Int)
  | time (time : Int)
  | rule
  | startBenchmarking
  | start (qid : Int) (slba nblocks : Nat) (batch : Int)
  | pollTimeout (cpu : Int)
  | interim (rates : Rates)
  | close
  | final (qid : Int) (rates : Rates)

/-- The line without its end. -/
def Line.text (pci : Text) : Line → Text
  | .configuration => "==== Benchmark Configuration ====".toList
  | .mode m => "mode:       ".toList ++ modeText m
  | .walk w => "walk:       ".toList ++ walkStr w
  | .size n => "size:       ".toList ++ intText n
  | .batch n => "batch:      ".toList ++ intText n
  | .device => "device:     ".toList ++ pci
  | .ncpus n => "ncpus:      ".toList ++ intText n
  | .time n => "time:       ".toList ++ intText n
  | .rule => "=================================".toList
  | .startBenchmarking => "start benchmarking".toList
  | .start qid slba nblocks n =>
    "start on queue ".toList ++ intText qid ++ ", slba=".toList ++ hexText slba ++
      ", nblocks=".toList ++ Nat.toDigits 10 nblocks ++ ", batch=".toList ++ intText n
  | .pollTimeout cpu => "poll timeout on cpu ".toList ++ intText cpu
  | .interim r => "[INTERIM] ".toList ++ r.text
  | .close => "close nvme ".toList ++ pci
  | .final qid r => "[FINAL] qid ".toList ++ intText qid ++ ' ' :: r.text

/-- The output of a run. -/
def output (pci : Text) (log : List Line) : Text := log.flatMap fun line => line.text pci ++ ['\n']

/-- The rates of the lines `print_interval_result` printed. -/
def interims : List Line → List Rates
  | [] => []
  | .interim rates :: log => rates :: interims log
  | _ :: log => interims log

end Nvpkt.Source.BenchLog
