import Nvpkt.Library.CommandLine
import Nvpkt.Source.BenchNvme

/-!
# The options of `bench-nvme`

The option loop of `main`. It returns -1 by `none`; what it prints is left out.
`online` is what `count_online_cpus` returns.
-/

set_option autoImplicit false

namespace Nvpkt.Source.BenchOptions
open Nvpkt.Library.CommandLine
open Nvpkt.Source.BenchNvme (Mode Walk maxCpuNum)

/-- `MAX_BATCH_SIZE`, the length of `bufs` and `iod`. -/
def maxBatchSize : Nat := 258

/-- `struct bench_param` while its members are ints, and `verbose_level`. -/
structure Param where
  mode : Mode
  walk : Walk
  size : Int
  batch : Int
  ncpus : Int
  time : Int
  pci : Option (List Char)
  verboseLevel : Nat

def Param.default : Param :=
  { mode := .read, walk := .random, size := 64, batch := 1, ncpus := 1, time := 1, pci := none
    verboseLevel := 0 }

def optstring : List Char :=
  ['m', ':', 'w', ':', 's', ':', 'b', ':', 'p', ':', 'n', ':', 't', ':', 'v']

def read : List Char := ['r', 'e', 'a', 'd']
def write : List Char := ['w', 'r', 'i', 't', 'e']
def random : List Char := ['r', 'a', 'n', 'd', 'o', 'm']
def seq : List Char := ['s', 'e', 'q']
def same : List Char := ['s', 'a', 'm', 'e']

/-- The `switch`. `strncmp` compares as many characters as the word has. -/
def option (online : Int) (p : Param) : Opt → Option Param
  | .option 'm' optarg =>
    if read.isPrefixOf optarg then some { p with mode := .read }
    else if write.isPrefixOf optarg then some { p with mode := .write }
    else none
  | .option 'w' optarg =>
    if random.isPrefixOf optarg then some { p with walk := .random }
    else if seq.isPrefixOf optarg then some { p with walk := .seq }
    else if same.isPrefixOf optarg then some { p with walk := .same }
    else none
  | .option 's' optarg =>
    let size := atoi optarg
    if size < 0 then none else some { p with size := size }
  | .option 'b' optarg =>
    let batch := atoi optarg
    if batch < 0 ∨ maxBatchSize < batch then none else some { p with batch := batch }
  | .option 'n' optarg =>
    let ncpus := atoi optarg
    if ncpus < 1 ∨ online < ncpus then none else some { p with ncpus := ncpus }
  -- a negative time is only complained about
  | .option 't' optarg => some { p with time := atoi optarg }
  | .option 'p' optarg => some { p with pci := some optarg }
  | .option 'v' _ => some { p with verboseLevel := p.verboseLevel + 1 }
  | .option _ _ => none
  | .unknown => none

/-- The option loop over the words behind the program's name. -/
def optionLoop (online : Int) (argv : List (List Char)) : Option Param :=
  (getopt optstring argv).foldlM (option online) .default

/-- The duration `sleep` takes, an unsigned int. -/
def Param.sleepArg (p : Param) : Nat := (p.time % 2 ^ 32).toNat

end Nvpkt.Source.BenchOptions
