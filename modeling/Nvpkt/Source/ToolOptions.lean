import Nvpkt.Library.CommandLine

/-!
# The options of the other tools

The option loops of `load-and-xmit.c`, `xmit-from-pram.c`, `dump-nvme.c` and
`recv-to-pram.c`. A loop that returns is `none`; what it prints is left out. A variable of
`main` that nothing has been assigned to is `none` as well, one of `struct body` is 0.
-/

set_option autoImplicit false

namespace Nvpkt.Source.ToolOptions
open Nvpkt.Library.CommandLine

abbrev Text := List Char

/-- `strtol(optarg, NULL, 0)`, assigned to an unsigned variable of 64 bits. -/
def lba (optarg : Text) : Nat := (strtolAny optarg % 2 ^ 64).toNat

/-! ## load-and-xmit -/

/-- `struct body`, and `use_build_pkt`. -/
structure LoadBody where
  nmName : Option Text
  nvmePci : Option Text
  nblocks : Int
  slba : Nat
  count : Int
  usleep : Int
  batchSize : Int
  useBuildPkt : Bool

def LoadBody.init : LoadBody :=
  { nmName := none, nvmePci := none, nblocks := 0, slba := 0, count := 0, usleep := 0
    batchSize := 1, useBuildPkt := false }

def loadOptstring : Text := ['i', ':', 's', ':', 'n', ':', 'p', ':', 'c', ':', 'u', ':', 'b']

def loadOption (body : LoadBody) : Opt → Option LoadBody
  | .option 'i' optarg => some { body with nmName := some optarg }
  | .option 's' optarg => some { body with slba := lba optarg }
  | .option 'n' optarg =>
    let nblocks := atoi optarg
    if nblocks < 0 then none else some { body with nblocks := nblocks }
  | .option 'p' optarg => some { body with nvmePci := some optarg }
  | .option 'c' optarg => some { body with count := atoi optarg }
  | .option 'b' _ => some { body with useBuildPkt := true }
  | .option 'u' optarg => some { body with usleep := atoi optarg }
  | .option 'B' optarg => some { body with batchSize := atoi optarg }
  | .option _ _ => none
  | .unknown => none

def loadOptions (argv : List Text) : Option LoadBody :=
  (getopt loadOptstring argv).foldlM loadOption .init

/-! ## xmit-from-pram -/

/-- The members of `struct body` that are used, `pktlen`, `no_write` and `batch`. -/
structure PramBody where
  nmName : Option Text
  count : Int
  usleep : Int
  pktlen : Int
  noWrite : Bool
  batch : Int

def PramBody.init : PramBody :=
  { nmName := none, count := 0, usleep := 0, pktlen := 512, noWrite := false, batch := 1 }

def pramOptstring : Text := ['i', ':', 'c', ':', 'u', ':', 'l', ':', 'n', 'b', ':']

def pramOption (body : PramBody) : Opt → Option PramBody
  | .option 'i' optarg => some { body with nmName := some optarg }
  | .option 'c' optarg => some { body with count := atoi optarg }
  | .option 'u' optarg => some { body with usleep := atoi optarg }
  | .option 'n' _ => some { body with noWrite := true }
  | .option 'b' optarg => some { body with batch := atoi optarg }
  | .option 'l' optarg => some { body with pktlen := atoi optarg }
  | .option _ _ => none
  | .unknown => none

def pramOptions (argv : List Text) : Option PramBody :=
  (getopt pramOptstring argv).foldlM pramOption .init

/-! ## dump-nvme -/

/-- `pci`, `slba` and `nblocks`, which have no initial values. -/
structure DumpVars where
  pci : Option Text
  slba : Option Nat
  nblocks : Option Nat

def DumpVars.init : DumpVars := { pci := none, slba := none, nblocks := none }

def dumpOptstring : Text := ['p', ':', 's', ':', 'n', ':']

def dumpOption (vars : DumpVars) : Opt → Option DumpVars
  | .option 'p' optarg => some { vars with pci := some optarg }
  | .option 's' optarg => some { vars with slba := some (lba optarg) }
  | .option 'n' optarg => some { vars with nblocks := some (lba optarg) }
  | .option _ _ => none
  | .unknown => none

def dumpOptions (argv : List Text) : Option DumpVars :=
  (getopt dumpOptstring argv).foldlM dumpOption .init

/-! ## recv-to-pram -/

/-- `nm_name`, which has no initial value, and `no_p2pmem`. -/
structure RecvVars where
  nmName : Option Text
  noP2pmem : Bool

def RecvVars.init : RecvVars := { nmName := none, noP2pmem := false }

def recvOptstring : Text := ['i', ':', 'n']

def recvOption (vars : RecvVars) : Opt → Option RecvVars
  | .option 'i' optarg => some { vars with nmName := some optarg }
  | .option 'n' _ => some { vars with noP2pmem := true }
  | .option _ _ => none
  | .unknown => none

def recvOptions (argv : List Text) : Option RecvVars :=
  (getopt recvOptstring argv).foldlM recvOption .init

end Nvpkt.Source.ToolOptions
