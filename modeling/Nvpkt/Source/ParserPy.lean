import Mathlib.Data.Finset.Sort
import Nvpkt.Library.CommandLine
import Nvpkt.Library.OrderStatistics
import Nvpkt.Library.SeparatedText
import Nvpkt.Library.TextLines

/-!
# parser.py

`parse`, `variants`, `find_file_by_key` and the cells of `main` in
`userland-driver/tools/parser.py`, and the file names that `bench-all.sh` gives the
benchmark outputs. A Python string is its list of characters, `in` on strings is
occurrence as a contiguous part, and an exception or `sys.exit()` is `none`. Floating
point is a parameter: an ordered type with `float`, and `mean a b` for `(a + b) / 2`.
-/

set_option autoImplicit false

namespace Nvpkt.Source.ParserPy

abbrev Text := List Char

/-- The keys `--xkey` and `--vkey` choose from. -/
inductive Key where
  | msg | batch | cpu
  deriving DecidableEq, Repr

def Key.name : Key → Text
  | .msg => ['m', 's', 'g']
  | .batch => ['b', 'a', 't', 'c', 'h']
  | .cpu => ['c', 'p', 'u']

/-- A nonempty string of decimal digits. -/
structure Numeral where
  digits : Text
  nonempty : digits ≠ []
  decimal : ∀ c ∈ digits, c.isDigit = true
  deriving DecidableEq

/-- `int(...)` of the digits. -/
def Numeral.value (n : Numeral) : Nat := Nat.ofDigitChars 10 n.digits 0

/-- The parameters `bench-all.sh` puts into a file name; `stem` is the
`$OUTDIR/write` or `$OUTDIR/bench` in front of them. -/
structure BenchFile where
  stem : Text
  walk : Text
  msg : Numeral
  batch : Numeral
  cpu : Numeral
  deriving DecidableEq

def BenchFile.param (f : BenchFile) : Key → Numeral
  | .msg => f.msg
  | .batch => f.batch
  | .cpu => f.cpu

def walkField (f : BenchFile) : Text := ['w', 'a', 'l', 'k', '-'] ++ f.walk

def txt : Text := ['.', 't', 'x', 't']

/-- `<stem>_walk-<w>_msg-<m>_batch-<b>_cpu-<c>.txt` -/
def BenchFile.path (f : BenchFile) : Text :=
  f.stem ++ '_' :: (walkField f ++ '_' :: (Key.msg.name ++ '-' :: (f.msg.digits ++ '_' ::
    (Key.batch.name ++ '-' :: (f.batch.digits ++ '_' ::
      (Key.cpu.name ++ '-' :: (f.cpu.digits ++ txt)))))))

/-- `"{}-{}".format(key, x)` -/
def keyText (key : Key) (x : Nat) : Text := key.name ++ '-' :: Nat.toDigits 10 x

/-- The first file name that contains every key. -/
def findFileByKey (keys : List Text) : List Text → Option Text
  | [] => none
  | filename :: rest =>
    let ok := keys.filter (fun key => key <:+: filename)
    if ok.length = keys.length then some filename else findFileByKey keys rest

/-- The cell `main` prints in row `x` and column `v`. -/
def tableCell {Stat : Type} (parse : Text → Stat) (files : List Text) (xkey vkey : Key)
    (x v : Nat) : Option Stat :=
  (findFileByKey [keyText xkey x, keyText vkey v] files).map parse

/-! ## parse -/

section Parse
open Nvpkt.Library.OrderStatistics Nvpkt.Library.TextLines

def interim : Text := "INTERIM".toList

/-- The dictionary `parse` returns. -/
structure Stats (V : Type) where
  iops : V
  iopsMax : V
  iopsMin : V
  bps : V
  bpsMax : V
  bpsMin : V

variable {V : Type} (float : Text → Option V)

/-- `float(s[1])` and `float(s[5])` -/
def lineValues (line : Text) : Option (V × V) :=
  let s := line.splitOn ' '
  match s[1]?.bind float, s[5]?.bind float with
  | some iops, some bps => some (iops, bps)
  | _, _ => none

/-- The body of the loop over the lines, on `iopses` and `bpses`. -/
def collectLine (found : List V × List V) (line : Text) : Option (List V × List V) :=
  if interim <:+: line then
    (lineValues float line).map fun v => (found.1 ++ [v.1], found.2 ++ [v.2])
  else some found

def collect (text : Text) : Option (List V × List V) :=
  (fileLines text).foldlM (collectLine float) ([], [])

def parse [LinearOrder V] (mean : V → V → V) (text : Text) : Option (Stats V) := do
  let (iopses, bpses) ← collect float text
  let iops ← median mean iopses
  let iopsMax ← iopses.max?
  let iopsMin ← iopses.min?
  let bps ← median mean bpses
  let bpsMax ← bpses.max?
  let bpsMin ← bpses.min?
  return { iops, iopsMax, iopsMin, bps, bpsMax, bpsMin }

end Parse

/-! ## variants -/

section Variants
open Nvpkt.Library.CommandLine (isspace sign)
open Nvpkt.Library.SeparatedText

/-- `int(...)` of ASCII text that contains no underscore. -/
def int (text : Text) : Option Int :=
  let signed := sign ((text.dropWhile isspace).rdropWhile isspace)
  if signed.2 ≠ [] ∧ signed.2.all Char.isDigit then
    let magnitude : Int := Nat.ofDigitChars 10 signed.2 0
    some (if signed.1 then -magnitude else magnitude)
  else none

/-- The body of the loop over the parts of a file name, on `vs`. -/
def addParam (key : Text) (vs : Finset Int) (param : Text) : Option (Finset Int) :=
  if key <:+: param ∧ '-' ∈ param then
    ((param.splitOn '-')[1]?.bind int).map fun v => insert v vs
  else some vs

/-- The body of the loop over the file names. -/
def addFile (key : Text) (vs : Finset Int) (filename : Text) : Option (Finset Int) :=
  ((strip txt filename).splitOn '_').foldlM (addParam key) vs

def sorted (vs : Finset Int) : List Int := vs.sort

def variants (files : List Text) (key : Text) : Option (List Int) :=
  (files.foldlM (addFile key) ∅).map sorted

end Variants

end Nvpkt.Source.ParserPy
