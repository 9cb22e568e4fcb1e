import Nvpkt.Source.BenchLog

/-!
# The table of parser.py

`main` of `userland-driver/tools/parser.py` behind `parse_args`. `content` is what is in a
file, `quotient` is `int(xtic / 1024)`, whose division is one of floating-point numbers,
and an exception or `sys.exit()` is `none`. What is printed as a comment, and how a number
is printed in a cell, is left out.
-/

set_option autoImplicit false

namespace Nvpkt.Source.ParserMain
open Nvpkt.Source.ParserPy Nvpkt.Source.BenchLog

/-- `--yaxis` -/
inductive YAxis where
  | iops
  | bps
deriving DecidableEq

structure Row (V : Type) where
  xtic : Text
  cells : List V

structure Table (V : Type) where
  xkeys : List Int
  vkeys : List Int
  rows : List (Row V)

/-- `"{}-{}".format(key, x)` -/
def formatKey (key : Key) (x : Int) : Text := key.name ++ '-' :: intText x

/-- `while (xtic >= 1024)`, for at most `fuel` passes. -/
def reduce (quotient : Int → Int) : Nat → Int → Nat → Int × Nat
  | 0, xtic, suffixCnt => (xtic, suffixCnt)
  | fuel + 1, xtic, suffixCnt =>
    if 1024 ≤ xtic then reduce quotient fuel (quotient xtic) (suffixCnt + 1)
    else (xtic, suffixCnt)

/-- The label of row `x`. -/
def xticText (quotient : Int → Int) (x : Int) : Text :=
  match reduce quotient x.toNat x 0 with
  | (_, 0) => intText x
  | (xtic, 1) => intText xtic ++ ['K']
  | (xtic, 2) => intText xtic ++ ['M']
  | (xtic, _) => intText xtic

section Main
variable {V : Type} [LinearOrder V] (float : Text → Option V) (mean : V → V → V)
  (quotient : Int → Int) (content : Text → Option Text)

/-- `parse(filename)[args.yaxis]` -/
def parseFile (yaxis : YAxis) (filename : Text) : Option V := do
  let text ← content filename
  let d ← parse float mean text
  return match yaxis with
    | .iops => d.iops
    | .bps => d.bps

def cell (files : List Text) (xkey vkey : Key) (yaxis : YAxis) (x v : Int) : Option V :=
  (findFileByKey [formatKey xkey x, formatKey vkey v] files).bind
    (parseFile float mean content yaxis)

def main (files : List Text) (xkey vkey : Key) (yaxis : YAxis) : Option (Table V) := do
  let xkeys ← variants files xkey.name
  let vkeys ← variants files vkey.name
  let rows ← xkeys.mapM fun x => do
    let cells ← vkeys.mapM fun v => cell float mean content files xkey vkey yaxis x v
    return { xtic := xticText quotient x, cells := cells }
  return { xkeys := xkeys, vkeys := vkeys, rows := rows }

end Main

end Nvpkt.Source.ParserMain
