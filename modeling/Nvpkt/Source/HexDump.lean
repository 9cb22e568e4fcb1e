import Nvpkt.Library.FixedWidth
import Nvpkt.Library.HexText

/-!
# What the tools print of a buffer

`hexdump` is the same function in every tool; the one of `recv-to-pram.c` ends with an
empty line more. `dump-nvme.c` prints the blocks it reads, whatever `unvme_read` returns,
and `recv-to-pram.c` the beginning of every packet.
-/

set_option autoImplicit false

namespace Nvpkt.Source.HexDump
open Nvpkt.Library.FixedWidth Nvpkt.Library.HexText

abbrev Text := List Char

def header : Text := ['H', 'e', 'x', ' ', 'd', 'u', 'm', 'p', '\n']

/-- What is printed behind the digits of byte `n`. -/
def blanks (n : Nat) : Text :=
  (if (n + 1) % 2 = 0 then [' '] else []) ++ if (n + 1) % 32 = 0 then ['\n'] else []

/-- `hexdump`; `ending` is what its last `printf` prints. -/
def hexdump (ending : Text) (p : Nat → Nat) (len : Int) : Text :=
  header ++ (List.range len.toNat).flatMap (fun n => hex02 (p n) ++ blanks n) ++ ending

/-! ## dump-nvme -/

/-- The answers of the library, and what the buffer holds behind `unvme_read`. -/
structure Unvme where
  opens : Bool
  allocs : Bool
  buf : Nat → Nat
  buf_lt : ∀ i, buf i < 256

/-- `nblocks * 512`, an unsigned 64-bit number passed for an `int`. -/
def dumpLen (nblocks : Nat) : Int := toSigned 32 (wrap 64 (nblocks * 512))

/-- `main` behind its option loop: what it returns and prints. -/
def dumpNvme (unvme : Unvme) (pci : Text) (nblocks : Nat) : Int × Text :=
  if !unvme.opens then (-1, "failed to open ".toList ++ pci ++ ['\n'])
  else if !unvme.allocs then (0, "failed to alloc buf\n".toList)
  else (0, hexdump ['\n'] unvme.buf (dumpLen nblocks))

/-! ## recv-to-pram -/

/-- A received packet: the length in its slot and the bytes of its buffer. -/
structure Packet where
  len : Nat
  bytes : Nat → Nat
  bytes_lt : ∀ i, bytes i < 256

/-- The dump of a pass of the receive loop. -/
def packetDump (s : Packet) : Text :=
  hexdump ['\n', '\n'] s.bytes (if 128 < s.len then 128 else s.len)

end Nvpkt.Source.HexDump
