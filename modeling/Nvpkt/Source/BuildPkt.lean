import Nvpkt.Library.ByteOrder
import Nvpkt.Source.XmitFromPram

/-!
# The packet of `xmit-from-pram`

`build_pkt` writes an Ethernet, an IPv4 and a UDP header to the front of the mapping and
leaves the rest of it alone. Each length is computed from the `int` that `atoi` made of
the option and passed to `htons`, which takes sixteen bits of it.
-/

set_option autoImplicit false

namespace Nvpkt.Source.BuildPkt
open Nvpkt.Library.ByteOrder

/-- The argument of `htons`. -/
def u16 (n : Int) : Nat := (n % 65536).toNat

/-- `htons` and the store of its result. -/
def htons (v : Nat) : List Nat := (bytes 2 v).reverse

/-- `struct ether_header` -/
def etherHeader : List Nat :=
  [0xff, 0xff, 0xff, 0xff, 0xff, 0xff] ++ [0x01, 0x02, 0x03, 0x04, 0x05, 0x06] ++ htons 0x0800

/-- `struct ip`, from `10.0.0.2` to `10.0.0.1`; nothing is computed for `ip_sum`. -/
def ipHeader (len : Int) : List Nat :=
  [0x45, 0x10] ++ htons (u16 (len - 14)) ++ htons 0 ++ htons 0 ++ [16, 17] ++ htons 0 ++
    [10, 0, 0, 2] ++ [10, 0, 0, 1]

/-- `struct udphdr` -/
def udpHeader (len : Int) : List Nat :=
  htons 60000 ++ htons 60000 ++ htons (u16 (len - 14 - 20)) ++ htons 0

/-- What `mmap` returns. -/
structure Mapping where
  bytes : List Nat
  length_eq : bytes.length = 4096

def buildPkt (buf : Mapping) (len : Int) : Mapping where
  bytes := etherHeader ++ ipHeader len ++ udpHeader len ++ buf.bytes.drop 42
  length_eq := by
    have hlen := buf.length_eq
    simp only [List.length_append, List.length_drop, hlen]
    rfl

/-- The slot length is cut to sixteen bits by its assignment. -/
theorem queueSlot_len (args : XmitFromPram.Args) (txring : Netmap.NetmapRing Netmap.Slot) :
    ((XmitFromPram.queueSlot args txring).slot txring.cur).len = u16 args.pktlen := by
  simp [XmitFromPram.queueSlot, Netmap.NetmapRing.setSlot, u16]

theorem u16_lt (n : Int) : u16 n < 65536 := by
  rw [u16]
  omega

theorem u16_of_nonneg {n : Int} (hlow : 0 ≤ n) (hhigh : n < 65536) : (u16 n : Int) = n := by
  rw [u16]
  omega

end Nvpkt.Source.BuildPkt
