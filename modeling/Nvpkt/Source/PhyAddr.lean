import Nvpkt.Library.FixedWidth

/-!
# Physical addresses from the page map

`phy_addr` of `recv-to-pram.c` and `xmit-from-pram.c`, the same text in both. What the
system calls on `/proc/self/pagemap` answer is given; `exit(1)` is `none`. An entry
has the page-frame number in bits 0 to 54 and says in bit 63 whether the page is
present; the kernel hides the number from those who may not see it.
-/

set_option autoImplicit false

namespace Nvpkt.Source.PhyAddr
open Nvpkt.Library.FixedWidth

/-- The answers of the system: for an offset of the page map what `lseek` and `read`
return there, and `entry` as `read` leaves it. -/
structure PageMap where
  fd : Int
  pagesize : Nat
  lseek : Nat → Int
  read : Nat → Int
  entry : Nat → Fin (2 ^ 64)
  pagesize_pos : 0 < pagesize

def PageMap.offset (pm : PageMap) (virt : Nat) : Nat := wrap 64 (virt / pm.pagesize * 8)

def PageMap.entryOf (pm : PageMap) (virt : Nat) : Nat := (pm.entry (pm.offset virt)).val

def pfnMask : Nat := 0x7fffffffffffff

def phyAddr (pm : PageMap) (virt : Nat) : Option Nat :=
  if pm.fd < 0 then none
  else if pm.lseek (pm.offset virt) < 0 then none
  else if pm.read (pm.offset virt) < 1 ∨ pm.entryOf virt = 0 then none
  else some (wrap 64 ((pm.entryOf virt &&& pfnMask) * pm.pagesize + virt % pm.pagesize))

end Nvpkt.Source.PhyAddr
