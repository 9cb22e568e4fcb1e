import Nvpkt.Source.TxpktOne

/-!
# The two transmit ioctls

`nvpkt_ioctl_txpkt` and `nvpkt_ioctl_txpkt_count` of `native-driver/nvpkt.c`.
`copyFromUser` is the number of bytes `copy_from_user` could not copy. The loop of
the second ioctl calls `nvpkt_ioctl_txpkt_one` and drops its result; it ends at
`npr.count` or in the null pointer dereference of one of its packets.
-/

set_option autoImplicit false

namespace Nvpkt.Source.TxpktIoctl
open Nvpkt.Library.FixedWidth
open Nvpkt.Source.KernelObjects Nvpkt.Source.TxpktOne

def nvpktIoctlTxpkt (k : Kernel) (ns : NvmeNs) (copyFromUser : Nat) (calls : Calls)
    (npr : NvpktXmit) : TxResult :=
  if copyFromUser ≠ 0 then ⟨.ret copyFromUser, []⟩ else nvpktIoctlTxpktOne k ns calls npr

/-- The loop with `rest` packets to go; `calls i` are the kernel's answers for
packet `i`. `count + 1` is an unsigned long, returned as a long. -/
def txpktCountLoop (k : Kernel) (ns : NvmeNs) (calls : Nat → Calls) (npr : NvpktXmit) :
    (rest count : Nat) → TxResult
  | 0, count => ⟨.ret (toSigned 64 (count + 1)), []⟩
  | rest + 1, count =>
    let one := nvpktIoctlTxpktOne k ns (calls count) npr
    match one.exit with
    | .ret _ => (txpktCountLoop k ns calls npr rest (count + 1)).after one.trace
    | .oops => one

def nvpktIoctlTxpktCount (k : Kernel) (ns : NvmeNs) (copyFromUser : Nat) (calls : Nat → Calls)
    (npr : NvpktXmit) : TxResult :=
  if copyFromUser ≠ 0 then ⟨.ret copyFromUser, []⟩
  else txpktCountLoop k ns calls npr npr.count.val 0

end Nvpkt.Source.TxpktIoctl
