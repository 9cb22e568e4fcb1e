import Nvpkt.Library.CommandLine
import Nvpkt.Source.BuildPkt
import Nvpkt.Source.NvpktIoctl

/-!
# The tools of the native driver

`tools/store-pkt.c` builds a packet of 1024 bytes and writes it to blocks 1 and 2 of the
device; `tools/xmit-pkt.c` has it transmitted, once or as often as its argument says.
`answers` are the kernel's for the one ioctl each of them makes; what it holds besides
them is replaced.
-/

set_option autoImplicit false

namespace Nvpkt.Source.NativeTools
open Nvpkt.Library.CommandLine Nvpkt.Library.FixedWidth
open Nvpkt.Source.KernelObjects Nvpkt.Source.TxpktOne Nvpkt.Source.SubmitIo
open Nvpkt.Source.NvpktIoctl Nvpkt.Source.BuildPkt

variable {Byte : Type}

/-! ## store-pkt -/

/-- `struct ether_header` of the stored packet. -/
def storedEtherHeader : List Nat :=
  [0x7c, 0xfe, 0x90, 0x0b, 0xc6, 0xad] ++ [0x01, 0x02, 0x03, 0x04, 0x05, 0x06] ++ htons 0x0800

def storedHeaders : List Nat := storedEtherHeader ++ ipHeader 1024 ++ udpHeader 1024

/-- `buf`, of which only the headers are written. -/
def storePktBuf (buf : Mapping) : Mapping where
  bytes := storedHeaders ++ buf.bytes.drop 42
  length_eq := by
    have hlen := buf.length_eq
    simp only [List.length_append, List.length_drop, hlen]
    rfl

def storePktIo (addr : Fin (2 ^ 64)) : NvmeUserIo :=
  { opcode := word 8 1, flags := word 8 0, control := word 16 0, nblocks := word 16 1
    addr := addr, slba := word 64 1, dsmgmt := word 32 0, reftag := word 32 0
    apptag := word 16 0, appmask := word 16 0 }

def storePkt (addr : Fin (2 ^ 64)) (answers : Ioctl Byte) : Ioctl Byte :=
  { answers with cmd := word 32 NVPKT_IOCTL_SUBMIT_IO, io := storePktIo addr }

/-! ## xmit-pkt -/

/-- `count`, which `atoi` gives as an int. -/
def xmitCount (argv : List (List Char)) : Fin (2 ^ 64) :=
  match argv with
  | [] => word 64 0
  | arg :: _ => word 64 (atoi arg % 2 ^ 64).toNat

def xmitPkt (argv : List (List Char)) (answers : Ioctl Byte) : Ioctl Byte :=
  let count := xmitCount argv
  { answers with
    cmd := word 32 (if count.val = 0 then NVPKT_IOCTL_TXPKT else NVPKT_IOCTL_TXPKT_COUNT)
    npr := { len := word 64 1024, slba := word 64 1, count := count } }

/-! ## What the tools return -/

/-- `ioctl` of the C library: a kernel error becomes -1, any other value an int. -/
def ioctlRet (value : Int) : Int :=
  if -4095 ≤ value ∧ value < 0 then -1 else toSigned 32 (value % 2 ^ 32).toNat

/-- The value of `main`, unless the tool is killed inside its ioctl. -/
def mainRet (fd : Int) (exit : Exit) : Option Int :=
  if fd < 0 then some fd
  else
    match exit with
    | .ret value => some (ioctlRet value)
    | .oops => none

end Nvpkt.Source.NativeTools
