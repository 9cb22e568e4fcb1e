import Nvpkt.Source.KernelObjects

/-!
# One packet from the device to the wire

`skb_from_sgvec`, `blk_rq_map_from_sgl` and `nvpkt_ioctl_txpkt_one` of
`native-driver/nvpkt.c`. What the kernel calls return is the parameter `Calls`;
what the driver does with it is a return value and the trace of its calls, in
order. Both walks see the scatterlist through `sg_miter_next`, one entry of at
most one page per call, so they run over the list of entries.

Widths are those of the source: `offset`, `len`, `dma_len` and the `sk_buff`
counters are unsigned ints, `length` is a `size_t`, and `c.rw.length` has
sixteen bits.
-/

set_option autoImplicit false

namespace Nvpkt.Source.TxpktOne
open Nvpkt.Library.SegmentList Nvpkt.Library.FixedWidth
open Nvpkt.Source.KernelObjects

/-- A kernel error number; `IS_ERR` recognises exactly these. -/
structure Errno where
  val : Nat
  pos : 0 < val
  le : val ≤ 4095
  deriving DecidableEq, Repr

def EINTR : Errno := ⟨4, by decide, by decide⟩
def ENOMEM : Errno := ⟨12, by decide, by decide⟩

/-- `struct nvpkt_xmit` as copied from user space. -/
structure NvpktXmit where
  len : Fin (2 ^ 64)
  slba : Fin (2 ^ 64)
  count : Fin (2 ^ 64)
  deriving DecidableEq, Repr

/-- Outcomes of the kernel calls made for one packet. `addPcPage j n` is what
the `j`-th `bio_add_pc_page` reports and adds when asked for `n` bytes. -/
structure Calls where
  sglAlloc : Option (List Sg)
  buildSkb : Bool
  allocRequest : Option Errno
  bioKmalloc : Bool
  addPcPage : Nat → Nat → Nat
  addPcPage_le : ∀ j n, addPcPage j n ≤ n
  appendBio : Option Errno
  cancelled : Bool
  status : Nat
  devQueueXmit : Int

inductive Event where
  | sglAlloc (sgl : List Sg)
  | miterStart
  | miterStop
  | buildSkb (data : PagePos)
  | allocRequest
  | bioKmalloc
  | appendBio (bio : List Sg)
  | executeRq (c : RwCommand) (bio : List Sg)
  | devQueueXmit (skb : SkBuff)
  | freeRequest
  deriving DecidableEq, Repr

/-- How a call ends: with a value, or in a null pointer dereference. -/
inductive Exit where
  | ret (value : Int)
  | oops
  deriving DecidableEq, Repr

structure TxResult where
  exit : Exit
  trace : List Event
  deriving DecidableEq, Repr

/-! ### skb_from_sgvec -/

structure SgvecState where
  n : Nat
  offset : Nat
  skb : Option SkBuff
  deriving DecidableEq, Repr

/-- One iteration; `none` when `build_skb` fails. -/
def sgvecStep (k : Kernel) (built : Bool) (length : Nat) (s : SgvecState) (miter : Sg) :
    Option SgvecState :=
  let len := wrap 32 (min miter.len (length - s.offset))
  match s.skb with
  | none =>
    if built then
      some { s with
        skb := some ((buildSkb miter.base).put (wsub 64 len k.sharedInfo))
        offset := wrap 32 (s.offset + len) }
    else none
  | some skb =>
    -- second and later iteration
    some {
      n := s.n + 1
      skb := some { skb.fillPageDesc s.n miter.base len with
        len := wrap 32 (skb.len + len)
        dataLen := wrap 32 (skb.dataLen + len) }
      offset := wrap 32 (s.offset + len) }

def sgvecLoop (k : Kernel) (built : Bool) (length : Nat) :
    List Sg → SgvecState → Option SgvecState
  | [], s => some s
  | miter :: rest, s =>
    if s.offset < length then
      match sgvecStep k built length s miter with
      | some next => sgvecLoop k built length rest next
      | none => none
    else some s

/-- `*pskb` on success; the walk of a failed call is never stopped. -/
def skbFromSgvec (k : Kernel) (calls : Calls) (sgl : List Sg) (length : Nat) :
    Except Errno (Option SkBuff) × List Event :=
  match sgvecLoop k calls.buildSkb length sgl ⟨0, 0, none⟩ with
  | none => (.error ENOMEM, [.miterStart])
  | some s =>
    (.ok s.skb, .miterStart :: (s.skb.toList.map fun skb => .buildSkb skb.data) ++ [.miterStop])

/-! ### blk_rq_map_from_sgl -/

structure BioState where
  offset : Nat
  bio : List Sg
  deriving DecidableEq, Repr

/-- One iteration. The result of `bio_add_pc_page` is only printed. -/
def bioStep (k : Kernel) (calls : Calls) (length : Nat) (s : BioState) (miter : Sg) : BioState :=
  let len := wrap 32 (min miter.len (length - s.offset))
  let dmaLen := if s.offset = 0 then wsub 32 len k.sharedInfo else len
  { bio := s.bio ++ [⟨miter.base, calls.addPcPage s.bio.length dmaLen⟩]
    offset := wrap 32 (s.offset + len) }

def bioLoop (k : Kernel) (calls : Calls) (length : Nat) : List Sg → BioState → BioState
  | [], s => s
  | miter :: rest, s =>
    if s.offset < length then bioLoop k calls length rest (bioStep k calls length s miter) else s

/-- The bio that `blk_rq_append_bio` attaches to the request. -/
def blkRqMapFromSgl (k : Kernel) (calls : Calls) (sgl : List Sg) (length : Nat) :
    Except Errno (List Sg) × List Event :=
  if calls.bioKmalloc then
    let bio := (bioLoop k calls length sgl ⟨0, []⟩).bio
    match calls.appendBio with
    | none => (.ok bio, [.bioKmalloc, .miterStart, .miterStop, .appendBio bio])
    | some e => (.error e, [.bioKmalloc, .miterStart, .miterStop])
  else (.error ENOMEM, [])

/-! ### nvpkt_ioctl_txpkt_one -/

/-- The unsigned int `nblocks`. -/
def nblocks (ns : NvmeNs) (len : Nat) : Nat :=
  let n := wrap 32 (len >>> ns.lbaShift)
  if n = 0 then 1 else n

/-- The command; `length` is stored without a byte swap. -/
def txpktCommand (k : Kernel) (ns : NvmeNs) (npr : NvpktXmit) : RwCommand where
  opcode := nvmeCmdRead
  nsid := cpuToLe k.host 4 ns.nsId
  slba := cpuToLe k.host 8 npr.slba.val
  length := wrap 16 (nblocks ns npr.len.val)

/-- `npr.len + sizeof(struct skb_shared_info)`, a `size_t`. -/
def sglLength (k : Kernel) (npr : NvpktXmit) : Nat := wrap 64 (npr.len.val + k.sharedInfo)

/-- The steps from `blk_execute_rq` on. The status is assigned to `ret`, and
`ret` is assigned again by `dev_queue_xmit`. -/
def executeAndXmit (calls : Calls) (c : RwCommand) (bio : List Sg) (skb : SkBuff) : TxResult :=
  if calls.cancelled then ⟨.ret (-EINTR.val), [.executeRq c bio, .freeRequest]⟩
  else ⟨.ret calls.devQueueXmit, [.executeRq c bio, .devQueueXmit skb, .freeRequest]⟩

def TxResult.after (r : TxResult) (trace : List Event) : TxResult := ⟨r.exit, trace ++ r.trace⟩

/-- Request allocation, mapping and execution, once `skb` is built. -/
def requestAndXmit (k : Kernel) (ns : NvmeNs) (calls : Calls) (npr : NvpktXmit) (sgl : List Sg)
    (skb : SkBuff) : TxResult :=
  let c := txpktCommand k ns npr
  match calls.allocRequest with
  | some e => ⟨.ret (-e.val), []⟩
  | none =>
    match blkRqMapFromSgl k calls sgl npr.len.val with
    | (.error e, mapTrace) => ⟨.ret (-e.val), .allocRequest :: mapTrace ++ [.freeRequest]⟩
    | (.ok bio, mapTrace) =>
      (executeAndXmit calls c bio skb).after (.allocRequest :: mapTrace)

def nvpktIoctlTxpktOne (k : Kernel) (ns : NvmeNs) (calls : Calls) (npr : NvpktXmit) : TxResult :=
  match calls.sglAlloc with
  | none => ⟨.ret (-ENOMEM.val), []⟩
  | some sgl =>
    match skbFromSgvec k calls sgl (sglLength k npr) with
    | (.error e, skbTrace) => ⟨.ret (-e.val), .sglAlloc sgl :: skbTrace⟩
    -- skb->dev is assigned through a null pointer when no entry was walked
    | (.ok none, skbTrace) => ⟨.oops, .sglAlloc sgl :: skbTrace⟩
    | (.ok (some skb), skbTrace) =>
      (requestAndXmit k ns calls npr sgl skb).after (.sglAlloc sgl :: skbTrace)

/-! ### The device's side of the command -/

/-- Bytes a read command transfers: its block count is zero-based. -/
def transferBytes (ns : NvmeNs) (c : RwCommand) : Nat := (c.length + 1) <<< ns.lbaShift

/-- The device byte that a read puts at position `i` of its transfer. -/
def readByte {Byte : Type} (ns : NvmeNs) (disk : Nat → Byte) (c : RwCommand) (i : Nat) : Byte :=
  disk (c.slba <<< ns.lbaShift + i)

/-- Memory after the device has filled the bio's segments in order. -/
def deviceRead {Byte : Type} (k : Kernel) (ns : NvmeNs) (disk : Nat → Byte) (c : RwCommand)
    (bio : List Sg) (memory : Nat → Byte) : Nat → Byte :=
  fill k.byteAddr (readByte ns disk c) (transferBytes ns c) bio 0 memory

end Nvpkt.Source.TxpktOne
