import Nvpkt.Library.SegmentList
import Nvpkt.Library.FixedWidth

/-!
# Kernel objects used by the native driver

The parts of the kernel API that `native-driver/nvpkt.c` works on: scatterlist
entries, page fragments and bio vectors (all three are a page, an offset and a
length), the `sk_buff` they are assembled into, and the device command. Only the
fields the driver reads or writes are kept.

`SglAllocated` is what `sgl_alloc` promises about the list it returns. Its
`fits` field is the overflow check of that function: the number of entries is an
unsigned int, and a length whose pages it cannot count is refused.
-/

set_option autoImplicit false

namespace Nvpkt.Source.KernelObjects
open Nvpkt.Library.SegmentList Nvpkt.Library.FixedWidth

/-- Byte order of the CPU the module is built for. -/
inductive Host where
  | little | big
  deriving DecidableEq, Repr

/-- Build-time constants. `sharedInfo` is `sizeof(struct skb_shared_info)`. -/
structure Kernel where
  host : Host
  pageSize : Nat
  sharedInfo : Nat
  maxSkbFrags : Nat
  sharedInfo_pos : 0 < sharedInfo
  two_sharedInfo_le : 2 * sharedInfo ≤ pageSize
  sharedInfo_lt : sharedInfo < 2 ^ 16
  frags_lt : pageSize * (maxSkbFrags + 1) < 2 ^ 32

/-- An x86-64 build: 4 KiB pages and 17 fragments in an `sk_buff`. -/
def x86_64 : Kernel where
  host := .little
  pageSize := 4096
  sharedInfo := 320
  maxSkbFrags := 17
  sharedInfo_pos := by decide
  two_sharedInfo_le := by decide
  sharedInfo_lt := by decide
  frags_lt := by decide

theorem Kernel.pageSize_pos (k : Kernel) : 0 < k.pageSize := by
  have := k.sharedInfo_pos
  have := k.two_sharedInfo_le
  omega

structure PagePos where
  page : Nat
  offset : Nat
  deriving DecidableEq, Repr

/-- Physical address of byte `i` behind a page position. -/
def Kernel.byteAddr (k : Kernel) (p : PagePos) (i : Nat) : Nat :=
  p.page * k.pageSize + p.offset + i

/-- A scatterlist entry as `sg_mapping_iter` exposes it; also `skb_frag_t` and `bio_vec`. -/
abbrev Sg := Seg PagePos

/-- Entry lengths of a list for `n` bytes: whole pages and one shorter last entry. -/
def pageLengths (k : Kernel) (n : Nat) : List Nat :=
  List.replicate (n / k.pageSize) k.pageSize ++
    if n % k.pageSize = 0 then [] else [n % k.pageSize]

/-- The scatterlists `sgl_alloc(n, ...)` may return. -/
structure SglAllocated (k : Kernel) (n : Nat) (sgl : List Sg) : Prop where
  lengths : sgl.map (·.len) = pageLengths k n
  offsets : ∀ e ∈ sgl, e.base.offset = 0
  pages : (sgl.map (·.base.page)).Nodup
  fits : n + k.pageSize ≤ 2 ^ 32

/-- `struct sk_buff`: linear data at `data`, then `frags` of its shared info. -/
structure SkBuff where
  data : PagePos
  len : Nat
  dataLen : Nat
  frags : List Sg
  deriving DecidableEq, Repr

def buildSkb (data : PagePos) : SkBuff := ⟨data, 0, 0, []⟩

/-- `skb_put`: extends the linear part at its tail. -/
def SkBuff.put (skb : SkBuff) (n : Nat) : SkBuff := { skb with len := wrap 32 (skb.len + n) }

/-- `skb_fill_page_desc`: writes fragment `i` and makes it the last one. -/
def SkBuff.fillPageDesc (skb : SkBuff) (i : Nat) (page : PagePos) (size : Nat) : SkBuff :=
  { skb with frags := skb.frags.take i ++ [⟨page, size⟩] }

/-- The frame in wire order: `skb_headlen` linear bytes, then the fragments. -/
def SkBuff.segs (skb : SkBuff) : List Sg := ⟨skb.data, wsub 32 skb.len skb.dataLen⟩ :: skb.frags

/-- The read-write command fields the driver fills, as stored in memory. -/
structure RwCommand where
  opcode : Nat
  nsid : Nat
  slba : Nat
  length : Nat
  deriving DecidableEq, Repr

def nvmeCmdRead : Nat := 0x02

/-- A byte swap of a `width`-byte value. -/
def swab : Nat → Nat → Nat
  | 0, _ => 0
  | width + 1, v => v % 256 * 256 ^ width + swab width (v / 256)

/-- `cpu_to_le16`, `cpu_to_le32` and `cpu_to_le64` for two, four and eight bytes. -/
def cpuToLe (host : Host) (width v : Nat) : Nat :=
  match host with
  | .little => v % 256 ^ width
  | .big => swab width v

/-- `struct nvme_ns`, as far as a transfer depends on it. -/
structure NvmeNs where
  nsId : Nat
  lbaShift : Nat
  deriving DecidableEq, Repr

theorem pageLengths_sum (k : Kernel) (n : Nat) : (pageLengths k n).sum = n := by
  have hdiv := Nat.div_add_mod n k.pageSize
  unfold pageLengths
  rw [List.sum_append, List.sum_replicate_nat, Nat.mul_comm]
  split
  · simp
    omega
  · simp
    omega

theorem pageLengths_bounds (k : Kernel) (n len : Nat) (h : len ∈ pageLengths k n) :
    0 < len ∧ len ≤ k.pageSize := by
  have hp := k.pageSize_pos
  have hm := Nat.mod_lt n hp
  unfold pageLengths at h
  rcases List.mem_append.mp h with hr | hl
  · have := List.eq_of_mem_replicate hr
    omega
  · split at hl
    · simp at hl
    · simp only [List.mem_singleton] at hl
      omega

/-- A list of `m` pages holds `m * pageSize` bytes. -/
theorem pageLengths_length_le_iff (k : Kernel) (n m : Nat) :
    (pageLengths k n).length ≤ m ↔ n ≤ k.pageSize * m := by
  have hdiv := Nat.div_add_mod n k.pageSize
  have hm := Nat.mod_lt n k.pageSize_pos
  unfold pageLengths
  rw [List.length_append, List.length_replicate]
  generalize n / k.pageSize = pages at hdiv ⊢
  generalize n % k.pageSize = last at hdiv hm ⊢
  constructor
  · intro h
    have hmul := Nat.mul_le_mul_left k.pageSize h
    rw [Nat.mul_add] at hmul
    by_cases hlast : last = 0
    · rw [if_pos hlast, List.length_nil] at hmul
      omega
    · rw [if_neg hlast, List.length_singleton] at hmul
      omega
  · intro h
    by_contra hless
    by_cases hlast : last = 0
    · rw [if_pos hlast, List.length_nil] at hless
      have hmul : k.pageSize * (m + 1) ≤ k.pageSize * pages := Nat.mul_le_mul_left _ (by omega)
      rw [Nat.mul_succ] at hmul
      omega
    · rw [if_neg hlast, List.length_singleton] at hless
      have hmul : k.pageSize * m ≤ k.pageSize * pages := Nat.mul_le_mul_left _ (by omega)
      omega

/-- The first entry is a whole page unless the list is shorter than one. -/
theorem pageLengths_head (k : Kernel) (n first : Nat) (rest : List Nat)
    (h : pageLengths k n = first :: rest) : first = min k.pageSize n := by
  have hm := Nat.mod_lt n k.pageSize_pos
  have hdiv := Nat.div_add_mod n k.pageSize
  unfold pageLengths at h
  cases hq : n / k.pageSize with
  | zero =>
    rw [hq] at h hdiv
    split at h
    · simp at h
    · simp only [List.replicate_zero, List.nil_append, List.cons.injEq] at h
      omega
  | succ q =>
    rw [hq] at h hdiv
    simp only [List.replicate_succ, List.cons_append, List.cons.injEq] at h
    rw [Nat.mul_succ] at hdiv
    omega

namespace SglAllocated
variable {k : Kernel} {n : Nat} {sgl : List Sg}

theorem total_eq (h : SglAllocated k n sgl) : total sgl = n := by
  rw [total_eq_sum, h.lengths, pageLengths_sum]

theorem length_le_iff (h : SglAllocated k n sgl) (m : Nat) :
    sgl.length ≤ m ↔ n ≤ k.pageSize * m := by
  rw [← pageLengths_length_le_iff, ← h.lengths, List.length_map]

theorem len_bounds (h : SglAllocated k n sgl) (e : Sg) (he : e ∈ sgl) :
    0 < e.len ∧ e.len ≤ k.pageSize := by
  apply pageLengths_bounds k n
  rw [← h.lengths]
  exact List.mem_map_of_mem he

theorem head_len {e : Sg} {rest : List Sg} (h : SglAllocated k n (e :: rest)) :
    e.len = min k.pageSize n := by
  have hl := h.lengths
  rw [List.map_cons] at hl
  exact pageLengths_head k n _ _ hl.symm

/-- At most one page of data makes a list of one entry. -/
theorem singleton (h : SglAllocated k n sgl) (hn : 0 < n) (hp : n ≤ k.pageSize) :
    ∃ e, sgl = [e] ∧ e.len = n ∧ e.base.offset = 0 := by
  cases sgl with
  | nil =>
    have := h.total_eq
    simp at this
    omega
  | cons e rest =>
    have hlen := h.head_len
    have htotal := h.total_eq
    rw [total_cons] at htotal
    cases rest with
    | nil => exact ⟨e, rfl, by omega, h.offsets e (by simp)⟩
    | cons f rest =>
      have hf := h.len_bounds f (by simp)
      rw [total_cons] at htotal
      omega

/-- No two bytes of an allocated list share a physical address. -/
theorem separated (h : SglAllocated k n sgl) : Separated k.byteAddr sgl := by
  constructor
  · intro e _ i _ j _ he
    simp only [Kernel.byteAddr] at he
    omega
  · have hpages : sgl.Pairwise (fun e f => e.base.page ≠ f.base.page) :=
      List.pairwise_map.mp h.pages
    refine hpages.imp_of_mem ?_
    intro e f he hf hne i hi j hj heq
    have hei := (h.len_bounds e he).2
    have hfj := (h.len_bounds f hf).2
    simp only [Kernel.byteAddr, h.offsets e he, h.offsets f hf, Nat.add_zero] at heq
    have hpe : (e.base.page * k.pageSize + i) / k.pageSize = e.base.page := by
      rw [Nat.mul_comm, Nat.mul_add_div k.pageSize_pos, Nat.div_eq_of_lt (by omega), Nat.add_zero]
    have hpf : (f.base.page * k.pageSize + j) / k.pageSize = f.base.page := by
      rw [Nat.mul_comm, Nat.mul_add_div k.pageSize_pos, Nat.div_eq_of_lt (by omega), Nat.add_zero]
    exact hne (hpe.symm.trans ((congrArg (· / k.pageSize) heq).trans hpf))

end SglAllocated

end Nvpkt.Source.KernelObjects
