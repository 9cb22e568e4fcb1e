import Nvpkt.Library.ByteOrder
import Nvpkt.Source.KernelObjects

/-!
# The shared info in memory

`build_skb` keeps `struct skb_shared_info` in the buffer it is given, behind the linear
part, and `skb_fill_page_desc` writes the fragments to it. So the fragments that
`dev_queue_xmit` sends are what this memory says at that time, which a read into the
buffer may have changed. The layout of the structure is the kernel's: it is a parameter,
and `x86Info` is the one of an x86-64 build.
-/

set_option autoImplicit false

namespace Nvpkt.Source.SharedInfo
open Nvpkt.Library.SegmentList Nvpkt.Library.FixedWidth Nvpkt.Library.ByteOrder
open Nvpkt.Source.KernelObjects

/-- A fragment whose page is one of a 64-bit address space. -/
def Describable (k : Kernel) (frag : Sg) : Prop :=
  frag.base.page * k.pageSize < 2 ^ 64 ∧ frag.base.offset < 2 ^ 32 ∧ frag.len < 2 ^ 32

/-- `store` are the bytes when the fragments are filled in, given those that were there;
`load` are the fragments that are sent, `none` where the bytes are not those of a list
of fragments and nothing else. -/
structure InfoLayout (Byte : Type) (k : Kernel) where
  store : List Sg → (Nat → Byte) → Nat → Byte
  load : (Nat → Byte) → Option (List Sg)
  load_congr : ∀ bytes bytes' : Nat → Byte,
    (∀ i < k.sharedInfo, bytes i = bytes' i) → load bytes = load bytes'
  load_store : ∀ (frags : List Sg) (stale : Nat → Byte), frags.length ≤ k.maxSkbFrags →
    (∀ frag ∈ frags, Describable k frag) → load (store frags stale) = some frags

variable {Byte : Type} {k : Kernel}

/-- `skb_headlen`. -/
def headlen (skb : SkBuff) : Nat := wsub 32 skb.len skb.dataLen

/-- Where the shared info begins. `skb_put` makes the linear part as long as the buffer
lets it be. -/
def infoAddr (k : Kernel) (skb : SkBuff) : Nat := k.byteAddr skb.data (headlen skb)

/-- Memory when `skb_from_sgvec` has returned. -/
def builtMemory (lay : InfoLayout Byte k) (skb : SkBuff) (memory : Nat → Byte) (a : Nat) : Byte :=
  if infoAddr k skb ≤ a ∧ a < infoAddr k skb + k.sharedInfo then
    lay.store skb.frags (fun i => memory (infoAddr k skb + i)) (a - infoAddr k skb)
  else memory a

/-- What `dev_queue_xmit` sends: the linear part, and the fragments it finds. -/
def sentSegs (lay : InfoLayout Byte k) (skb : SkBuff) (memory : Nat → Byte) : Option (List Sg) :=
  (lay.load fun i => memory (infoAddr k skb + i)).map fun frags =>
    ⟨skb.data, headlen skb⟩ :: frags

theorem builtMemory_outside (lay : InfoLayout Byte k) (skb : SkBuff) (memory : Nat → Byte)
    {a : Nat} (h : a < infoAddr k skb ∨ infoAddr k skb + k.sharedInfo ≤ a) :
    builtMemory lay skb memory a = memory a := if_neg (by omega)

theorem builtMemory_info (lay : InfoLayout Byte k) (skb : SkBuff) (memory : Nat → Byte) {i : Nat}
    (hi : i < k.sharedInfo) : builtMemory lay skb memory (infoAddr k skb + i) =
      lay.store skb.frags (fun j => memory (infoAddr k skb + j)) i := by
  rw [builtMemory, if_pos (by omega), Nat.add_sub_cancel_left]

/-- As long as nobody writes to the shared info, what was built is sent. -/
theorem sentSegs_built (lay : InfoLayout Byte k) (skb : SkBuff) (memory later : Nat → Byte)
    (hcount : skb.frags.length ≤ k.maxSkbFrags) (hfrags : ∀ frag ∈ skb.frags, Describable k frag)
    (hkept : ∀ i < k.sharedInfo, later (infoAddr k skb + i) =
      builtMemory lay skb memory (infoAddr k skb + i)) :
    sentSegs lay skb later = some skb.segs := by
  have hload : lay.load (fun i => later (infoAddr k skb + i)) = some skb.frags := by
    rw [lay.load_congr _ (lay.store skb.frags fun j => memory (infoAddr k skb + j))
      (fun i hi => (hkept i hi).trans (builtMemory_info lay skb memory hi))]
    exact lay.load_store skb.frags _ hcount hfrags
  rw [sentSegs, hload]
  rfl

/-! ## The layout of an x86-64 build -/

/-- Where `struct page` of page 0 is. -/
def vmemmap : Nat := 0xffffea0000000000

/-- `skb_frag_t`: the pointer to a `struct page` of 64 bytes, the offset and the size. -/
def fragBytes (frag : Sg) : List Nat :=
  bytes 8 (vmemmap + 64 * frag.base.page) ++ (bytes 4 frag.base.offset ++ bytes 4 frag.len)

/-- `nr_frags` is byte 2 and `frags` begin at byte 48; `build_skb` has cleared what is in
front of `dataref` and set that to 1. -/
def storeInfo (frags : List Sg) (stale : Nat → Nat) (i : Nat) : Nat :=
  if i < 36 then if i = 2 then frags.length else if i = 32 then 1 else 0
  else if 48 ≤ i then (frags.flatMap fragBytes).getD (i - 48) (stale i)
  else stale i

/-- A number of `width` bytes. -/
def field (info : Nat → Nat) (first width : Nat) : Nat :=
  Nat.ofDigits 256 ((List.range width).map fun i => info (first + i))

def loadFrag (info : Nat → Nat) (n : Nat) : Sg where
  base :=
    { page := wsub 64 (field info (48 + 16 * n) 8) vmemmap / 64
      offset := field info (48 + 16 * n + 8) 4 }
  len := field info (48 + 16 * n + 12) 4

/-- A segment size (byte 4) or a `frag_list` (byte 8) would make other packets of it. -/
def loadInfo (info : Nat → Nat) : Option (List Sg) :=
  if info 2 ≤ 17 ∧ field info 4 2 = 0 ∧ field info 8 8 = 0 then
    some ((List.range (info 2)).map (loadFrag info))
  else none

theorem length_fragBytes (frag : Sg) : (fragBytes frag).length = 16 := by
  simp only [fragBytes, List.length_append, length_bytes]

/-- Byte `j` of a descriptor. -/
theorem storeInfo_frag (frags : List Sg) (stale : Nat → Nat) {n j : Nat} {frag : Sg}
    (hn : frags[n]? = some frag) (hj : j < 16) :
    (fragBytes frag)[j]? = some (storeInfo frags stale (48 + 16 * n + j)) := by
  have hbyte := getElem?_records length_fragBytes frags n j hj
  rw [hn, Option.bind_some] at hbyte
  obtain ⟨b, hb⟩ : ∃ b, (fragBytes frag)[j]? = some b :=
    ⟨_, List.getElem?_eq_getElem (by rw [length_fragBytes]; exact hj)⟩
  have hpos : 48 + 16 * n + j - 48 = 16 * n + j := by omega
  rw [storeInfo, if_neg (by omega), if_pos (by omega), hpos, List.getD_eq_getElem?_getD, hbyte, hb]
  rfl

/-- A stretch of a descriptor that holds a number. -/
theorem field_frag (frags : List Sg) (stale : Nat → Nat) {n : Nat} {frag : Sg}
    (hn : frags[n]? = some frag) (before : List Nat) (width : Nat) {v : Nat} {after : List Nat}
    (hfrag : fragBytes frag = before ++ (bytes width v ++ after)) :
    field (storeInfo frags stale) (48 + 16 * n + before.length) width = v % 256 ^ width := by
  have hlen := length_fragBytes frag
  rw [hfrag, List.length_append, List.length_append, length_bytes] at hlen
  have hbytes : ((List.range width).map fun i =>
      storeInfo frags stale (48 + 16 * n + before.length + i)) = bytes width v := by
    apply List.ext_getElem?
    intro i
    by_cases hi : i < width
    · have hstored := storeInfo_frag frags stale hn (j := before.length + i) (by omega)
      rw [hfrag, List.getElem?_append_right (by omega), Nat.add_sub_cancel_left,
        List.getElem?_append_left (by rw [length_bytes]; exact hi)] at hstored
      rw [hstored, List.getElem?_map, List.getElem?_range hi, Option.map_some,
        Nat.add_assoc (48 + 16 * n)]
    · rw [List.getElem?_eq_none (by simpa using hi),
        List.getElem?_eq_none (by simpa [length_bytes] using hi)]
  rw [field, hbytes, ofDigits_bytes]

theorem loadFrag_stored (frags : List Sg) (stale : Nat → Nat) {n : Nat} {frag : Sg}
    (hn : frags[n]? = some frag) (hfits : Describable x86_64 frag) :
    loadFrag (storeInfo frags stale) n = frag := by
  obtain ⟨hpage, hoffset, hlen⟩ := hfits
  have hpage' : frag.base.page * 4096 < 2 ^ 64 := hpage
  have hend : fragBytes frag = bytes 8 (vmemmap + 64 * frag.base.page) ++
      bytes 4 frag.base.offset ++ (bytes 4 frag.len ++ []) := by
    rw [fragBytes, List.append_assoc, List.append_nil]
  have hptr := field_frag frags stale hn [] 8 rfl
  have hoff := field_frag frags stale hn (bytes 8 _) 4 rfl
  have hsize := field_frag frags stale hn _ 4 hend
  simp only [List.length_nil, List.length_append, length_bytes, Nat.add_zero] at hptr hoff hsize
  have hpages : wsub 64 ((vmemmap + 64 * frag.base.page) % 256 ^ 8) vmemmap / 64 =
      frag.base.page := by
    simp only [wsub, vmemmap]
    omega
  have hwidth : 256 ^ 4 = 2 ^ 32 := by decide
  rw [loadFrag, hptr, hoff, hsize, hpages, hwidth, Nat.mod_eq_of_lt hoffset, Nat.mod_eq_of_lt hlen]

theorem loadInfo_store (frags : List Sg) (stale : Nat → Nat) (hcount : frags.length ≤ 17)
    (hfrags : ∀ frag ∈ frags, Describable x86_64 frag) :
    loadInfo (storeInfo frags stale) = some frags := by
  have htwo : storeInfo frags stale 2 = frags.length := rfl
  have hclear : ∀ i < 36, i ≠ 2 → i ≠ 32 → storeInfo frags stale i = 0 := by
    intro i hi htwo href
    rw [storeInfo, if_pos hi, if_neg htwo, if_neg href]
  have hgso : field (storeInfo frags stale) 4 2 = 0 := by
    simp [field, List.range_succ, hclear, Nat.ofDigits_cons]
  have hlist : field (storeInfo frags stale) 8 8 = 0 := by
    simp [field, List.range_succ, hclear, Nat.ofDigits_cons]
  rw [loadInfo, if_pos ⟨htwo ▸ hcount, hgso, hlist⟩]
  apply congrArg some
  apply List.ext_getElem?
  intro n
  rw [htwo, List.getElem?_map]
  by_cases hn : n < frags.length
  · have hfrag := List.getElem?_eq_getElem hn
    rw [List.getElem?_range hn, hfrag, Option.map_some,
      loadFrag_stored frags stale hfrag (hfrags _ (List.getElem_mem hn))]
  · rw [List.getElem?_eq_none (by simpa using hn), List.getElem?_eq_none (by omega)]
    rfl

theorem field_congr {info info' : Nat → Nat} {first width n : Nat}
    (h : ∀ i < n, info i = info' i) (hn : first + width ≤ n) :
    field info first width = field info' first width := by
  have hsame : ((List.range width).map fun i => info (first + i)) =
      (List.range width).map fun i => info' (first + i) := by
    refine List.map_congr_left fun i hi => h _ ?_
    have := List.mem_range.mp hi
    omega
  rw [field, field, hsame]

theorem loadInfo_congr (info info' : Nat → Nat) (h : ∀ i < 320, info i = info' i) :
    loadInfo info = loadInfo info' := by
  have hfrag : ∀ n < 17, loadFrag info n = loadFrag info' n := by
    intro n hn
    have hptr : field info (48 + 16 * n) 8 = field info' (48 + 16 * n) 8 :=
      field_congr h (by omega)
    have hoff : field info (48 + 16 * n + 8) 4 = field info' (48 + 16 * n + 8) 4 :=
      field_congr h (by omega)
    have hsize : field info (48 + 16 * n + 12) 4 = field info' (48 + 16 * n + 12) 4 :=
      field_congr h (by omega)
    rw [loadFrag, loadFrag, hptr, hoff, hsize]
  have hcount : info 2 = info' 2 := h 2 (by omega)
  have hgso : field info 4 2 = field info' 4 2 := field_congr h (by omega)
  have hlist : field info 8 8 = field info' 8 8 := field_congr h (by omega)
  rw [loadInfo, loadInfo, hcount, hgso, hlist]
  by_cases hok : info' 2 ≤ 17 ∧ field info' 4 2 = 0 ∧ field info' 8 8 = 0
  · have hall : (List.range (info' 2)).map (loadFrag info) =
        (List.range (info' 2)).map (loadFrag info') := by
      apply List.map_congr_left
      intro n hn
      have hlt : n < info' 2 := List.mem_range.mp hn
      have hfits : info' 2 ≤ 17 := hok.1
      exact hfrag n (Nat.lt_of_lt_of_le hlt hfits)
    rw [if_pos hok, if_pos hok, hall]
  · rw [if_neg hok, if_neg hok]

/-- `struct skb_shared_info` of an x86-64 build. -/
def x86Info : InfoLayout Nat x86_64 where
  store := storeInfo
  load := loadInfo
  load_congr := loadInfo_congr
  load_store := loadInfo_store

theorem x86Info_load : x86Info.load = loadInfo := rfl

/-- Zeros are no fragments. -/
theorem x86Info_zeros {info : Nat → Nat} (h : ∀ i < 16, info i = 0) :
    x86Info.load info = some [] := by
  have hgso : field info 4 2 = 0 := by simp [field, List.range_succ, h, Nat.ofDigits_cons]
  have hlist : field info 8 8 = 0 := by simp [field, List.range_succ, h, Nat.ofDigits_cons]
  rw [x86Info_load, loadInfo, h 2 (by omega), if_pos ⟨by omega, hgso, hlist⟩]
  rfl

end Nvpkt.Source.SharedInfo
