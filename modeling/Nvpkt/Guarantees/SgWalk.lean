import Nvpkt.Source.SharedInfo
import Nvpkt.Source.TxpktOne

/-!
# What the two scatterlist walks build

Both walks of a TXPKT visit the scatterlist front to back and stop after
`length` bytes, so each is a `clip` of the list: `skb_from_sgvec` at
`len + sizeof(struct skb_shared_info)`, `blk_rq_map_from_sgl` at `len`. Each then
drops the shared info from the end of its first entry, the frame by `skb_put`
and the bio by shortening `dma_len`.

The results here are per walk. Where the two clips differ is the subject of
`TxpktPayload` and `TxpktDma`.
-/

set_option autoImplicit false

namespace Nvpkt.Guarantees.SgWalk
open Nvpkt.Library.SegmentList Nvpkt.Library.FixedWidth
open Nvpkt.Source.KernelObjects Nvpkt.Source.SharedInfo Nvpkt.Source.TxpktOne

/-- The `sk_buff` that a walk over `length` bytes of `e :: rest` is meant to leave. -/
def walkedSkb (k : Kernel) (e : Sg) (rest : List Sg) (length : Nat) : SkBuff where
  data := e.base
  len := total (clip (e :: rest) length) - k.sharedInfo
  dataLen := total (clip rest (length - e.len))
  frags := clip rest (length - e.len)

/-- The bio of a walk over `length` bytes of `e :: rest`, every page added in full. -/
def mappedBio (k : Kernel) (e : Sg) (rest : List Sg) (length : Nat) : List Sg :=
  ⟨e.base, wsub 32 (min e.len length) k.sharedInfo⟩ :: clip rest (length - e.len)

/-- Later iterations append one fragment each and keep the counters in step. -/
theorem sgvecLoop_frags (k : Kernel) (built : Bool) (length : Nat) (hl : length < 2 ^ 32)
    (pieces : List Sg) (s : SgvecState) (skb : SkBuff) (hskb : s.skb = some skb)
    (hn : s.n = skb.frags.length) (ho : s.offset ≤ length)
    (hlen : skb.len + (length - s.offset) < 2 ^ 32)
    (hdata : skb.dataLen + (length - s.offset) < 2 ^ 32) :
    sgvecLoop k built length pieces s =
      some ⟨s.n + (clip pieces (length - s.offset)).length,
        s.offset + total (clip pieces (length - s.offset)),
        some { skb with
          len := skb.len + total (clip pieces (length - s.offset))
          dataLen := skb.dataLen + total (clip pieces (length - s.offset))
          frags := skb.frags ++ clip pieces (length - s.offset) }⟩ := by
  induction pieces generalizing s skb with
  | nil => simp [sgvecLoop, clip, ← hskb]
  | cons miter rest ih =>
    by_cases hlt : s.offset < length
    · have hmin : wrap 32 (min miter.len (length - s.offset)) = min miter.len (length - s.offset) :=
        wrap_of_lt (by omega)
      have hoff : wrap 32 (s.offset + min miter.len (length - s.offset)) =
          s.offset + min miter.len (length - s.offset) := wrap_of_lt (by omega)
      have hlen' : wrap 32 (skb.len + min miter.len (length - s.offset)) =
          skb.len + min miter.len (length - s.offset) := wrap_of_lt (by omega)
      have hdata' : wrap 32 (skb.dataLen + min miter.len (length - s.offset)) =
          skb.dataLen + min miter.len (length - s.offset) := wrap_of_lt (by omega)
      have hclip : clip rest (length - (s.offset + min miter.len (length - s.offset))) =
          clip rest (length - s.offset - miter.len) := by
        congr 1
        omega
      have hrun := ih ⟨s.n + 1, s.offset + min miter.len (length - s.offset),
          some { skb.fillPageDesc s.n miter.base (min miter.len (length - s.offset)) with
            len := skb.len + min miter.len (length - s.offset)
            dataLen := skb.dataLen + min miter.len (length - s.offset) }⟩ _ rfl
        (by simp [SkBuff.fillPageDesc, hn]) (by simp only; omega) (by simp only; omega)
        (by simp only; omega)
      simp only [sgvecLoop, if_pos hlt, sgvecStep, hskb, hmin, hoff, hlen', hdata', hrun, hclip]
      rw [clip_cons _ _ _ (by omega)]
      simp [SkBuff.fillPageDesc, hn, Nat.add_assoc, Nat.add_comm 1]
    · have hz : length - s.offset = 0 := by omega
      simp [sgvecLoop, hlt, hz, ← hskb]

/-- The first consumed entry is linear, without its shared info; the others are fragments,
numbered in their order. -/
theorem sgvecLoop_eq (k : Kernel) (e : Sg) (rest : List Sg) (length : Nat)
    (hl : length < 2 ^ 32) (hpos : 0 < length) (hinfo : k.sharedInfo ≤ min e.len length) :
    sgvecLoop k true length (e :: rest) ⟨0, 0, none⟩ =
      some ⟨(walkedSkb k e rest length).frags.length, total (clip (e :: rest) length),
        some (walkedSkb k e rest length)⟩ := by
  have hmin : wrap 32 (min e.len length) = min e.len length := wrap_of_lt (by omega)
  have hput : wsub 64 (min e.len length) k.sharedInfo = min e.len length - k.sharedInfo :=
    wsub_of_le hinfo (by omega)
  have hlen : wrap 32 (0 + (min e.len length - k.sharedInfo)) =
      min e.len length - k.sharedInfo := by
    rw [Nat.zero_add]
    exact wrap_of_lt (by omega)
  have hrest : length - min e.len length = length - e.len := by omega
  have hclip := total_clip rest (length - e.len)
  have hrun := sgvecLoop_frags k true length hl rest
    ⟨0, min e.len length, some ((buildSkb e.base).put (min e.len length - k.sharedInfo))⟩ _ rfl rfl
    (by simp only; omega) (by simp only [SkBuff.put, buildSkb, hlen]; omega)
    (by simp only [SkBuff.put, buildSkb]; omega)
  have hfirst : sgvecStep k true length ⟨0, 0, none⟩ e =
      some ⟨0, min e.len length,
        some ((buildSkb e.base).put (min e.len length - k.sharedInfo))⟩ := by
    simp [sgvecStep, hmin, hput]
  simp only [sgvecLoop, if_pos hpos, hfirst, hrun]
  simp only [hrest, walkedSkb, SkBuff.put, buildSkb, hlen]
  rw [clip_cons _ _ _ hpos, total_cons]
  simp
  omega

theorem skbFromSgvec_eq (k : Kernel) (calls : Calls) (e : Sg) (rest : List Sg) (length : Nat)
    (built : calls.buildSkb = true) (hl : length < 2 ^ 32) (hpos : 0 < length)
    (hinfo : k.sharedInfo ≤ min e.len length) :
    skbFromSgvec k calls (e :: rest) length =
      (.ok (some (walkedSkb k e rest length)), [.miterStart, .buildSkb e.base, .miterStop]) := by
  have hloop := sgvecLoop_eq k e rest length hl hpos hinfo
  simp [skbFromSgvec, built, hloop, walkedSkb]

/-- Over an allocated list the fragments are the entries behind the first. -/
theorem walkedSkb_frags {k : Kernel} {e : Sg} {rest : List Sg} {length : Nat}
    (alloc : SglAllocated k length (e :: rest)) : (walkedSkb k e rest length).frags = rest := by
  have htotal := alloc.total_eq
  rw [total_cons] at htotal
  exact clip_all (fun s hs => (alloc.len_bounds s (List.mem_cons_of_mem e hs)).1) (by omega)

/-- The linear part of the walked frame. -/
theorem walkedSkb_headlen (k : Kernel) (e : Sg) (rest : List Sg) (length : Nat)
    (hl : length < 2 ^ 32) (hpos : 0 < length) (hinfo : k.sharedInfo ≤ min e.len length) :
    headlen (walkedSkb k e rest length) = min e.len length - k.sharedInfo := by
  have hclip := total_clip rest (length - e.len)
  simp only [headlen, walkedSkb]
  rw [clip_cons _ _ _ hpos, total_cons, wsub_of_le (by simp only; omega) (by simp only; omega)]
  simp only
  omega

/-- The walked frame is the clip of the list with the shared info removed. -/
theorem walkedSkb_segs (k : Kernel) (e : Sg) (rest : List Sg) (length : Nat)
    (hl : length < 2 ^ 32) (hpos : 0 < length) (hinfo : k.sharedInfo ≤ min e.len length) :
    (walkedSkb k e rest length).segs = trimHead k.sharedInfo (clip (e :: rest) length) := by
  have hhead := walkedSkb_headlen k e rest length hl hpos hinfo
  rw [clip_cons _ _ _ hpos, trimHead_cons, ← hhead]
  rfl

/-- Iterations behind the first map whole chunks, which is `clip` again. -/
theorem bioLoop_clip (k : Kernel) (calls : Calls) (length : Nat) (hl : length < 2 ^ 32)
    (full : ∀ j n, calls.addPcPage j n = n) (pieces : List Sg) (s : BioState)
    (hpos : 0 < s.offset) (ho : s.offset ≤ length) :
    (bioLoop k calls length pieces s).bio = s.bio ++ clip pieces (length - s.offset) := by
  induction pieces generalizing s with
  | nil => simp [bioLoop, clip]
  | cons miter rest ih =>
    by_cases hlt : s.offset < length
    · have hmin : wrap 32 (min miter.len (length - s.offset)) = min miter.len (length - s.offset) :=
        wrap_of_lt (by omega)
      have hoff : wrap 32 (s.offset + min miter.len (length - s.offset)) =
          s.offset + min miter.len (length - s.offset) := wrap_of_lt (by omega)
      have hclip : length - (s.offset + min miter.len (length - s.offset)) =
          length - s.offset - miter.len := by omega
      have hstep : bioStep k calls length s miter =
          ⟨s.offset + min miter.len (length - s.offset),
            s.bio ++ [⟨miter.base, min miter.len (length - s.offset)⟩]⟩ := by
        simp only [bioStep, hmin, hoff, full, if_neg (Nat.ne_of_gt hpos)]
      rw [bioLoop, if_pos hlt, hstep, ih _ (by simp only; omega) (by simp only; omega)]
      simp only [hclip]
      rw [clip_cons _ _ _ (by omega)]
      simp
    · have hz : length - s.offset = 0 := by omega
      simp [bioLoop, hlt, hz]

theorem bioLoop_eq (k : Kernel) (calls : Calls) (e : Sg) (rest : List Sg) (length : Nat)
    (full : ∀ j n, calls.addPcPage j n = n) (hl : length < 2 ^ 32) (hpos : 0 < length)
    (he : 0 < e.len) :
    (bioLoop k calls length (e :: rest) ⟨0, []⟩).bio = mappedBio k e rest length := by
  have hmin : wrap 32 (min e.len length) = min e.len length := wrap_of_lt (by omega)
  have hrest : length - min e.len length = length - e.len := by omega
  have hstep : bioStep k calls length ⟨0, []⟩ e =
      ⟨min e.len length, [⟨e.base, wsub 32 (min e.len length) k.sharedInfo⟩]⟩ := by
    simp [bioStep, hmin, full]
  rw [bioLoop, if_pos (by simpa using hpos), hstep,
    bioLoop_clip k calls length hl full rest _ (by simp only; omega) (by simp only; omega)]
  simp [mappedBio, hrest]

/-- Long enough for the shared info, the mapped bytes are the trimmed clip. -/
theorem mappedBio_trimHead (k : Kernel) (e : Sg) (rest : List Sg) (length : Nat)
    (hl : length < 2 ^ 32) (hpos : 0 < length) (hinfo : k.sharedInfo ≤ min e.len length) :
    mappedBio k e rest length = trimHead k.sharedInfo (clip (e :: rest) length) := by
  rw [clip_cons _ _ _ hpos, trimHead_cons, mappedBio, wsub_of_le hinfo (by omega)]

/-- A mapped byte is a byte of the list in front of position `length`; behind the
first entry the positions are shifted by the shared info that was left out. -/
theorem mappedBio_addr (k : Kernel) (e : Sg) (rest : List Sg) (length : Nat)
    (hl : length < 2 ^ 32) (hpos : 0 < length) (hinfo : k.sharedInfo ≤ min e.len length)
    (i a : Nat) (h : addr? k.byteAddr (mappedBio k e rest length) i = some a) :
    ∃ w, w < length ∧ addr? k.byteAddr (e :: rest) w = some a ∧
      w = if i < min e.len length - k.sharedInfo then i else i + k.sharedInfo := by
  rw [mappedBio_trimHead k e rest length hl hpos hinfo, clip_cons _ _ _ hpos,
    addr?_trimHead _ _ _ _ _ hinfo, ← clip_cons _ _ _ hpos, addr?_clip] at h
  simp only at h
  by_cases hw : (if i < min e.len length - k.sharedInfo then i else i + k.sharedInfo) < length
  · rw [if_pos hw] at h
    exact ⟨_, hw, h, rfl⟩
  · rw [if_neg hw] at h
    cases h

/-- The same for the frame, which is walked to the end of the list. -/
theorem walkedSkb_addr (k : Kernel) (e : Sg) (rest : List Sg) (length : Nat)
    (hl : length < 2 ^ 32) (hpos : 0 < length) (hall : total (e :: rest) = length)
    (hinfo : k.sharedInfo ≤ e.len) (i : Nat) (hi : i < length - k.sharedInfo) :
    addr? k.byteAddr (walkedSkb k e rest length).segs i =
      addr? k.byteAddr (e :: rest) (if i < e.len - k.sharedInfo then i else i + k.sharedInfo) := by
  have he : min e.len length = e.len := by
    rw [total_cons] at hall
    omega
  rw [walkedSkb_segs k e rest length hl hpos (by omega), clip_cons _ _ _ hpos,
    addr?_trimHead _ _ _ _ _ (by simp only; omega), ← clip_cons _ _ _ hpos, addr?_clip]
  simp only [he]
  rw [if_pos (by split <;> omega)]

/-- `a` is not one of the last `sharedInfo` bytes of `e`. -/
def OutsideInfo (k : Kernel) (e : Sg) (a : Nat) : Prop :=
  a < k.byteAddr e.base (e.len - k.sharedInfo) ∨ k.byteAddr e.base e.len ≤ a

theorem outsideInfo_of_addr {k : Kernel} {n : Nat} {e : Sg} {rest : List Sg}
    (alloc : SglAllocated k n (e :: rest)) {w a : Nat}
    (ha : addr? k.byteAddr (e :: rest) w = some a)
    (hw : w < e.len - k.sharedInfo ∨ e.len ≤ w) : OutsideInfo k e a := by
  unfold OutsideInfo
  by_contra hinside
  simp only [Kernel.byteAddr] at hinside
  -- `a` is also the byte of the first entry at its distance from the entry's base
  have hbase : k.byteAddr e.base (a - k.byteAddr e.base 0) = a := by
    simp only [Kernel.byteAddr]
    omega
  have hsame : addr? k.byteAddr (e :: rest) (a - k.byteAddr e.base 0) = some a := by
    rw [addr?, if_pos (by simp only [Kernel.byteAddr]; omega), hbase]
  have hpos := alloc.separated.addr?_injective _ _ a ha hsame
  simp only [Kernel.byteAddr] at hpos
  omega

/-- An unwrapped walk maps no byte of the shared info. -/
theorem mappedBio_outside {k : Kernel} {n length : Nat} {e : Sg} {rest : List Sg}
    (alloc : SglAllocated k n (e :: rest)) (hl : length < 2 ^ 32) (hpos : 0 < length)
    (hinfo : k.sharedInfo ≤ min e.len length) {i a : Nat}
    (h : addr? k.byteAddr (mappedBio k e rest length) i = some a) : OutsideInfo k e a := by
  obtain ⟨w, hw, hwa, hwi⟩ := mappedBio_addr k e rest length hl hpos hinfo i a h
  refine outsideInfo_of_addr alloc hwa ?_
  split at hwi <;> omega

/-- Neither does the frame have one. -/
theorem walkedSkb_outside {k : Kernel} {length : Nat} {e : Sg} {rest : List Sg}
    (alloc : SglAllocated k length (e :: rest)) (hl : length < 2 ^ 32) (hpos : 0 < length)
    (hinfo : k.sharedInfo ≤ e.len) {i a : Nat} (hi : i < length - k.sharedInfo)
    (h : addr? k.byteAddr (walkedSkb k e rest length).segs i = some a) : OutsideInfo k e a := by
  rw [walkedSkb_addr k e rest length hl hpos alloc.total_eq hinfo i hi] at h
  refine outsideInfo_of_addr alloc h ?_
  split <;> omega

theorem mappedBio_total (k : Kernel) (e : Sg) (rest : List Sg) (length : Nat)
    (hl : length < 2 ^ 32) (hinfo : k.sharedInfo ≤ min e.len length)
    (hcover : length ≤ total (e :: rest)) :
    total (mappedBio k e rest length) = length - k.sharedInfo := by
  have hclip := total_clip rest (length - e.len)
  rw [total_cons] at hcover
  rw [mappedBio, wsub_of_le hinfo (by omega), total_cons]
  simp only
  omega

/-- Shorter than the shared info, the one segment's length wraps around below zero. -/
theorem mappedBio_underflow (k : Kernel) (e : Sg) (length : Nat)
    (hinfo : min e.len length < k.sharedInfo) :
    mappedBio k e [] length = [⟨e.base, 2 ^ 32 - (k.sharedInfo - min e.len length)⟩] := by
  have := k.sharedInfo_lt
  rw [mappedBio, wsub_of_lt hinfo (by omega)]
  rfl

end Nvpkt.Guarantees.SgWalk
