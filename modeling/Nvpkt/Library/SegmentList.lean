import Mathlib.Algebra.Ring.Nat
import Mathlib.Data.List.Pairwise
import Mathlib.Data.List.Basic

/-!
# Segment lists

A scatter-gather list over an arbitrary address space: every segment is a base
and a number of cells, and `at_ base i` is the address of its `i`-th cell. The
list is read as the concatenation of its segments, so a transfer of `n` cells
visits `addr? 0`, `addr? 1`, ... until the list is exhausted.

`clip` is the prefix of the first `n` cells, `trimHead` drops cells from the end
of the first segment, and `fill` is the effect of a transfer on a memory.
Nothing here depends on what the addresses or the cells are.
-/

set_option autoImplicit false

namespace Nvpkt.Library.SegmentList

/-- `len` consecutive cells that start at `base`. -/
structure Seg (α : Type) where
  base : α
  len : Nat
  deriving DecidableEq, Repr

variable {α β γ : Type}

def total : List (Seg α) → Nat
  | [] => 0
  | s :: rest => s.len + total rest

/-- Address of cell `i` of the concatenation. -/
def addr? (loc : α → Nat → β) : List (Seg α) → Nat → Option β
  | [], _ => none
  | s :: rest, i => if i < s.len then some (loc s.base i) else addr? loc rest (i - s.len)

/-- The first `n` cells; the last segment reached is shortened. -/
def clip : List (Seg α) → Nat → List (Seg α)
  | [], _ => []
  | s :: rest, n => if n = 0 then [] else ⟨s.base, min s.len n⟩ :: clip rest (n - s.len)

/-- The list without the last `k` cells of its first segment. -/
def trimHead (k : Nat) : List (Seg α) → List (Seg α)
  | [] => []
  | s :: rest => ⟨s.base, s.len - k⟩ :: rest

/-- The contents of the cells, in order. -/
def gather (loc : α → Nat → β) (memory : β → γ) : List (Seg α) → List γ
  | [] => []
  | s :: rest => (List.range s.len).map (fun i => memory (loc s.base i)) ++ gather loc memory rest

/-- A transfer of `limit` cells of `src`, the next of which is number `pos`. -/
def fill [DecidableEq β] (loc : α → Nat → β) (src : Nat → γ) (limit : Nat) :
    List (Seg α) → Nat → (β → γ) → β → γ
  | [], _, memory => memory
  | s :: rest, pos, memory => fill loc src limit rest (pos + s.len) (fun a =>
      match (List.range (min s.len (limit - pos))).find? (fun i => loc s.base i = a) with
      | some i => src (pos + i)
      | none => memory a)

@[simp] theorem total_nil : total ([] : List (Seg α)) = 0 := rfl

@[simp] theorem total_cons (s : Seg α) (rest : List (Seg α)) :
    total (s :: rest) = s.len + total rest := rfl

theorem total_eq_sum (segs : List (Seg α)) : total segs = (segs.map (·.len)).sum := by
  induction segs with
  | nil => rfl
  | cons s rest ih => simp [ih]

/-- The concatenation has exactly `total` cells. -/
theorem addr?_eq_none_iff (loc : α → Nat → β) (segs : List (Seg α)) (i : Nat) :
    addr? loc segs i = none ↔ total segs ≤ i := by
  induction segs generalizing i with
  | nil => simp [addr?]
  | cons s rest ih =>
    simp only [addr?, total_cons]
    split
    · simp
      omega
    · rw [ih]
      omega

theorem addr?_isSome (loc : α → Nat → β) (segs : List (Seg α)) (i : Nat) (h : i < total segs) :
    ∃ a, addr? loc segs i = some a := by
  cases hc : addr? loc segs i with
  | none =>
    have := (addr?_eq_none_iff loc segs i).mp hc
    omega
  | some a => exact ⟨a, rfl⟩

/-- An address of the concatenation is a cell of one of the segments. -/
theorem addr?_mem (loc : α → Nat → β) (segs : List (Seg α)) (i : Nat) (a : β)
    (h : addr? loc segs i = some a) :
    ∃ s ∈ segs, ∃ j, j < s.len ∧ a = loc s.base j := by
  induction segs generalizing i with
  | nil => simp [addr?] at h
  | cons s rest ih =>
    simp only [addr?] at h
    split at h
    · next hi => exact ⟨s, by simp, i, hi, (Option.some.inj h).symm⟩
    · obtain ⟨t, ht, j, hj, ha⟩ := ih _ h
      exact ⟨t, by simp [ht], j, hj, ha⟩

/-- Every cell of a segment is one of the concatenation. -/
theorem addr?_of_mem (loc : α → Nat → β) {segs : List (Seg α)} {s : Seg α} (hs : s ∈ segs)
    {j : Nat} (hj : j < s.len) : ∃ i, addr? loc segs i = some (loc s.base j) := by
  induction segs with
  | nil => exact absurd hs List.not_mem_nil
  | cons t rest ih =>
    rcases List.mem_cons.mp hs with rfl | hs
    · exact ⟨j, if_pos hj⟩
    · obtain ⟨i, hi⟩ := ih hs
      refine ⟨t.len + i, ?_⟩
      rw [addr?, if_neg (by omega), Nat.add_sub_cancel_left, hi]

theorem gather_length (loc : α → Nat → β) (memory : β → γ) (segs : List (Seg α)) :
    (gather loc memory segs).length = total segs := by
  induction segs with
  | nil => rfl
  | cons s rest ih => simp [gather, ih]

theorem gather_getElem? (loc : α → Nat → β) (memory : β → γ) (segs : List (Seg α)) (i : Nat) :
    (gather loc memory segs)[i]? = (addr? loc segs i).map memory := by
  induction segs generalizing i with
  | nil => simp [gather, addr?]
  | cons s rest ih =>
    simp only [gather, addr?]
    split
    · next hi => rw [List.getElem?_append_left (by simpa using hi)]; simp [hi]
    · next hi => rw [List.getElem?_append_right (by simpa using hi), ih]; simp

theorem gather_congr {loc : α → Nat → β} {memory memory' : β → γ} {segs : List (Seg α)}
    (h : ∀ i a, addr? loc segs i = some a → memory a = memory' a) :
    gather loc memory segs = gather loc memory' segs := by
  apply List.ext_getElem?
  intro i
  rw [gather_getElem?, gather_getElem?]
  cases ha : addr? loc segs i with
  | none => rfl
  | some a => rw [Option.map_some, Option.map_some, h i a ha]

@[simp] theorem clip_zero (segs : List (Seg α)) : clip segs 0 = [] := by
  cases segs <;> simp [clip]

theorem clip_cons (s : Seg α) (rest : List (Seg α)) (n : Nat) (h : 0 < n) :
    clip (s :: rest) n = ⟨s.base, min s.len n⟩ :: clip rest (n - s.len) := by
  simp [clip, Nat.ne_of_gt h]

theorem total_clip (segs : List (Seg α)) (n : Nat) :
    total (clip segs n) = min n (total segs) := by
  induction segs generalizing n with
  | nil => simp [clip]
  | cons s rest ih =>
    simp only [clip]
    split
    · simp [*]
    · simp only [total_cons, ih]
      omega

/-- A list of nonempty segments is its own prefix of that many cells. -/
theorem clip_all {segs : List (Seg α)} {n : Nat} (hpos : ∀ s ∈ segs, 0 < s.len)
    (hn : total segs ≤ n) : clip segs n = segs := by
  induction segs generalizing n with
  | nil => rfl
  | cons s rest ih =>
    rw [List.forall_mem_cons] at hpos
    rw [total_cons] at hn
    rw [clip_cons _ _ _ (by omega), ih hpos.2 (by omega), Nat.min_eq_left (by omega)]

/-- Clipping keeps the address of every cell that is left. -/
theorem addr?_clip (loc : α → Nat → β) (segs : List (Seg α)) (n i : Nat) :
    addr? loc (clip segs n) i = if i < n then addr? loc segs i else none := by
  induction segs generalizing n i with
  | nil => simp [clip, addr?]
  | cons s rest ih =>
    simp only [clip]
    split
    · next hn => simp [hn, addr?]
    · simp only [addr?, ih]
      by_cases hs : i < s.len
      · by_cases hn : i < n
        · rw [if_pos (by omega), if_pos hn, if_pos hs]
        · rw [if_neg (by omega), if_neg (by omega), if_neg hn]
      · rw [if_neg (by omega), if_neg hs]
        by_cases hn : i < n
        · rw [if_pos hn]
          have hi : i - min s.len n = i - s.len := by omega
          rw [hi, if_pos (by omega)]
        · rw [if_neg hn, if_neg (by omega)]

/-- Segment `i` of the clip, shortened where the cells run out. -/
theorem clip_getElem? (segs : List (Seg α)) (n i : Nat) :
    (clip segs n)[i]? = if total (segs.take i) < n then
      segs[i]?.map fun s => ⟨s.base, min s.len (n - total (segs.take i))⟩ else none := by
  induction segs generalizing n i with
  | nil => simp [clip]
  | cons s rest ih =>
    by_cases hn : n = 0
    · simp [hn]
    · rw [clip_cons _ _ _ (Nat.pos_of_ne_zero hn)]
      cases i with
      | zero => simp [Nat.pos_of_ne_zero hn]
      | succ i =>
        rw [List.getElem?_cons_succ, ih, List.getElem?_cons_succ, List.take_succ_cons, total_cons]
        have hsub : n - s.len - total (rest.take i) = n - (s.len + total (rest.take i)) :=
          Nat.sub_sub ..
        rw [hsub]
        congr 1
        rw [Nat.lt_sub_iff_add_lt']

theorem gather_clip (loc : α → Nat → β) (memory : β → γ) (segs : List (Seg α)) (n : Nat) :
    gather loc memory (clip segs n) = (gather loc memory segs).take n := by
  induction segs generalizing n with
  | nil => rw [clip, gather, List.take_nil]
  | cons s rest ih =>
    by_cases hn : n = 0
    · rw [hn, clip_zero, List.take_zero, gather]
    · rw [clip_cons _ _ _ (Nat.pos_of_ne_zero hn), gather, gather, ih, List.take_append,
        List.length_map, List.length_range, ← List.map_take, List.take_range, Nat.min_comm]

@[simp] theorem trimHead_cons (k : Nat) (s : Seg α) (rest : List (Seg α)) :
    trimHead k (s :: rest) = ⟨s.base, s.len - k⟩ :: rest := rfl

/-- Trimming shifts the addresses behind the first segment by the cells dropped. -/
theorem addr?_trimHead (loc : α → Nat → β) (k : Nat) (s : Seg α) (rest : List (Seg α)) (i : Nat)
    (h : k ≤ s.len) :
    addr? loc (trimHead k (s :: rest)) i =
      addr? loc (s :: rest) (if i < s.len - k then i else i + k) := by
  simp only [trimHead_cons, addr?]
  by_cases hi : i < s.len - k
  · rw [if_pos hi, if_pos hi, if_pos (by omega)]
  · rw [if_neg hi, if_neg hi, if_neg (by omega)]
    congr 1
    omega

theorem gather_trimHead (loc : α → Nat → β) (memory : β → γ) (k : Nat) (s : Seg α)
    (rest : List (Seg α)) :
    gather loc memory (trimHead k (s :: rest)) =
      (gather loc memory (s :: rest)).take (s.len - k) ++
        (gather loc memory (s :: rest)).drop s.len := by
  rw [trimHead_cons, gather, gather, List.take_append_of_le_length (by simp), List.drop_append,
    ← List.map_take, List.take_range, Nat.min_eq_left (Nat.sub_le _ _)]
  simp

/-- Two segments have no address in common. -/
def Disjoint (loc : α → Nat → β) (s t : Seg α) : Prop :=
  ∀ i, i < s.len → ∀ j, j < t.len → loc s.base i ≠ loc t.base j

/-- The concatenation visits no address twice. -/
structure Separated (loc : α → Nat → β) (segs : List (Seg α)) : Prop where
  cells : ∀ s ∈ segs, ∀ i, i < s.len → ∀ j, j < s.len → loc s.base i = loc s.base j → i = j
  pairs : segs.Pairwise (Disjoint loc)

theorem Separated.tail {loc : α → Nat → β} {s : Seg α} {rest : List (Seg α)}
    (h : Separated loc (s :: rest)) : Separated loc rest :=
  ⟨fun t ht => h.cells t (by simp [ht]), (List.pairwise_cons.mp h.pairs).2⟩

theorem Separated.head_ne {loc : α → Nat → β} {s : Seg α} {rest : List (Seg α)}
    (h : Separated loc (s :: rest)) (i j : Nat) (hi : i < s.len) :
    addr? loc rest j ≠ some (loc s.base i) := by
  intro hj
  obtain ⟨t, ht, k, hk, ha⟩ := addr?_mem loc rest j _ hj
  exact (List.pairwise_cons.mp h.pairs).1 t ht i hi k hk ha

theorem Disjoint.shorten {loc : α → Nat → β} {s t s' t' : Seg α} (h : Disjoint loc s t)
    (hs : s'.base = s.base) (hsl : s'.len ≤ s.len) (ht : t'.base = t.base) (htl : t'.len ≤ t.len) :
    Disjoint loc s' t' := by
  intro i hi j hj
  rw [hs, ht]
  exact h i (by omega) j (by omega)

/-- A clip has segments of the list, at most as long. -/
theorem mem_clip {segs : List (Seg α)} {n : Nat} {s : Seg α} (h : s ∈ clip segs n) :
    ∃ t ∈ segs, s.base = t.base ∧ s.len ≤ t.len := by
  induction segs generalizing n with
  | nil => simp [clip] at h
  | cons t rest ih =>
    simp only [clip] at h
    split at h
    · simp at h
    · rcases List.mem_cons.mp h with rfl | h
      · exact ⟨t, by simp, rfl, Nat.min_le_left _ _⟩
      · obtain ⟨u, hu, hbase, hlen⟩ := ih h
        exact ⟨u, by simp [hu], hbase, hlen⟩

theorem Separated.clip {loc : α → Nat → β} {segs : List (Seg α)} (h : Separated loc segs)
    (n : Nat) : Separated loc (clip segs n) := by
  constructor
  · intro s hs i hi j hj heq
    obtain ⟨t, ht, hbase, hlen⟩ := mem_clip hs
    rw [hbase] at heq
    exact h.cells t ht i (by omega) j (by omega) heq
  · have hpairs := h.pairs
    clear h
    induction segs generalizing n with
    | nil => exact .nil
    | cons t rest ih =>
      obtain ⟨hhead, htail⟩ := List.pairwise_cons.mp hpairs
      simp only [SegmentList.clip]
      split
      · exact .nil
      · refine List.pairwise_cons.mpr ⟨fun s hs => ?_, ih _ htail⟩
        obtain ⟨u, hu, hbase, hlen⟩ := mem_clip hs
        exact (hhead u hu).shorten rfl (Nat.min_le_left _ _) hbase hlen

theorem Separated.trimHead {loc : α → Nat → β} {segs : List (Seg α)} (h : Separated loc segs)
    (k : Nat) : Separated loc (trimHead k segs) := by
  cases segs with
  | nil => exact h
  | cons s rest =>
    constructor
    · intro t ht i hi j hj heq
      rcases List.mem_cons.mp ht with rfl | ht
      · simp only at hi hj heq
        exact h.cells s (by simp) i (by omega) j (by omega) heq
      · exact h.cells t (by simp [ht]) i hi j hj heq
    · obtain ⟨hhead, htail⟩ := List.pairwise_cons.mp h.pairs
      refine List.pairwise_cons.mpr ⟨fun t ht => ?_, htail⟩
      exact (hhead t ht).shorten rfl (Nat.sub_le _ _) rfl (Nat.le_refl _)

theorem Separated.addr?_injective {loc : α → Nat → β} {segs : List (Seg α)}
    (h : Separated loc segs) (i j : Nat) (a : β)
    (hi : addr? loc segs i = some a) (hj : addr? loc segs j = some a) : i = j := by
  induction segs generalizing i j with
  | nil => simp [addr?] at hi
  | cons s rest ih =>
    simp only [addr?] at hi hj
    split at hi
    · next hil =>
      have hia := Option.some.inj hi
      subst hia
      split at hj
      · next hjl => exact h.cells s (by simp) i hil j hjl (Option.some.inj hj).symm
      · exact absurd hj (h.head_ne i _ hil)
    · next hil =>
      split at hj
      · next hjl =>
        have hja := Option.some.inj hj
        subst hja
        exact absurd hi (h.head_ne j _ hjl)
      · next hjl =>
        have := ih h.tail _ _ hi hj
        omega

variable [DecidableEq β]

/-- The cell that a transfer puts into the `i`-th of a segment's addresses. -/
theorem find_cell (loc : α → Nat → β) (s : Seg α) (n i : Nat) (hn : n ≤ s.len) (hi : i < n)
    (cells : ∀ i, i < s.len → ∀ j, j < s.len → loc s.base i = loc s.base j → i = j) :
    (List.range n).find? (fun j => loc s.base j = loc s.base i) = some i := by
  rw [List.find?_range_eq_some]
  refine ⟨by simp, List.mem_range.mpr hi, ?_⟩
  intro j hj
  have hne : loc s.base j ≠ loc s.base i := by
    intro he
    have := cells j (by omega) i (by omega) he
    omega
  simp [hne]

/-- Frame: an address that no transferred cell goes to keeps its content. -/
theorem fill_frame (loc : α → Nat → β) (src : Nat → γ) (limit : Nat) (segs : List (Seg α))
    (pos : Nat) (memory : β → γ) (a : β)
    (outside : ∀ i, pos + i < limit → addr? loc segs i ≠ some a) :
    fill loc src limit segs pos memory a = memory a := by
  induction segs generalizing pos memory with
  | nil => rfl
  | cons s rest ih =>
    have hrest : ∀ i, pos + s.len + i < limit → addr? loc rest i ≠ some a := by
      intro i hi
      have h := outside (s.len + i) (by omega)
      rw [addr?, if_neg (by omega), Nat.add_sub_cancel_left] at h
      exact h
    rw [fill, ih _ _ hrest]
    have hnone : (List.range (min s.len (limit - pos))).find?
        (fun i => decide (loc s.base i = a)) = none := by
      rw [List.find?_eq_none]
      intro i hi
      have hil : i < min s.len (limit - pos) := List.mem_range.mp hi
      have h := outside i (by omega)
      simp only [addr?, if_pos (show i < s.len by omega)] at h
      simpa using h
    simp only [hnone]

/-- Cell `i` of the concatenation receives cell `pos + i` of the source. -/
theorem fill_addr? (loc : α → Nat → β) (src : Nat → γ) (limit : Nat) (segs : List (Seg α))
    (pos : Nat) (memory : β → γ) (i : Nat) (a : β) (separated : Separated loc segs)
    (within : pos + i < limit) (h : addr? loc segs i = some a) :
    fill loc src limit segs pos memory a = src (pos + i) := by
  induction segs generalizing pos memory i with
  | nil => simp [addr?] at h
  | cons s rest ih =>
    simp only [addr?] at h
    split at h
    · next hi =>
      have ha := Option.some.inj h
      subst ha
      have hframe : ∀ j, pos + s.len + j < limit → addr? loc rest j ≠ some (loc s.base i) :=
        fun j _ => separated.head_ne i j hi
      rw [fill, fill_frame _ _ _ _ _ _ _ hframe]
      rw [find_cell loc s _ i (Nat.min_le_left _ _) (by omega) (separated.cells s (by simp))]
    · next hi =>
      have hsum : pos + s.len + (i - s.len) = pos + i := by omega
      rw [fill, ih _ _ _ separated.tail (by omega) h, hsum]

/-- `segs` begins with the cells of `filled`, `n` of them, and goes on with others. -/
structure Overlaid (loc : α → Nat → β) (filled segs : List (Seg α)) (n : Nat) : Prop where
  same : ∀ i, i < n → addr? loc filled i = addr? loc segs i
  apart : ∀ i a, n ≤ i → addr? loc segs i = some a → ∀ j, addr? loc filled j ≠ some a

/-- What a transfer leaves in a list that it was not made for: its cells at the front, as
far as both reach, and behind them what was there before. -/
theorem gather_fill (loc : α → Nat → β) (src : Nat → γ) (limit n : Nat)
    (filled segs : List (Seg α)) (memory : β → γ) (separated : Separated loc filled)
    (overlaid : Overlaid loc filled segs n) (hn : n ≤ total segs) :
    gather loc (fill loc src limit filled 0 memory) segs =
      (List.range (min n limit)).map src ++ (gather loc memory segs).drop (min n limit) := by
  apply List.ext_getElem?
  intro i
  rw [gather_getElem?]
  by_cases hi : i < min n limit
  · rw [List.getElem?_append_left (by simpa using hi)]
    obtain ⟨a, ha⟩ := addr?_isSome loc segs i (by omega)
    have hfilled : addr? loc filled i = some a := (overlaid.same i (by omega)).trans ha
    rw [ha, Option.map_some, fill_addr? _ _ _ _ 0 _ i _ separated (by omega) hfilled]
    simp [hi]
  · have hlen : ((List.range (min n limit)).map src).length ≤ i := by
      rw [List.length_map, List.length_range]
      omega
    have hrest : ((List.range (min n limit)).map src ++
        (gather loc memory segs).drop (min n limit))[i]? = (addr? loc segs i).map memory := by
      rw [List.getElem?_append_right hlen, List.getElem?_drop, List.length_map,
        List.length_range, Nat.add_sub_cancel' (by omega), gather_getElem?]
    rw [hrest]
    cases ha : addr? loc segs i with
    | none => rfl
    | some a =>
      rw [Option.map_some, Option.map_some]
      congr 1
      refine fill_frame _ _ _ _ _ _ _ (fun j hj hja => ?_)
      by_cases hin : i < n
      · have hfilled : addr? loc filled i = some a := (overlaid.same i hin).trans ha
        have := separated.addr?_injective _ _ a hfilled hja
        omega
      · exact overlaid.apart i a (by omega) ha j hja

end Nvpkt.Library.SegmentList
