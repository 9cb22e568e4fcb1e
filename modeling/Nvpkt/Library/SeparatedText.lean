import Mathlib.Data.List.DropRight
import Mathlib.Data.List.Infix

/-!
# Substrings of separated text

Occurrences of a word in a list of symbols that is cut into fields by a
separator: a word without the separator occurs in the whole only inside one
field, a word whose first symbol occurs nowhere else can only stand at the
front, and the last separator determines where a list splits. Stripping a set of
symbols without the separator stops at the separators, so it shortens the first
and the last field only (`strip_append_sep`).
-/

set_option autoImplicit false

namespace Nvpkt.Library.SeparatedText

variable {α : Type}

/-- A word without the separator does not reach across it. -/
theorem occurs_append_sep {sep : α} {word : List α} (left right : List α) (h : sep ∉ word) :
    word <:+: left ++ sep :: right ↔ word <:+: left ∨ word <:+: right := by
  rw [List.infix_append_iff, List.infix_cons_iff]
  constructor
  · rintro (hl | (hp | hr) | ⟨l₁, l₂, rfl, hl, hp⟩)
    · exact Or.inl hl
    · cases word with
      | nil => exact Or.inl List.nil_infix
      | cons a rest =>
        have ha := (List.cons_prefix_cons.mp hp).1
        exact absurd (by simp [ha]) h
    · exact Or.inr hr
    · cases l₂ with
      | nil => exact Or.inl (by simpa using hl.isInfix)
      | cons a rest =>
        have ha := (List.cons_prefix_cons.mp hp).1
        exact absurd (by simp [ha]) h
  · intro hoccurs
    obtain hl | hr := hoccurs
    · exact Or.inl hl
    · exact Or.inr (Or.inl (Or.inr hr))

/-- A word whose first symbol occurs only at the front stands at the front. -/
theorem occurs_cons_of_first {a : α} (word text : List α) (h : a ∉ text) :
    a :: word <:+: a :: text ↔ word <+: text := by
  rw [List.infix_cons_iff, List.cons_prefix_cons]
  constructor
  · intro hoccurs
    obtain ⟨_, hp⟩ | hi := hoccurs
    · exact hp
    · exact absurd (hi.subset (by simp)) h
  · intro hp
    exact Or.inl ⟨rfl, hp⟩

/-- A symbol of the word that the text lacks rules every occurrence out. -/
theorem not_occurs_of_missing {a : α} {word text : List α} (hw : a ∈ word) (ht : a ∉ text) :
    ¬ word <:+: text :=
  fun h => ht (h.subset hw)

/-- A word without the separator that fronts `left ++ sep :: right` fronts `left`. -/
theorem fronts_append_sep {sep : α} {word : List α} (left right : List α) (h : sep ∉ word) :
    word <+: left ++ sep :: right ↔ word <+: left := by
  constructor
  · intro hfront
    obtain ⟨t, ht⟩ := hfront
    rcases List.append_eq_append_iff.mp ht with ⟨u, rfl, _⟩ | ⟨u, rfl, hu⟩
    · exact List.prefix_append _ _
    · cases u with
      | nil => simp
      | cons a rest =>
        have ha := (List.cons.inj hu).1
        exact absurd (by simp [ha]) h
  · intro hp
    exact hp.trans (List.prefix_append _ _)

/-- The last separator is where a list splits. -/
theorem append_sep_inj {sep : α} {a b c d : List α} (hc : sep ∉ c) (hd : sep ∉ d)
    (h : a ++ sep :: c = b ++ sep :: d) : a = b ∧ c = d := by
  rcases List.append_eq_append_iff.mp h with ⟨t, rfl, ht⟩ | ⟨t, rfl, ht⟩
  · cases t with
    | nil => simpa using ht
    | cons x rest =>
      have := (List.cons.inj ht).2
      exact absurd (by simp [this]) hc
  · cases t with
    | nil => simpa [eq_comm] using ht
    | cons x rest =>
      have := (List.cons.inj ht).2
      exact absurd (by simp [this]) hd

/-- Behind a common front the smaller symbol decides which text comes first. -/
theorem append_cons_lt [LT α] {a b : α} (front left right : List α) (h : a < b) :
    front ++ a :: left < front ++ b :: right :=
  List.append_left_lt (List.Lex.rel h)

/-! ## Stripping -/

section Strip
variable [DecidableEq α] {chars left right trail : List α} {sep : α}

/-- Takes the symbols of `chars` off either end. -/
def strip (chars text : List α) : List α :=
  (text.dropWhile (· ∈ chars)).rdropWhile (· ∈ chars)

theorem dropWhile_append_sep (h : sep ∉ chars) :
    (left ++ sep :: right).dropWhile (· ∈ chars) = left.dropWhile (· ∈ chars) ++ sep :: right := by
  have hstop : (sep :: right).dropWhile (· ∈ chars) = sep :: right :=
    List.dropWhile_cons_of_neg (by simpa using h)
  rw [List.dropWhile_append, hstop]
  split
  case isTrue hnil => rw [List.isEmpty_iff.mp hnil, List.nil_append]
  case isFalse => rfl

theorem rdropWhile_append_sep (h : sep ∉ chars) :
    (left ++ sep :: right).rdropWhile (· ∈ chars) =
      left ++ sep :: right.rdropWhile (· ∈ chars) := by
  have hreverse : (left ++ sep :: right).reverse = right.reverse ++ sep :: left.reverse := by simp
  rw [List.rdropWhile, hreverse, dropWhile_append_sep h, List.reverse_append, List.reverse_cons,
    List.reverse_reverse, List.append_assoc]
  rfl

/-- Between two separators nothing is stripped. -/
theorem strip_append_sep (h : sep ∉ chars) : strip chars (left ++ sep :: right) =
    left.dropWhile (· ∈ chars) ++ sep :: right.rdropWhile (· ∈ chars) := by
  rw [strip, dropWhile_append_sep h, rdropWhile_append_sep h]

/-- Only what stands behind a text without symbols of `chars` is stripped. -/
theorem rdropWhile_append (hleft : ∀ a ∈ left, a ∉ chars) (htrail : ∀ a ∈ trail, a ∈ chars) :
    (left ++ trail).rdropWhile (· ∈ chars) = left := by
  have htaken : (left ++ trail).rdropWhile (· ∈ chars) = left.rdropWhile (· ∈ chars) := by
    rw [List.rdropWhile, List.reverse_append, List.dropWhile_append_of_pos (by simpa using htrail)]
    rfl
  rw [htaken, List.rdropWhile_eq_self_iff]
  intro hne
  simpa using hleft _ (List.getLast_mem hne)

/-- A field of what is left of a text without its front ends a field of the text. -/
theorem fields_of_suffix {text tail field : List α} (h : tail <:+ text)
    (hfield : field ∈ tail.splitOn sep) : ∃ whole ∈ text.splitOn sep, field <:+ whole := by
  obtain ⟨front, rfl⟩ := h
  induction front with
  | nil => exact ⟨field, hfield, List.suffix_refl field⟩
  | cons a front ih =>
    obtain ⟨whole, hwhole, hends⟩ := ih
    rw [List.cons_append, List.splitOn_cons_eq_if_modifyHead]
    split
    · exact ⟨whole, List.mem_cons_of_mem _ hwhole, hends⟩
    · cases hsplit : (front ++ tail).splitOn sep with
      | nil => exact absurd hsplit (List.splitOn_ne_nil _ _)
      | cons first rest =>
        rw [hsplit] at hwhole
        rw [List.modifyHead_cons]
        obtain rfl | hrest := List.mem_cons.mp hwhole
        · exact ⟨a :: whole, List.mem_cons_self, hends.trans (List.suffix_cons a whole)⟩
        · exact ⟨whole, List.mem_cons_of_mem _ hrest, hends⟩

end Strip

end Nvpkt.Library.SeparatedText
