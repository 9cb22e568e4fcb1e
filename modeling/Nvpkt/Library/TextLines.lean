import Nvpkt.Library.SeparatedText

/-!
# The lines of a text file

A file opened as text ends its lines with `'\n'`, whatever ended them on disk, and
iterating over it yields each line with its end (`fileLines`). A printed line that
contains a line break is read as several lines; no word of one line comes to stand on
another, and none appears that was not printed (`occurs_fileLines`).
-/

set_option autoImplicit false

namespace Nvpkt.Library.TextLines
open Nvpkt.Library.SeparatedText

/-- Universal newlines: `'\r'` and `"\r\n"` are read as `'\n'`. -/
def translate : List Char → List Char
  | '\r' :: '\n' :: text => '\n' :: translate text
  | c :: text => (if c = '\r' then '\n' else c) :: translate text
  | [] => []

/-- A character in front of the first line. -/
def push (c : Char) : List (List Char) → List (List Char)
  | [] => [[c]]
  | line :: lines => (c :: line) :: lines

def keepLines : List Char → List (List Char)
  | [] => []
  | c :: text => if c = '\n' then [c] :: keepLines text else push c (keepLines text)

def fileLines (text : List Char) : List (List Char) := keepLines (translate text)

@[simp] theorem fileLines_nil : fileLines [] = [] := rfl

section Lines
variable {c : Char} {word text line : List Char}

theorem push_append {lines lines' : List (List Char)} (h : lines ≠ []) :
    push c (lines ++ lines') = push c lines ++ lines' := by
  cases lines with
  | nil => exact absurd rfl h
  | cons line lines => rfl

theorem flatten_push (lines : List (List Char)) : (push c lines).flatten = c :: lines.flatten := by
  cases lines with
  | nil => rfl
  | cons line lines => rfl

theorem keepLines_flatten (text : List Char) : (keepLines text).flatten = text := by
  induction text with
  | nil => rfl
  | cons c text ih =>
    rw [keepLines]
    split
    · rw [List.flatten_cons, ih]
      rfl
    · rw [flatten_push, ih]

theorem keepLines_ne_nil (h : text ≠ []) : keepLines text ≠ [] := by
  intro hnil
  have hflat := keepLines_flatten text
  rw [hnil] at hflat
  exact h hflat.symm

theorem keepLines_append (left right : List Char) :
    keepLines (left ++ '\n' :: right) = keepLines (left ++ ['\n']) ++ keepLines right := by
  induction left with
  | nil => rfl
  | cons c left ih =>
    rw [List.cons_append, List.cons_append, keepLines, keepLines]
    split
    · rw [ih]
      rfl
    · rw [ih, push_append (keepLines_ne_nil (by simp))]

theorem translate_cons (hbreak : ∀ rest, c = '\r' → text = '\n' :: rest → False) :
    translate (c :: text) = (if c = '\r' then '\n' else c) :: translate text := by
  rw [translate]
  exact hbreak

/-- What follows a line break does not change how the text in front of it is read. -/
theorem translate_append (left : List Char) :
    ∃ left', ∀ right, translate (left ++ '\n' :: right) = left' ++ '\n' :: translate right := by
  induction left using translate.induct with
  | case1 left ih =>
    obtain ⟨left', h⟩ := ih
    refine ⟨'\n' :: left', fun right => ?_⟩
    rw [List.cons_append, List.cons_append, translate, h]
    rfl
  | case2 c left hbreak ih =>
    obtain ⟨left', h⟩ := ih
    by_cases hlast : c = '\r' ∧ left = []
    · -- the line break is the second half of this one
      obtain ⟨rfl, rfl⟩ := hlast
      exact ⟨[], fun right => rfl⟩
    · refine ⟨(if c = '\r' then '\n' else c) :: left', fun right => ?_⟩
      rw [List.cons_append, translate_cons, h]
      · rfl
      · intro rest hc hrest
        cases left with
        | nil => exact hlast ⟨hc, rfl⟩
        | cons d left =>
          rw [List.cons_append, List.cons.injEq] at hrest
          exact hbreak left hc (by rw [hrest.1])
  | case3 => exact ⟨[], fun right => rfl⟩

theorem fileLines_append (left right : List Char) :
    fileLines (left ++ '\n' :: right) = fileLines (left ++ ['\n']) ++ fileLines right := by
  obtain ⟨left', h⟩ := translate_append left
  rw [fileLines, fileLines, h, h, keepLines_append]
  rfl

theorem translate_plain (hcr : '\r' ∉ text) : translate text = text := by
  induction text with
  | nil => rfl
  | cons c text ih =>
    rw [List.mem_cons, not_or] at hcr
    rw [translate_cons (fun _ hc => absurd hc.symm hcr.1), ih hcr.2, if_neg (Ne.symm hcr.1)]

theorem keepLines_plain (hnl : '\n' ∉ line) :
    keepLines (line ++ ['\n']) = [line ++ ['\n']] := by
  induction line with
  | nil => rfl
  | cons c line ih =>
    rw [List.mem_cons, not_or] at hnl
    rw [List.cons_append, keepLines, if_neg (Ne.symm hnl.1), ih hnl.2]
    rfl

/-- A printed line without breaks is one line of the file. -/
theorem fileLines_plain (hnl : '\n' ∉ line) (hcr : '\r' ∉ line) :
    fileLines (line ++ ['\n']) = [line ++ ['\n']] := by
  rw [fileLines, translate_plain (by simp [hcr]), keepLines_plain hnl]

theorem fronts_translate (hnl : '\n' ∉ word) (h : word <+: translate text) : word <+: text := by
  induction text using translate.induct generalizing word with
  | case1 text ih =>
    cases word with
    | nil => exact List.nil_prefix
    | cons a word =>
      rw [translate, List.cons_prefix_cons] at h
      exact absurd (h.1 ▸ List.mem_cons_self) hnl
  | case2 c text hbreak ih =>
    cases word with
    | nil => exact List.nil_prefix
    | cons a word =>
      rw [translate_cons hbreak, List.cons_prefix_cons] at h
      rw [List.mem_cons, not_or] at hnl
      split at h
      · exact absurd h.1.symm hnl.1
      · exact List.cons_prefix_cons.mpr ⟨h.1, ih hnl.2 h.2⟩
  | case3 => exact h

theorem occurs_translate (hnl : '\n' ∉ word) (h : word <:+: translate text) :
    word <:+: text := by
  induction text using translate.induct with
  | case1 text ih =>
    rw [translate, List.infix_cons_iff] at h
    obtain hfront | hlater := h
    · cases word with
      | nil => exact List.nil_infix
      | cons a word => exact absurd ((List.cons_prefix_cons.mp hfront).1 ▸ List.mem_cons_self) hnl
    · exact (ih hlater).trans ((List.suffix_cons _ _).trans (List.suffix_cons _ _)).isInfix
  | case2 c text hbreak ih =>
    rw [translate_cons hbreak, List.infix_cons_iff] at h
    obtain hfront | hlater := h
    · rw [← translate_cons hbreak] at hfront
      exact (fronts_translate hnl hfront).isInfix
    · exact (ih hlater).trans (List.suffix_cons _ _).isInfix
  | case3 => exact h

/-- What stands on a line of the file was printed. -/
theorem occurs_fileLines (hnl : '\n' ∉ word) (hline : line ∈ fileLines text)
    (h : word <:+: line) : word <:+: text := by
  have hkeep : line <:+: translate text := by
    have hflat := List.infix_of_mem_flatten hline
    rwa [fileLines, keepLines_flatten] at hflat
  exact occurs_translate hnl (h.trans hkeep)

end Lines

end Nvpkt.Library.TextLines
