import Nvpkt.Guarantees.TableLookup

/-!
# The axes of a table

`variants` strips `.`, `t` and `x` from both ends of a file name, and splits what is left
at `_` and a part at `-`. Stripping stops at the first and at the last `_`, and a digit
ends the part behind that, so it takes nothing but the `.txt` and some of the prefix
(`splitOn_path`). One part of a name has the key and a hyphen, unless the prefix or the
walk brings in another, and so the axis is made of the files' numbers (`variants_axis`).
-/

set_option autoImplicit false

namespace Nvpkt.Guarantees.Variants
open Nvpkt.Library.CommandLine (isspace sign)
open Nvpkt.Library.SeparatedText Nvpkt.Source.ParserPy
open Nvpkt.Guarantees.TableLookup

/-- The walk is one part, and no part in front of the numbers has the key and a hyphen. -/
structure Plain (key : Key) (f : BenchFile) : Prop where
  walk : '_' ∉ f.walk
  stem : ∀ param ∈ f.stem.splitOn '_', ¬ (key.name <:+: param ∧ '-' ∈ param)
  walkField : ¬ (key.name <:+: walkField f ∧ '-' ∈ walkField f)

/-- The numbers that some file has for the key, in increasing order. -/
structure Axis (files : List BenchFile) (key : Key) (vs : List Int) : Prop where
  increasing : vs.Pairwise (· < ·)
  mem_iff : ∀ v, v ∈ vs ↔ ∃ f ∈ files, v = (f.param key).value

/-- `<key>-<number>` -/
def numberField (f : BenchFile) (key : Key) : Text := key.name ++ '-' :: (f.param key).digits

section Parts
variable {f : BenchFile} {vs : Finset Int}

theorem numberField_no_sep (f : BenchFile) (key : Key) : '_' ∉ numberField f key := by
  have hdigits := numeral_not_mem (f.param key) (c := '_') (by decide)
  cases key <;> simp [numberField, Key.name, hdigits]

/-- The last number loses its `.txt` and no digit. -/
theorem rdropWhile_digits (n : Numeral) :
    (n.digits ++ txt).rdropWhile (· ∈ txt) = n.digits := by
  have hdigit : ∀ c ∈ txt, c.isDigit = false := by simp [txt]
  apply rdropWhile_append
  · exact fun c hc htxt => numeral_not_mem n (hdigit c htxt) hc
  · exact fun c hc => hc

/-- The parts of a name: some of the prefix, the walk and the three numbers. -/
theorem splitOn_path (hwalk : '_' ∉ f.walk) : (strip txt f.path).splitOn '_' =
    (f.stem.dropWhile (· ∈ txt)).splitOn '_' ++
      [walkField f, numberField f .msg, numberField f .batch, numberField f .cpu] := by
  have hpath : f.path = f.stem ++ '_' :: (walkField f ++ '_' :: (numberField f .msg ++ '_' ::
      (numberField f .batch ++ '_' :: (Key.cpu.name ++ '-' :: (f.cpu.digits ++ txt))))) := by
    simp [BenchFile.path, numberField, BenchFile.param]
  have hfield : '_' ∉ walkField f := by simp [walkField, hwalk]
  have hsep : '_' ∉ txt := by decide
  rw [hpath, strip_append_sep hsep, rdropWhile_append_sep hsep, rdropWhile_append_sep hsep,
    rdropWhile_append_sep hsep, rdropWhile_append_sep (by decide : '-' ∉ txt),
    rdropWhile_digits]
  change (_ ++ '_' :: (_ ++ '_' :: (_ ++ '_' :: (_ ++ '_' :: numberField f .cpu)))).splitOn '_' = _
  rw [List.splitOn_append_cons_self, List.splitOn_append_cons_self_of_not_mem hfield,
    List.splitOn_append_cons_self_of_not_mem (numberField_no_sep f .msg),
    List.splitOn_append_cons_self_of_not_mem (numberField_no_sep f .batch),
    List.splitOn_eq_singleton (numberField_no_sep f .cpu)]

/-! ## One part -/

theorem isspace_digit {c : Char} (h : c.isDigit = true) : isspace c = false := by
  have hdigit : 48 ≤ c.toNat ∧ c.toNat ≤ 57 := Char.isDigit_iff_toNat.mp h
  simp [isspace]
  omega

theorem sign_digits (n : Numeral) : sign n.digits = (false, n.digits) := by
  unfold sign
  split
  case h_1 s hminus =>
    exact absurd (hminus ▸ List.mem_cons_self) (numeral_not_mem n (by decide : '-'.isDigit = false))
  case h_2 s hplus =>
    exact absurd (hplus ▸ List.mem_cons_self) (numeral_not_mem n (by decide : '+'.isDigit = false))
  case h_3 => rfl

/-- `int` reads a numeral as it stands. -/
theorem int_digits (n : Numeral) : int n.digits = some (n.value : Int) := by
  have hfront : n.digits.dropWhile isspace = n.digits := by
    rw [List.dropWhile_eq_self_iff]
    intro hpos
    simp [isspace_digit (n.decimal _ (List.getElem_mem hpos))]
  have hback : n.digits.rdropWhile isspace = n.digits := by
    rw [List.rdropWhile_eq_self_iff]
    intro hne
    simp [isspace_digit (n.decimal _ (List.getLast_mem hne))]
  have hall : n.digits.all Char.isDigit = true := List.all_eq_true.mpr n.decimal
  rw [int, hfront, hback, sign_digits]
  simp [n.nonempty, hall, Numeral.value]

/-- The part of a number gives it to its own key. -/
theorem addParam_numberField (key other : Key) : addParam key.name vs (numberField f other) =
    some (if key = other then insert ((f.param key).value : Int) vs else vs) := by
  by_cases hkey : key = other
  · subst hkey
    have hname : '-' ∉ key.name := by cases key <;> decide
    have hdigits := numeral_not_mem (f.param key) (c := '-') (by decide)
    have hparam : key.name <:+: numberField f key ∧ '-' ∈ numberField f key :=
      ⟨(List.prefix_append _ _).isInfix, List.mem_append_right _ List.mem_cons_self⟩
    rw [addParam, if_pos hparam, numberField, List.splitOn_append_cons_self_of_not_mem hname,
      List.splitOn_eq_singleton hdigits]
    simp [int_digits]
  · have hother := name_other key other (f.param other) [] hkey List.not_mem_nil
    rw [List.append_nil] at hother
    rw [addParam, if_neg fun h => hother h.1, if_neg hkey]

theorem addParam_skips {key : Key} {params : List Text}
    (h : ∀ param ∈ params, ¬ (key.name <:+: param ∧ '-' ∈ param)) :
    params.foldlM (addParam key.name) vs = some vs := by
  induction params with
  | nil => rfl
  | cons param params ih =>
    rw [List.forall_mem_cons] at h
    rw [List.foldlM_cons, addParam, if_neg h.1]
    exact ih h.2

/-- A file adds its number and nothing else. -/
theorem addFile_path {key : Key} (h : Plain key f) :
    addFile key.name vs f.path = some (insert ((f.param key).value : Int) vs) := by
  have hstem : ∀ param ∈ (f.stem.dropWhile (· ∈ txt)).splitOn '_',
      ¬ (key.name <:+: param ∧ '-' ∈ param) := by
    intro param hparam hboth
    obtain ⟨whole, hwhole, hends⟩ := fields_of_suffix (List.dropWhile_suffix _) hparam
    exact h.stem whole hwhole ⟨hboth.1.trans hends.isInfix, hends.subset hboth.2⟩
  have hwalk : addParam key.name vs (walkField f) = some vs := if_neg h.walkField
  rw [addFile, splitOn_path h.walk, List.foldlM_append, addParam_skips hstem]
  cases key <;> simp [hwalk, addParam_numberField]

end Parts

section Files
variable {files : List BenchFile} {key : Key}

theorem addFiles (h : ∀ f ∈ files, Plain key f) (vs : Finset Int) :
    (files.map (·.path)).foldlM (addFile key.name) vs =
      some (vs ∪ (files.map fun f => ((f.param key).value : Int)).toFinset) := by
  induction files generalizing vs with
  | nil => simp
  | cons f files ih =>
    rw [List.forall_mem_cons] at h
    rw [List.map_cons, List.foldlM_cons, addFile_path h.1, Option.bind_eq_bind, Option.bind_some,
      ih h.2]
    simp

/-- The files' numbers, sorted. -/
def axis (files : List BenchFile) (key : Key) : List Int :=
  sorted (files.map fun f => ((f.param key).value : Int)).toFinset

theorem variants_eq (h : ∀ f ∈ files, Plain key f) :
    variants (files.map (·.path)) key.name = some (axis files key) := by
  rw [variants, addFiles h, Finset.empty_union, Option.map_some, axis]

theorem axis_exact (files : List BenchFile) (key : Key) : Axis files key (axis files key) := by
  rw [axis, sorted]
  refine ⟨(Finset.sortedLT_sort _).pairwise, fun v => ?_⟩
  simp [eq_comm]

end Files

/-- Of every list of such file names `variants` makes the axis. -/
theorem variants_axis (files : List BenchFile) (key : Key) (h : ∀ f ∈ files, Plain key f) :
    ∃ vs, variants (files.map (·.path)) key.name = some vs ∧ Axis files key vs :=
  ⟨axis files key, variants_eq h, axis_exact files key⟩

/-- `batch-16` in front of `batch-1` -/
theorem variants_axis_batch :
    ∃ vs, variants ([batch16, batch1].map (·.path)) Key.batch.name = some vs ∧
      Axis [batch16, batch1] .batch vs := by
  apply variants_axis
  rw [List.forall_mem_cons, List.forall_mem_singleton]
  exact ⟨⟨by decide, by decide, by decide⟩, ⟨by decide, by decide, by decide⟩⟩

end Nvpkt.Guarantees.Variants
