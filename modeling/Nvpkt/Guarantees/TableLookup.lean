import Nvpkt.Source.ParserPy

/-!
# Which file a table cell is read from

`find_file_by_key` looks for the text `<key>-<number>` anywhere in a file name
and takes the first hit. Inside a name of the benchmark's form such a text
occurs exactly where the wanted number's digits front the file's own number, or
by accident in the part of the name that is not numeric (`keyText_occurs_iff`),
so `batch-1` is also found in `batch-16`. A table is read correctly exactly when
no such file stands in front of the right one (`table_correct_iff`).
-/

set_option autoImplicit false

namespace Nvpkt.Guarantees.TableLookup
open Nvpkt.Library.SeparatedText Nvpkt.Source.ParserPy

/-- A file that a lookup of `<key>-<x>` takes for its own: the digits of `x` front
its number, or the text stands in the free part of its name. -/
def Answers (g : BenchFile) (key : Key) (x : Nat) : Prop :=
  keyText key x <:+: g.stem ∨ keyText key x <:+: walkField g ∨
    Nat.toDigits 10 x <+: (g.param key).digits

theorem numeral_not_mem (n : Numeral) {c : Char} (h : c.isDigit = false) : c ∉ n.digits := by
  intro hc
  rw [n.decimal c hc] at h
  cases h

theorem toDigits_not_mem (x : Nat) {c : Char} (h : c.isDigit = false) :
    c ∉ Nat.toDigits 10 x := by
  intro hc
  rw [Nat.isDigit_of_mem_toDigits (by decide) (by decide) hc] at h
  cases h

theorem keyText_no_sep (key : Key) (x : Nat) : '_' ∉ keyText key x := by
  have hd := toDigits_not_mem x (c := '_') (by decide)
  cases key <;> simp [keyText, Key.name, hd]

/-- A symbol of the key's name that no other field contains. -/
def marker : Key → Char
  | .msg => 's'
  | .batch => 'b'
  | .cpu => 'u'

theorem marker_mem (key : Key) : marker key ∈ key.name := by
  cases key <;> decide

theorem marker_not_digit (key : Key) : (marker key).isDigit = false := by
  cases key <;> decide

/-- In the field of another key the name does not occur, -/
theorem name_other (key other : Key) (n : Numeral) (tail : Text) (hne : key ≠ other)
    (htail : marker key ∉ tail) : ¬ key.name <:+: other.name ++ '-' :: (n.digits ++ tail) := by
  apply not_occurs_of_missing (marker_mem key)
  have hd := numeral_not_mem n (marker_not_digit key)
  simp only [List.mem_append, List.mem_cons, not_or]
  refine ⟨?_, ?_, hd, htail⟩
  · cases key <;> cases other <;> first | exact absurd rfl hne | decide
  · cases key <;> decide

/-- and so the text does not. -/
theorem keyText_other (key other : Key) (x : Nat) (n : Numeral) (tail : Text)
    (hne : key ≠ other) (htail : marker key ∉ tail) :
    ¬ keyText key x <:+: other.name ++ '-' :: (n.digits ++ tail) :=
  fun h => name_other key other n tail hne htail ((List.prefix_append _ _).isInfix.trans h)

/-- The first symbol of a key's name stands nowhere else in its field. -/
theorem name_first (key : Key) : ∃ a r, key.name = a :: r ∧ a ∉ r ∧ a ≠ '-' ∧ a.isDigit = false ∧
    a ∉ txt := by
  cases key
  · exact ⟨'m', ['s', 'g'], rfl, by decide⟩
  · exact ⟨'b', ['a', 't', 'c', 'h'], rfl, by decide⟩
  · exact ⟨'c', ['p', 'u'], rfl, by decide⟩

/-- In the key's own field it occurs where the wanted digits front the number. -/
theorem keyText_own (key : Key) (x : Nat) (n : Numeral) (tail : Text)
    (htail : tail = [] ∨ tail = txt) :
    keyText key x <:+: key.name ++ '-' :: (n.digits ++ tail) ↔
      Nat.toDigits 10 x <+: n.digits := by
  have hfront : Nat.toDigits 10 x <+: n.digits ++ tail ↔ Nat.toDigits 10 x <+: n.digits := by
    rcases htail with rfl | rfl
    · rw [List.append_nil]
    · exact fronts_append_sep _ _ (toDigits_not_mem x (by decide))
  obtain ⟨a, r, hname, hr, hdash, hdigit, htxt⟩ := name_first key
  have hd := numeral_not_mem n hdigit
  have ht : a ∉ tail := by
    rcases htail with rfl | rfl
    · simp
    · exact htxt
  simp only [keyText, hname, List.cons_append]
  rw [occurs_cons_of_first _ _ (by simp [hr, hdash, hd, ht]), List.prefix_append_right_inj,
    List.cons_prefix_cons, hfront]
  simp

/-- The text of a key occurs in a file name exactly if the file answers to it. -/
theorem keyText_occurs_iff (f : BenchFile) (key : Key) (x : Nat) :
    keyText key x <:+: f.path ↔ Answers f key x := by
  have hsep := keyText_no_sep key x
  have hassoc : ∀ (a : Text) (b : Text), a ++ '-' :: (b ++ ([] : Text)) = a ++ '-' :: b := by simp
  have hmsg : keyText key x <:+: Key.msg.name ++ '-' :: f.msg.digits ↔
      key = .msg ∧ Nat.toDigits 10 x <+: f.msg.digits := by
    by_cases hk : key = .msg
    · subst hk
      simpa [hassoc] using keyText_own .msg x f.msg [] (Or.inl rfl)
    · simpa [hassoc, hk] using keyText_other key .msg x f.msg [] hk (by simp)
  have hbatch : keyText key x <:+: Key.batch.name ++ '-' :: f.batch.digits ↔
      key = .batch ∧ Nat.toDigits 10 x <+: f.batch.digits := by
    by_cases hk : key = .batch
    · subst hk
      simpa [hassoc] using keyText_own .batch x f.batch [] (Or.inl rfl)
    · simpa [hassoc, hk] using keyText_other key .batch x f.batch [] hk (by simp)
  have hcpu : keyText key x <:+: Key.cpu.name ++ '-' :: (f.cpu.digits ++ txt) ↔
      key = .cpu ∧ Nat.toDigits 10 x <+: f.cpu.digits := by
    by_cases hk : key = .cpu
    · subst hk
      simpa using keyText_own .cpu x f.cpu txt (Or.inr rfl)
    · have hm : marker key ∉ txt := by cases key <;> first | exact absurd rfl hk | decide
      simpa [hk] using keyText_other key .cpu x f.cpu txt hk hm
  have hpath : f.path = f.stem ++ '_' :: (walkField f ++ '_' ::
      ((Key.msg.name ++ '-' :: f.msg.digits) ++ '_' ::
        ((Key.batch.name ++ '-' :: f.batch.digits) ++ '_' ::
          (Key.cpu.name ++ '-' :: (f.cpu.digits ++ txt))))) := by
    simp [BenchFile.path]
  rw [hpath, occurs_append_sep _ _ hsep, occurs_append_sep _ _ hsep, occurs_append_sep _ _ hsep,
    occurs_append_sep _ _ hsep, hmsg, hbatch, hcpu, Answers]
  cases key <;> simp [BenchFile.param]

/-- The numbers of a file can be read off its name. -/
theorem path_param_inj (f g : BenchFile) (h : f.path = g.path) (key : Key) :
    (f.param key).digits = (g.param key).digits := by
  have hdash : ∀ n : Numeral, '-' ∉ n.digits := fun n => numeral_not_mem n (by decide)
  have hcpu : ∀ n : Numeral, '-' ∉ n.digits ++ txt := by
    intro n
    simp only [List.mem_append, not_or]
    exact ⟨hdash n, by decide⟩
  have hpath : ∀ f : BenchFile, f.path =
      ((((f.stem ++ '_' :: (walkField f ++ '_' :: Key.msg.name)) ++ '-' :: f.msg.digits) ++
        ('_' :: Key.batch.name)) ++ '-' :: f.batch.digits) ++ ('_' :: Key.cpu.name) ++
          '-' :: (f.cpu.digits ++ txt) := by
    intro f
    simp [BenchFile.path]
  rw [hpath f, hpath g] at h
  obtain ⟨hleft, hc⟩ := append_sep_inj (hcpu f.cpu) (hcpu g.cpu) h
  obtain ⟨hleft, hb⟩ := append_sep_inj (hdash f.batch) (hdash g.batch)
    (List.append_cancel_right hleft)
  obtain ⟨_, hm⟩ := append_sep_inj (hdash f.msg) (hdash g.msg) (List.append_cancel_right hleft)
  cases key
  · exact hm
  · exact hb
  · exact List.append_cancel_right hc

/-- The lookup returns the first name that contains every key. -/
theorem findFileByKey_eq (keys files : List Text) :
    findFileByKey keys files = files.find? (fun name => ∀ key ∈ keys, key <:+: name) := by
  induction files with
  | nil => rfl
  | cons name rest ih =>
    have hall : (keys.filter fun key => key <:+: name).length = keys.length ↔
        ∀ key ∈ keys, key <:+: name := by
      simp [List.length_filter_eq_length_iff]
    simp only [findFileByKey]
    by_cases h : ∀ key ∈ keys, key <:+: name
    · rw [if_pos (hall.mpr h), List.find?_cons_of_pos (by simpa using h)]
    · rw [if_neg (fun he => h (hall.mp he)), List.find?_cons_of_neg (by simpa using h), ih]

/-- `g` is a hit for the two keys of `f`. -/
def Hits (xkey vkey : Key) (g f : BenchFile) : Prop :=
  Answers g xkey (f.param xkey).value ∧ Answers g vkey (f.param vkey).value

theorem hits_iff (xkey vkey : Key) (g f : BenchFile) :
    (∀ key ∈ [keyText xkey (f.param xkey).value, keyText vkey (f.param vkey).value],
      key <:+: g.path) ↔ Hits xkey vkey g f := by
  simp only [List.mem_cons, List.not_mem_nil, or_false, forall_eq_or_imp, forall_eq,
    keyText_occurs_iff]
  rfl

/-- Every parameter pair that some file carries is looked up to that file, and its
cell shows that file's statistic. -/
def TableCorrect {Stat : Type} (parse : Text → Stat) (files : List BenchFile) (xkey vkey : Key) :
    Prop :=
  ∀ f ∈ files,
    findFileByKey [keyText xkey (f.param xkey).value, keyText vkey (f.param vkey).value]
        (files.map (·.path)) = some f.path ∧
      tableCell parse (files.map (·.path)) xkey vkey (f.param xkey).value (f.param vkey).value =
        some (parse f.path)

/-- A search stops at `a`, which stands once in front of it, exactly when `a` hits
and nothing before it does. -/
theorem find?_eq_self_iff {α : Type} {p : α → Bool} {a : α} {before after : List α}
    (hne : a ∉ before) :
    (before ++ a :: after).find? p = some a ↔ p a = true ∧ ∀ b ∈ before, ¬ p b = true := by
  rw [List.find?_append]
  cases hfound : before.find? p with
  | none =>
    have hnone := List.find?_eq_none.mp hfound
    rw [Option.none_or, and_iff_left hnone, List.find?_cons]
    constructor
    · intro h
      split at h
      · assumption
      · exact List.find?_some h
    · intro ha
      rw [ha]
  | some b =>
    have hmem : b ∈ before := List.mem_of_find?_eq_some hfound
    rw [Option.some_or, Option.some_inj]
    constructor
    · rintro rfl
      exact absurd hmem hne
    · rintro ⟨_, hnone⟩
      exact absurd (List.find?_some hfound) (hnone b hmem)

/-- A file of the same name has the same numbers, so it is the same entry. -/
theorem path_not_mem_before {xkey vkey : Key} {before after : List BenchFile} {f : BenchFile}
    (distinct : ((before ++ f :: after).map
      fun f => ((f.param xkey).value, (f.param vkey).value)).Nodup) :
    f.path ∉ before.map (·.path) := by
  intro hpath
  obtain ⟨g, hg, hgf⟩ := List.mem_map.mp hpath
  have hx := congrArg (fun d => Nat.ofDigitChars 10 d 0) (path_param_inj g f hgf xkey)
  have hv := congrArg (fun d => Nat.ofDigitChars 10 d 0) (path_param_inj g f hgf vkey)
  rw [List.map_append, List.map_cons] at distinct
  have hapart := (List.nodup_append.mp distinct).2.2
  exact hapart _ (List.mem_map_of_mem hg) _ List.mem_cons_self (Prod.ext hx hv)

/-- The lookup for `f` succeeds exactly when `f` is the first of the files that hit. -/
theorem lookup_iff (xkey vkey : Key) (before after : List BenchFile) (f : BenchFile)
    (distinct : ((before ++ f :: after).map
      fun f => ((f.param xkey).value, (f.param vkey).value)).Nodup) :
    findFileByKey [keyText xkey (f.param xkey).value, keyText vkey (f.param vkey).value]
        ((before ++ f :: after).map (·.path)) = some f.path ↔
      Hits xkey vkey f f ∧ ∀ g ∈ before, ¬ Hits xkey vkey g f := by
  rw [findFileByKey_eq, List.map_append, List.map_cons,
    find?_eq_self_iff (path_not_mem_before distinct), List.forall_mem_map]
  simp only [decide_eq_true_iff, hits_iff]

/-- The table is correct exactly when every file hits its own keys and no file
in front of it does. -/
theorem table_correct_iff {Stat : Type} (parse : Text → Stat) (files : List BenchFile)
    (xkey vkey : Key)
    (distinct : (files.map fun f => ((f.param xkey).value, (f.param vkey).value)).Nodup) :
    TableCorrect parse files xkey vkey ↔
      ∀ before f after, files = before ++ f :: after →
        Hits xkey vkey f f ∧ ∀ g ∈ before, ¬ Hits xkey vkey g f := by
  constructor
  · rintro h before f after rfl
    exact (lookup_iff xkey vkey before after f distinct).mp (h f (by simp)).1
  · intro h f hf
    obtain ⟨before, after, rfl⟩ := List.append_of_mem hf
    have hfind := (lookup_iff xkey vkey before after f distinct).mpr (h before f after rfl)
    refine ⟨hfind, ?_⟩
    rw [tableCell, hfind]
    rfl

/-- `output/bench_walk-seq_msg-64_batch-<b>_cpu-1.txt` -/
def seq64 (b : Numeral) : BenchFile where
  stem := ['o', 'u', 't', 'p', 'u', 't', '/', 'b', 'e', 'n', 'c', 'h']
  walk := ['s', 'e', 'q']
  msg := ⟨['6', '4'], by decide, List.all_eq_true.mp rfl⟩
  batch := b
  cpu := ⟨['1'], by decide, List.all_eq_true.mp rfl⟩

def batch1 : BenchFile := seq64 ⟨['1'], by decide, List.all_eq_true.mp rfl⟩
def batch16 : BenchFile := seq64 ⟨['1', '6'], by decide, List.all_eq_true.mp rfl⟩

/-- With the shorter number first, both cells are right. -/
theorem table_correct_1_16 : TableCorrect List.length [batch1, batch16] .msg .batch := by
  refine (table_correct_iff List.length [batch1, batch16] .msg .batch (by decide)).mpr ?_
  intro before f after h
  match before, h with
  | [], h =>
    obtain ⟨rfl, _⟩ := List.cons.inj h
    exact ⟨(hits_iff _ _ _ _).mp (by decide), by simp⟩
  | [g], h =>
    obtain ⟨rfl, htail⟩ := List.cons.inj h
    obtain ⟨rfl, _⟩ := List.cons.inj htail
    refine ⟨(hits_iff _ _ _ _).mp (by decide), ?_⟩
    intro g hg
    rw [List.mem_singleton] at hg
    subst hg
    exact fun hhit => absurd ((hits_iff _ _ _ _).mpr hhit) (by decide)
  | _ :: _ :: _, h => simp at h

/-- In the shell's order `batch-16` comes first and is returned for `batch-1`. -/
theorem table_wrong_16_1 :
    ([batch16, batch1].map fun f => ((f.param .msg).value, (f.param .batch).value)).Nodup ∧
      ¬ TableCorrect List.length [batch16, batch1] .msg .batch := by
  refine ⟨by decide, fun h => ?_⟩
  have hfind := (h batch1 (by simp)).1
  exact absurd hfind (by decide)

end Nvpkt.Guarantees.TableLookup
