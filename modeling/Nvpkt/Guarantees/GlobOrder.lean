import Nvpkt.Guarantees.TableLookup

/-!
# The tables of all.sh

`all.sh` gives `parser.py` what the shell makes of a pattern: the outputs of one series of
runs, in increasing order of their names. The order is that of the bytes, which is the
shell's in the C locale; other locales may order names in their own way. In it a batch or
message size stands behind all longer numbers that begin with it, since an underscore
follows its digits, but a number of cpus in front of them, since a dot follows it. So only
the last field is looked up correctly whatever its numbers are (`glob_lookups_iff`).
-/

set_option autoImplicit false

namespace Nvpkt.Guarantees.GlobOrder
open Nvpkt.Library.SeparatedText Nvpkt.Source.ParserPy
open Nvpkt.Guarantees.TableLookup

/-- What the shell makes, in the C locale, of a pattern for a whole grid of runs: in the
order of the bytes of their names, all of one walk, with the same third parameter. -/
structure Globbed (xkey vkey : Key) (files : List BenchFile) : Prop where
  sorted : (files.map (·.path)).Pairwise (· < ·)
  stem : ∀ f ∈ files, ∀ g ∈ files, f.stem = g.stem
  walk : ∀ f ∈ files, ∀ g ∈ files, f.walk = g.walk
  plain : ∀ f ∈ files, ∀ key : Key, ¬ key.name <:+: f.stem ∧ ¬ key.name <:+: walkField f
  canonical : ∀ f ∈ files, ∀ key, Nat.toDigits 10 (f.param key).value = (f.param key).digits
  fixed : ∀ f ∈ files, ∀ g ∈ files, ∀ key, key ≠ xkey → key ≠ vkey → f.param key = g.param key
  full : ∀ f ∈ files, ∀ g ∈ files, ∃ h ∈ files,
    h.param xkey = f.param xkey ∧ h.param vkey = g.param vkey

/-- Every cell of the table is read from its own file. -/
def LookedUp (xkey vkey : Key) (files : List BenchFile) : Prop :=
  ∀ f ∈ files, findFileByKey
    [keyText xkey (f.param xkey).value, keyText vkey (f.param vkey).value]
    (files.map (·.path)) = some f.path

/-- No number of the axis begins with another one. -/
def PrefixFree (key : Key) (files : List BenchFile) : Prop :=
  ∀ f ∈ files, ∀ g ∈ files, (f.param key).digits <+: (g.param key).digits →
    f.param key = g.param key

section Names
variable {f g : BenchFile} {key : Key}

theorem digits_inj {m n : Numeral} (h : m.digits = n.digits) : m = n := by
  cases m
  cases n
  cases h
  rfl

/-- The digits with which a longer number goes on. -/
theorem longer_digit {m n : Numeral} (hbegins : m.digits <+: n.digits) (hne : m ≠ n) :
    ∃ c rest, n.digits = m.digits ++ c :: rest ∧ c.isDigit = true := by
  obtain ⟨tail, htail⟩ := hbegins
  cases tail with
  | nil => exact absurd (digits_inj (by rw [← htail, List.append_nil])) hne
  | cons c rest =>
    have hmem : c ∈ n.digits := by
      rw [← htail]
      exact List.mem_append_right _ List.mem_cons_self
    exact ⟨c, rest, htail.symm, n.decimal c hmem⟩

theorem digit_lt_underscore {c : Char} (h : c.isDigit = true) : c < '_' := by
  have hval : c.val ≤ '9'.val := by
    simp only [Char.isDigit, Bool.and_eq_true, decide_eq_true_eq] at h
    exact h.2
  exact Nat.lt_of_le_of_lt hval (by decide)

theorem dot_lt_digit {c : Char} (h : c.isDigit = true) : '.' < c := by
  have hval : '0'.val ≤ c.val := by
    simp only [Char.isDigit, Bool.and_eq_true, decide_eq_true_eq] at h
    exact h.1
  exact Nat.lt_of_lt_of_le (by decide : '.'.val.toNat < '0'.val.toNat) hval

/-- The name in front of the digits of the key, -/
def front (key : Key) (f : BenchFile) : Text :=
  let walked := f.stem ++ '_' :: (walkField f ++ '_' :: (Key.msg.name ++ ['-']))
  let sized := walked ++ f.msg.digits ++ '_' :: (Key.batch.name ++ ['-'])
  match key with
  | .msg => walked
  | .batch => sized
  | .cpu => sized ++ f.batch.digits ++ '_' :: (Key.cpu.name ++ ['-'])

/-- what stands behind them, -/
def sep : Key → Char
  | .msg => '_'
  | .batch => '_'
  | .cpu => '.'

/-- and the rest. -/
def back (key : Key) (f : BenchFile) : Text :=
  let counted := Key.cpu.name ++ '-' :: (f.cpu.digits ++ txt)
  match key with
  | .msg => Key.batch.name ++ '-' :: (f.batch.digits ++ '_' :: counted)
  | .batch => counted
  | .cpu => ['t', 'x', 't']

theorem path_split (key : Key) (f : BenchFile) :
    f.path = front key f ++ ((f.param key).digits ++ sep key :: back key f) := by
  cases key <;> simp [BenchFile.path, front, sep, back, BenchFile.param, txt]

theorem front_eq (hstem : f.stem = g.stem) (hwalk : f.walk = g.walk)
    (hothers : ∀ other, other ≠ key → f.param other = g.param other) :
    front key f = front key g := by
  cases key with
  | msg => simp only [front, walkField, hstem, hwalk]
  | batch =>
    have hmsg : f.msg = g.msg := hothers .msg (by decide)
    simp only [front, walkField, hstem, hwalk, hmsg]
  | cpu =>
    have hmsg : f.msg = g.msg := hothers .msg (by decide)
    have hbatch : f.batch = g.batch := hothers .batch (by decide)
    simp only [front, walkField, hstem, hwalk, hmsg, hbatch]

/-- The names of two files that differ in one number, of which one begins with the other. -/
theorem paths_fork (key : Key) (hstem : f.stem = g.stem) (hwalk : f.walk = g.walk)
    (hothers : ∀ other, other ≠ key → f.param other = g.param other)
    (hbegins : (f.param key).digits <+: (g.param key).digits) (hne : f.param key ≠ g.param key) :
    ∃ c common rest, c.isDigit = true ∧ f.path = common ++ sep key :: back key f ∧
      g.path = common ++ c :: rest := by
  obtain ⟨c, rest, hlonger, hdigit⟩ := longer_digit hbegins hne
  refine ⟨c, front key f ++ (f.param key).digits, rest ++ sep key :: back key g, hdigit, ?_, ?_⟩
  · rw [path_split key f, List.append_assoc]
  · rw [path_split key g, ← front_eq hstem hwalk hothers, hlonger]
    simp only [List.append_assoc, List.cons_append]

/-- A batch or message size stands behind the longer numbers that begin with it, -/
theorem longer_first (hkey : key ≠ .cpu) (hstem : f.stem = g.stem) (hwalk : f.walk = g.walk)
    (hothers : ∀ other, other ≠ key → f.param other = g.param other)
    (hbegins : (f.param key).digits <+: (g.param key).digits) (hne : f.param key ≠ g.param key) :
    g.path < f.path := by
  obtain ⟨c, common, rest, hdigit, hf, hg⟩ := paths_fork key hstem hwalk hothers hbegins hne
  have hlt : c < sep key := by
    cases key with
    | msg | batch => exact digit_lt_underscore hdigit
    | cpu => exact absurd rfl hkey
  rw [hf, hg]
  exact append_cons_lt _ _ _ hlt

/-- and a number of cpus in front of them. -/
theorem longer_last (hstem : f.stem = g.stem) (hwalk : f.walk = g.walk)
    (hothers : ∀ other, other ≠ .cpu → f.param other = g.param other)
    (hbegins : f.cpu.digits <+: g.cpu.digits) (hne : f.cpu ≠ g.cpu) : f.path < g.path := by
  obtain ⟨c, common, rest, hdigit, hf, hg⟩ :=
    paths_fork .cpu hstem hwalk hothers hbegins hne
  rw [hf, hg]
  exact append_cons_lt _ _ _ (dot_lt_digit hdigit)

end Names

section Lookups
variable {xkey vkey : Key} {files : List BenchFile} {f g : BenchFile}

/-- In a name of such a file only the numbers can answer. -/
theorem Globbed.answers_iff (h : Globbed xkey vkey files) (hf : f ∈ files) (hg : g ∈ files)
    (key : Key) :
    Answers g key (f.param key).value ↔ (f.param key).digits <+: (g.param key).digits := by
  have hname : ∀ text : Text, ¬ key.name <:+: text → ¬ keyText key (f.param key).value <:+: text :=
    fun text hplain hoccurs => hplain ((List.prefix_append _ _).isInfix.trans hoccurs)
  obtain ⟨hstem, hwalk⟩ := h.plain g hg key
  rw [Answers, h.canonical f hf key]
  constructor
  · rintro (hin | hin | hdigits)
    · exact absurd hin (hname _ hstem)
    · exact absurd hin (hname _ hwalk)
    · exact hdigits
  · exact fun hdigits => .inr (.inr hdigits)

theorem Globbed.hits_iff (h : Globbed xkey vkey files) (hf : f ∈ files) (hg : g ∈ files) :
    Hits xkey vkey g f ↔ (f.param xkey).digits <+: (g.param xkey).digits ∧
      (f.param vkey).digits <+: (g.param vkey).digits :=
  and_congr (h.answers_iff hf hg xkey) (h.answers_iff hf hg vkey)

/-- Files with the same numbers on both axes are one file. -/
theorem Globbed.param_inj (h : Globbed xkey vkey files) (hf : f ∈ files) (hg : g ∈ files)
    (hx : f.param xkey = g.param xkey) (hv : f.param vkey = g.param vkey) (key : Key) :
    f.param key = g.param key := by
  by_cases hxkey : key = xkey
  · rw [hxkey, hx]
  · by_cases hvkey : key = vkey
    · rw [hvkey, hv]
    · exact h.fixed f hf g hg key hxkey hvkey

theorem Globbed.path_eq (h : Globbed xkey vkey files) (hf : f ∈ files) (hg : g ∈ files)
    (hx : f.param xkey = g.param xkey) (hv : f.param vkey = g.param vkey) : f.path = g.path := by
  have hparam := h.param_inj hf hg hx hv
  have hfront : front .cpu f = front .cpu g :=
    front_eq (h.stem f hf g hg) (h.walk f hf g hg) fun key _ => hparam key
  rw [path_split .cpu f, path_split .cpu g, hfront, hparam .cpu]
  rfl

theorem Globbed.distinct (h : Globbed xkey vkey files) :
    (files.map fun f => ((f.param xkey).value, (f.param vkey).value)).Nodup := by
  refine List.pairwise_map.mpr ((List.pairwise_map.mp h.sorted).imp_of_mem ?_)
  intro f g hf hg hlt heq
  have hparam : ∀ key, (f.param key).value = (g.param key).value → f.param key = g.param key := by
    intro key hvalue
    apply digits_inj
    rw [← h.canonical f hf key, ← h.canonical g hg key, hvalue]
  have hpath := h.path_eq hf hg (hparam xkey (congrArg Prod.fst heq))
    (hparam vkey (congrArg Prod.snd heq))
  rw [hpath] at hlt
  exact List.lt_irrefl g.path hlt

/-- A file is the one that is looked up when no other one that answers is before it. -/
theorem Globbed.lookup_iff (h : Globbed xkey vkey files) (hf : f ∈ files) :
    findFileByKey [keyText xkey (f.param xkey).value, keyText vkey (f.param vkey).value]
        (files.map (·.path)) = some f.path ↔
      ∀ g ∈ files, g.path < f.path → ¬ Hits xkey vkey g f := by
  obtain ⟨before, after, rfl⟩ := List.append_of_mem hf
  have hsplit := List.pairwise_append.mp (List.pairwise_map.mp h.sorted)
  have hself : Hits xkey vkey f f :=
    (h.hits_iff hf hf).mpr ⟨List.prefix_refl _, List.prefix_refl _⟩
  rw [TableLookup.lookup_iff xkey vkey before after f h.distinct, and_iff_right hself]
  constructor
  · intro hbefore g hg hlt
    rcases List.mem_append.mp hg with hg | hg
    · exact hbefore g hg
    · rcases List.mem_cons.mp hg with rfl | hg
      · exact absurd hlt (List.lt_irrefl _)
      · exact absurd hlt (List.lt_asymm ((List.pairwise_cons.mp hsplit.2.1).1 g hg))
  · intro hfirst g hg
    exact hfirst g (List.mem_append_left _ hg) (hsplit.2.2 g hg f List.mem_cons_self)

/-- The lookups are right when no batch or message size begins with another one. -/
theorem Globbed.lookedUp (h : Globbed xkey vkey files)
    (hfree : ∀ key, key = xkey ∨ key = vkey → key ≠ .cpu → PrefixFree key files) :
    LookedUp xkey vkey files := by
  intro f hf
  rw [h.lookup_iff hf]
  intro g hg hlt hhits
  obtain ⟨hx, hv⟩ := (h.hits_iff hf hg).mp hhits
  have hothers : ∀ key, key ≠ .cpu → f.param key = g.param key := by
    intro key hkey
    by_cases hxkey : key = xkey
    · subst hxkey
      exact hfree key (.inl rfl) hkey f hf g hg hx
    · by_cases hvkey : key = vkey
      · subst hvkey
        exact hfree key (.inr rfl) hkey f hf g hg hv
      · exact h.fixed f hf g hg key hxkey hvkey
  -- so at most the cpus differ, and then `f` is in front
  by_cases hcpu : f.cpu = g.cpu
  · have hall : ∀ key, f.param key = g.param key := by
      intro key
      by_cases hkey : key = .cpu
      · rw [hkey]
        exact hcpu
      · exact hothers key hkey
    rw [h.path_eq hf hg (hall xkey) (hall vkey)] at hlt
    exact List.lt_irrefl _ hlt
  · have hfront : f.cpu.digits <+: g.cpu.digits := by
      by_cases hxkey : Key.cpu = xkey
      · subst hxkey
        exact hx
      · by_cases hvkey : Key.cpu = vkey
        · subst hvkey
          exact hv
        · exact absurd (h.fixed f hf g hg .cpu hxkey hvkey) hcpu
    exact List.lt_asymm hlt
      (longer_last (h.stem f hf g hg) (h.walk f hf g hg) hothers hfront hcpu)

/-- A batch or message size that another one begins with is not looked up. -/
theorem Globbed.prefixFree (h : Globbed xkey vkey files) {key : Key}
    (haxis : key = xkey ∨ key = vkey) (hkey : key ≠ .cpu) (hlookups : LookedUp xkey vkey files) :
    PrefixFree key files := by
  intro f hf g hg hfront
  by_contra hne
  -- the file that differs from `f` in this number only
  obtain ⟨g', hg', hown, hothers⟩ : ∃ g' ∈ files, g'.param key = g.param key ∧
      ∀ other, other ≠ key → f.param other = g'.param other := by
    rcases haxis with rfl | rfl
    · obtain ⟨g', hg', hx, hv⟩ := h.full g hg f hf
      refine ⟨g', hg', hx, fun other hother => ?_⟩
      by_cases hvkey : other = vkey
      · rw [hvkey, hv]
      · exact h.fixed f hf g' hg' other hother hvkey
    · obtain ⟨g', hg', hx, hv⟩ := h.full f hf g hg
      refine ⟨g', hg', hv, fun other hother => ?_⟩
      by_cases hxkey : other = xkey
      · rw [hxkey, hx]
      · exact h.fixed f hf g' hg' other hxkey hother
  have hlt : g'.path < f.path := by
    refine longer_first hkey (h.stem f hf g' hg') (h.walk f hf g' hg') hothers ?_ ?_
    · rw [hown]
      exact hfront
    · rw [hown]
      exact hne
  have hanswers : ∀ other, (f.param other).digits <+: (g'.param other).digits := by
    intro other
    by_cases hother : other = key
    · rw [hother, hown]
      exact hfront
    · rw [hothers other hother]
  exact (h.lookup_iff hf).mp (hlookups f hf) g' hg' hlt
    ((h.hits_iff hf hg').mpr ⟨hanswers xkey, hanswers vkey⟩)

end Lookups

/-- For every glob of a grid of runs, and either choice of the axes: every cell of the table
is read from its own file exactly when no batch or message size on an axis begins with
another one. The numbers of cpus may. -/
theorem glob_lookups_iff (xkey vkey : Key) (files : List BenchFile)
    (h : Globbed xkey vkey files) :
    LookedUp xkey vkey files ↔
      ∀ key, key = xkey ∨ key = vkey → key ≠ .cpu → PrefixFree key files :=
  ⟨fun hlookups _ haxis hkey => h.prefixFree haxis hkey hlookups, h.lookedUp⟩

/-- `batch-16` is in front of `batch-1`. -/
theorem batches_globbed : Globbed .msg .batch [batch16, batch1] where
  sorted := by decide
  stem := by decide
  walk := by decide
  plain := by
    intro f hf key
    rcases List.mem_pair.mp hf with rfl | rfl <;> cases key <;> decide
  canonical := by
    intro f hf key
    rcases List.mem_pair.mp hf with rfl | rfl <;> cases key <;> rfl
  fixed := by
    intro f hf g hg key hmsg hbatch
    rcases List.mem_pair.mp hf with rfl | rfl <;> rcases List.mem_pair.mp hg with rfl | rfl <;>
      cases key <;> first | rfl | contradiction
  full := by decide

/-- So the cell of batch size 1 is not read from its own file. -/
example : ¬ PrefixFree .batch [batch16, batch1] :=
  fun h => absurd (h batch1 (by simp) batch16 (by simp) (by decide)) (by decide)

theorem glob_lookups_batch : LookedUp .msg .batch [batch16, batch1] ↔
    ∀ key, key = Key.msg ∨ key = .batch → key ≠ .cpu → PrefixFree key [batch16, batch1] :=
  glob_lookups_iff .msg .batch [batch16, batch1] batches_globbed

end Nvpkt.Guarantees.GlobOrder
