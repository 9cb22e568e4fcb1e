import Nvpkt.Guarantees.LogParser
import Nvpkt.Guarantees.Variants
import Nvpkt.Library.FallibleLoop
import Nvpkt.Source.ParserMain

/-!
# From the benchmark to the table

`bench-all.sh` runs `bench-nvme` over a grid of parameters, and `parser.py` makes a table
of the outputs. Where the table's lookups find the right files, row and column of a cell
name the parameters of the run whose rates the cell summarizes (`table_of_runs`). The
label of a row is its number in units of K or M, which only tells numbers below 2^30
apart (`xtic_exact`).
-/

set_option autoImplicit false

namespace Nvpkt.Guarantees.ResultTable
open Nvpkt.Library.FallibleLoop Nvpkt.Library.OrderStatistics
open Nvpkt.Source.ParserPy Nvpkt.Source.BenchLog Nvpkt.Source.ParserMain
open Nvpkt.Guarantees.TableLookup Nvpkt.Guarantees.Variants Nvpkt.Guarantees.LogParser

/-- A run of the benchmark: the name of its output and the lines in it. -/
structure BenchRun where
  file : BenchFile
  log : List Line

/-- The rates that a run has printed for the axis. -/
def rates {V : Type} (value : Decimal → V) (yaxis : YAxis) (log : List Line) : List V :=
  match yaxis with
  | .iops => (interims log).map (value ·.iops)
  | .bps => (interims log).map (value ·.bps)

/-- The numbers of a run on the two axes. -/
def place (xkey vkey : Key) (f : BenchFile) : Nat × Nat :=
  ((f.param xkey).value, (f.param vkey).value)

/-- Runs of a whole grid, whose outputs `find_file_by_key` and `variants` can tell apart. -/
structure Grid (xkey vkey : Key) (files : List BenchFile) : Prop where
  plain : ∀ f ∈ files, Plain xkey f ∧ Plain vkey f
  distinct : (files.map (place xkey vkey)).Nodup
  first : ∀ before f after, files = before ++ f :: after →
    Hits xkey vkey f f ∧ ∀ g ∈ before, ¬ Hits xkey vkey g f
  full : ∀ f ∈ files, ∀ g ∈ files, ∃ h ∈ files,
    (h.param xkey).value = (f.param xkey).value ∧ (h.param vkey).value = (g.param vkey).value

section Table
variable {V : Type} [LinearOrder V] {float : Text → Option V} {mean : V → V → V}
  {value : Decimal → V} {pci : Text} {content : Text → Option Text} {quotient : Int → Int}
  {xkey vkey : Key} {yaxis : YAxis} {runs : List BenchRun}

theorem intText_natCast (n : Nat) : intText (n : Int) = Nat.toDigits 10 n := by
  rw [intText, if_neg (by omega), Int.natAbs_natCast]

variable (mean yaxis) in
/-- What is parsed of a run's output. -/
theorem parseFile_run (hfloat : ∀ d, float d.text = some (value d)) (hpci : ¬ interim <:+: pci)
    {name : Text} {log : List Line} (hcontent : content name = some (output pci log))
    (hlog : interims log ≠ []) :
    ∃ c, parseFile float mean content yaxis name = some c ∧
      IsMedian mean (rates value yaxis log) c := by
  obtain ⟨d, hparse, hiops, hbps⟩ := parse_log mean hfloat hpci hlog
  cases yaxis with
  | iops => exact ⟨d.iops, by simp [parseFile, hcontent, hparse], hiops.median⟩
  | bps => exact ⟨d.bps, by simp [parseFile, hcontent, hparse], hbps.median⟩

variable (mean yaxis) in
/-- The cell of a run. -/
theorem cell_run (hgrid : Grid xkey vkey (runs.map (·.file)))
    (hfloat : ∀ d, float d.text = some (value d)) (hpci : ¬ interim <:+: pci)
    (hcontent : ∀ r ∈ runs, content r.file.path = some (output pci r.log))
    (hlog : ∀ r ∈ runs, interims r.log ≠ []) {r : BenchRun} (hr : r ∈ runs) :
    ∃ c, cell float mean content ((runs.map (·.file)).map (·.path)) xkey vkey yaxis
        (r.file.param xkey).value (r.file.param vkey).value = some c ∧
      IsMedian mean (rates value yaxis r.log) c := by
  obtain ⟨before, after, hsplit⟩ := List.append_of_mem (List.mem_map_of_mem (f := (·.file)) hr)
  have hdistinct := hgrid.distinct
  rw [hsplit] at hdistinct
  have hfind := (lookup_iff xkey vkey before after r.file hdistinct).mpr
    (hgrid.first before r.file after hsplit)
  obtain ⟨c, hc, hmedian⟩ := parseFile_run mean yaxis hfloat hpci
    (hcontent r hr) (hlog r hr)
  refine ⟨c, ?_, hmedian⟩
  rw [cell, formatKey, formatKey, intText_natCast, intText_natCast, hsplit]
  exact Option.bind_eq_some_iff.mpr ⟨_, hfind, hc⟩

/-- A cell in row `x` and column `v` is the median of the rates of every run there. -/
def CellOk (mean : V → V → V) (value : Decimal → V) (xkey vkey : Key) (yaxis : YAxis)
    (runs : List BenchRun) (x v : Int) (c : V) : Prop :=
  (∃ r ∈ runs, ((r.file.param xkey).value : Int) = x ∧ ((r.file.param vkey).value : Int) = v) ∧
  ∀ r ∈ runs, ((r.file.param xkey).value : Int) = x → ((r.file.param vkey).value : Int) = v →
    IsMedian mean (rates value yaxis r.log) c

theorem cell_ok (hgrid : Grid xkey vkey (runs.map (·.file)))
    (hfloat : ∀ d, float d.text = some (value d)) (hpci : ¬ interim <:+: pci)
    (hcontent : ∀ r ∈ runs, content r.file.path = some (output pci r.log))
    (hlog : ∀ r ∈ runs, interims r.log ≠ []) {f g : BenchFile} (hf : f ∈ runs.map (·.file))
    (hg : g ∈ runs.map (·.file)) :
    ∃ c, cell float mean content ((runs.map (·.file)).map (·.path)) xkey vkey yaxis
        (f.param xkey).value (g.param vkey).value = some c ∧
      CellOk mean value xkey vkey yaxis runs (f.param xkey).value (g.param vkey).value c := by
  obtain ⟨h, hh, hx, hv⟩ := hgrid.full f hf g hg
  obtain ⟨r, hr, rfl⟩ := List.mem_map.mp hh
  obtain ⟨c, hc, hmedian⟩ := cell_run mean yaxis hgrid hfloat hpci hcontent hlog hr
  rw [hx, hv] at hc
  refine ⟨c, hc, ⟨r, hr, congrArg Nat.cast hx, congrArg Nat.cast hv⟩, fun r' hr' hx' hv' => ?_⟩
  have hdistinct := hgrid.distinct
  rw [List.map_map] at hdistinct
  have hsame : place xkey vkey r'.file = place xkey vkey r.file :=
    Prod.ext (Int.ofNat.inj (hx'.trans (congrArg Nat.cast hx.symm)))
      (Int.ofNat.inj (hv'.trans (congrArg Nat.cast hv.symm)))
  rw [List.inj_on_of_nodup_map hdistinct hr' hr hsame]
  exact hmedian

end Table

/-- For every grid of runs whose outputs the lookups tell apart, in the order in which they
do, `parser.py` succeeds: the rows are the numbers of the x-axis in increasing order, the
columns those of the other, and each cell is the median of what the one run with both
numbers printed in its INTERIM lines. -/
theorem table_of_runs {V : Type} [LinearOrder V] (float : Text → Option V) (mean : V → V → V)
    (value : Decimal → V) (hfloat : ∀ d, float d.text = some (value d)) (quotient : Int → Int)
    (pci : Text) (hpci : ¬ interim <:+: pci) (xkey vkey : Key) (yaxis : YAxis)
    (runs : List BenchRun) (hgrid : Grid xkey vkey (runs.map (·.file)))
    (content : Text → Option Text)
    (hcontent : ∀ r ∈ runs, content r.file.path = some (output pci r.log))
    (hlog : ∀ r ∈ runs, interims r.log ≠ []) :
    ∃ table, main float mean quotient content ((runs.map (·.file)).map (·.path)) xkey vkey yaxis =
        some table ∧
      Axis (runs.map (·.file)) xkey table.xkeys ∧ Axis (runs.map (·.file)) vkey table.vkeys ∧
      List.Forall₂ (fun x row => row.xtic = xticText quotient x ∧
        List.Forall₂ (fun v c => CellOk mean value xkey vkey yaxis runs x v c)
          table.vkeys row.cells) table.xkeys table.rows := by
  have hxs := variants_eq fun f hf => (hgrid.plain f hf).1
  have hvs := variants_eq fun f hf => (hgrid.plain f hf).2
  have hxaxis := axis_exact (runs.map (·.file)) xkey
  have hvaxis := axis_exact (runs.map (·.file)) vkey
  generalize axis (runs.map (·.file)) xkey = xs at hxs hxaxis
  generalize axis (runs.map (·.file)) vkey = vs at hvs hvaxis
  let row : Int → Option (Row V) := fun x => do
    let cells ← vs.mapM fun v =>
      cell float mean content ((runs.map (·.file)).map (·.path)) xkey vkey yaxis x v
    return { xtic := xticText quotient x, cells := cells }
  have hrow : ∀ x ∈ xs, ∃ r, row x = some r ∧ r.xtic = xticText quotient x ∧
      List.Forall₂ (fun v c => CellOk mean value xkey vkey yaxis runs x v c) vs r.cells := by
    intro x hx
    obtain ⟨f, hf, rfl⟩ := (hxaxis.mem_iff x).mp hx
    have hcells : ∀ v ∈ vs, ∃ c,
        cell float mean content ((runs.map (·.file)).map (·.path)) xkey vkey yaxis
          (f.param xkey).value v = some c ∧
        CellOk mean value xkey vkey yaxis runs (f.param xkey).value v c := by
      intro v hv
      obtain ⟨g, hg, rfl⟩ := (hvaxis.mem_iff v).mp hv
      exact cell_ok hgrid hfloat hpci hcontent hlog hf hg
    obtain ⟨cells, hmap, hall⟩ := mapM_succeeds hcells
    exact ⟨_, by simp only [row, hmap]; rfl, rfl, hall⟩
  obtain ⟨rows, hmap, hrows⟩ := mapM_succeeds hrow
  refine ⟨{ xkeys := xs, vkeys := vs, rows := rows }, ?_, hxaxis, hvaxis, hrows⟩
  simp only [main, hxs, hvs, Option.bind_eq_bind, Option.bind_some]
  exact Option.bind_eq_some_iff.mpr ⟨rows, hmap, rfl⟩

def oneInterim : List Line := [.configuration, .device, .interim slowRates, .close]

/-- One message size in two batch sizes, the shorter number first. -/
def twoRuns : List BenchRun := [⟨batch1, oneInterim⟩, ⟨batch16, oneInterim⟩]

theorem twoRuns_grid : Grid .msg .batch (twoRuns.map (·.file)) where
  plain := by
    intro f hf
    rcases List.mem_pair.mp hf with rfl | rfl
    · exact ⟨⟨by decide, by decide, by decide⟩, ⟨by decide, by decide, by decide⟩⟩
    · exact ⟨⟨by decide, by decide, by decide⟩, ⟨by decide, by decide, by decide⟩⟩
  distinct := by decide
  first := by
    intro before f after h
    match before, h with
    | [], h =>
      obtain ⟨rfl, -⟩ := List.cons.inj h
      exact ⟨(hits_iff _ _ _ _).mp (by decide), by simp⟩
    | [g], h =>
      obtain ⟨rfl, htail⟩ := List.cons.inj h
      obtain ⟨rfl, -⟩ := List.cons.inj htail
      refine ⟨(hits_iff _ _ _ _).mp (by decide), fun g hg => ?_⟩
      obtain rfl := List.mem_singleton.mp hg
      exact fun hhit => absurd ((hits_iff _ _ _ _).mpr hhit) (by decide)
    | _ :: _ :: _, h => simp [twoRuns] at h
  full := by
    intro f hf g hg
    refine ⟨g, hg, ?_, rfl⟩
    rcases List.mem_pair.mp hf with rfl | rfl <;> rcases List.mem_pair.mp hg with rfl | rfl <;> rfl

theorem table_of_two_runs : ∃ table,
    main (some ∘ exact) (fun a b => (a + b) / 2) (· / 1024)
        (fun _ => some (output ['b', '3'] oneInterim)) ((twoRuns.map (·.file)).map (·.path)) .msg
        .batch .bps = some table ∧
      Axis (twoRuns.map (·.file)) .msg table.xkeys ∧
      Axis (twoRuns.map (·.file)) .batch table.vkeys ∧
      List.Forall₂ (fun x row => row.xtic = xticText (· / 1024) x ∧
        List.Forall₂ (fun v c => CellOk (fun a b => (a + b) / 2) (fun d => exact d.text) .msg .batch
          .bps twoRuns x v c) table.vkeys row.cells) table.xkeys table.rows := by
  refine table_of_runs (some ∘ exact) (fun a b => (a + b) / 2) (fun d => exact d.text)
    (fun _ => rfl) (· / 1024) ['b', '3'] (by decide) .msg .batch .bps twoRuns twoRuns_grid
    (fun _ => some (output ['b', '3'] oneInterim)) ?_ ?_
  · intro r hr
    rcases List.mem_pair.mp hr with rfl | rfl <;> rfl
  · intro r hr
    rcases List.mem_pair.mp hr with rfl | rfl <;> exact List.cons_ne_nil _ _

/-! ## The labels of the rows -/

/-- The unit that the label of a row is in. -/
def unit (x : Nat) : Nat := if x < 2 ^ 10 then 1 else if x < 2 ^ 20 then 2 ^ 10 else 2 ^ 20

def suffix (x : Nat) : Text := if x < 2 ^ 10 then [] else if x < 2 ^ 20 then ['K'] else ['M']

section Labels
variable {quotient : Int → Int} {fuel n : Nat} {x y : Nat}

theorem reduce_small (h : x < 1024) : reduce quotient fuel x n = ((x : Int), n) := by
  cases fuel with
  | zero => rfl
  | succ fuel => rw [reduce, if_neg (by omega)]

theorem reduce_large (hq : ∀ x : Int, 0 ≤ x → x < 2 ^ 53 → quotient x = x / 1024) (h : 1024 ≤ x)
    (hx : x < 2 ^ 53) :
    reduce quotient (fuel + 1) x n = reduce quotient fuel (x / 1024 : Nat) (n + 1) := by
  rw [reduce, if_pos (by omega), hq x (by omega) (by omega)]
  rfl

/-- The loop takes `k` passes for a number of `k` units of 1024. -/
theorem reduce_eq (hq : ∀ x : Int, 0 ≤ x → x < 2 ^ 53 → quotient x = x / 1024) (k : Nat)
    (hx : x < 2 ^ 53) (hfuel : k ≤ fuel) (hlow : k = 0 ∨ 1024 ^ k ≤ x)
    (hhigh : x < 1024 ^ (k + 1)) :
    reduce quotient fuel x n = (((x / 1024 ^ k : Nat) : Int), n + k) := by
  induction k generalizing fuel x n with
  | zero =>
    rw [reduce_small (by omega)]
    simp
  | succ k ih =>
    obtain ⟨fuel, rfl⟩ : ∃ f, fuel = f + 1 := ⟨fuel - 1, by omega⟩
    have hlow := hlow.resolve_left (Nat.succ_ne_zero k)
    have hbase : 1024 ^ (k + 1) = 1024 ^ k * 1024 := Nat.pow_succ ..
    have hnext : 1024 ^ (k + 1 + 1) = 1024 ^ (k + 1) * 1024 := Nat.pow_succ ..
    have hpos : 0 < 1024 ^ k := Nat.pow_pos (by decide)
    have hquotient : 1024 ^ k ≤ x / 1024 := by omega
    have hbound : x / 1024 < 1024 ^ (k + 1) := by omega
    rw [reduce_large hq (by omega) hx, ih (by omega) (by omega) (.inr hquotient) hbound,
      Nat.div_div_eq_div_mul, Nat.pow_succ', Nat.add_right_comm, Nat.add_assoc]

/-- The label of a number of `k` units. -/
theorem reduce_number (hq : ∀ x : Int, 0 ≤ x → x < 2 ^ 53 → quotient x = x / 1024) (k : Nat)
    (hx : x < 2 ^ 53) (hlow : k = 0 ∨ 1024 ^ k ≤ x) (hhigh : x < 1024 ^ (k + 1)) :
    reduce quotient (x : Int).toNat x 0 = (((x / 1024 ^ k : Nat) : Int), k) := by
  have hk : k ≤ x := by
    rcases hlow with rfl | hlow
    · exact Nat.zero_le x
    · exact Nat.le_trans (Nat.le_of_lt (Nat.lt_pow_self (by decide))) hlow
  rw [Int.toNat_natCast, reduce_eq hq k hx hk hlow hhigh, Nat.zero_add]

/-- Below 2^30 a label is the number of units and their suffix. -/
theorem xticText_below (hq : ∀ x : Int, 0 ≤ x → x < 2 ^ 53 → quotient x = x / 1024)
    (hx : x < 2 ^ 30) :
    xticText quotient x = Nat.toDigits 10 (x / unit x) ++ suffix x := by
  unfold xticText unit suffix
  by_cases hone : x < 2 ^ 10
  · rw [reduce_number hq 0 (by omega) (.inl rfl) (by omega), if_pos hone, if_pos hone, Nat.div_one,
      List.append_nil]
    exact intText_natCast x
  · rw [if_neg hone, if_neg hone]
    by_cases hkilo : x < 2 ^ 20
    · rw [reduce_number hq 1 (by omega) (.inr (by omega)) (by omega), if_pos hkilo, if_pos hkilo]
      exact congrArg (· ++ ['K']) (intText_natCast _)
    · rw [reduce_number hq 2 (by omega) (.inr (by omega)) (by omega), if_neg hkilo, if_neg hkilo]
      exact congrArg (· ++ ['M']) (intText_natCast _)

/-- From there on, up to 2^40, it is that of the number of units, without a suffix. -/
theorem xticText_above (hq : ∀ x : Int, 0 ≤ x → x < 2 ^ 53 → quotient x = x / 1024)
    (hlow : 2 ^ 30 ≤ x) (hhigh : x < 2 ^ 40) :
    xticText quotient x = xticText quotient (x / 2 ^ 30 : Nat) := by
  have hfew : x / 2 ^ 30 < 2 ^ 10 := by omega
  unfold xticText
  rw [reduce_number hq 3 (by omega) (.inr (by omega)) (by omega),
    reduce_number hq 0 (by omega) (.inl rfl) (by omega), Nat.pow_zero, Nat.div_one]
  rfl

theorem toDigits_inj {a b : Nat} (h : Nat.toDigits 10 a = Nat.toDigits 10 b) : a = b := by
  have hvalue := congrArg (fun digits => Nat.ofDigitChars 10 digits 0) h
  simpa only [Nat.ofDigitChars_toDigits (by decide : 1 < 10) (Nat.le_refl 10)] using hvalue

/-- The digits of a label end where its suffix begins. -/
theorem label_inj {a b : Nat} {s t : Text} (hs : s = [] ∨ s = ['K'] ∨ s = ['M'])
    (ht : t = [] ∨ t = ['K'] ∨ t = ['M'])
    (h : Nat.toDigits 10 a ++ s = Nat.toDigits 10 b ++ t) : a = b ∧ s = t := by
  have hdigits : ∀ (n : Nat) (u : Text), u = [] ∨ u = ['K'] ∨ u = ['M'] →
      (Nat.toDigits 10 n ++ u).filter Char.isDigit = Nat.toDigits 10 n := by
    intro n u hu
    have hall : (Nat.toDigits 10 n).filter Char.isDigit = Nat.toDigits 10 n :=
      List.filter_eq_self.mpr fun c hc => Nat.isDigit_of_mem_toDigits (by decide) (by decide) hc
    rw [List.filter_append, hall]
    rcases hu with rfl | rfl | rfl <;> simp
  have hfront := congrArg (List.filter Char.isDigit) h
  rw [hdigits a s hs, hdigits b t ht] at hfront
  rw [hfront] at h
  exact ⟨toDigits_inj hfront, List.append_cancel_left h⟩

theorem suffix_cases (x : Nat) : suffix x = [] ∨ suffix x = ['K'] ∨ suffix x = ['M'] := by
  unfold suffix
  split
  · exact .inl rfl
  · split
    · exact .inr (.inl rfl)
    · exact .inr (.inr rfl)

theorem unit_eq_iff {x y : Nat} : unit x = unit y ↔ suffix x = suffix y := by
  unfold unit suffix
  by_cases hx : x < 2 ^ 10
  · by_cases hy : y < 2 ^ 10
    · rw [if_pos hx, if_pos hx, if_pos hy, if_pos hy]
      decide
    · rw [if_pos hx, if_pos hx, if_neg hy, if_neg hy]
      split <;> decide
  · rw [if_neg hx, if_neg hx]
    by_cases hy : y < 2 ^ 10
    · rw [if_pos hy, if_pos hy]
      split <;> decide
    · rw [if_neg hy, if_neg hy]
      split <;> split <;> decide

end Labels

/-- Two numbers below 2^30 get the same label exactly when they have the same unit, 1, K or
M, and the same number of whole units; from 2^30 on, up to 2^40, the label is that of a
number below 1024. -/
theorem xtic_exact (quotient : Int → Int)
    (hq : ∀ x : Int, 0 ≤ x → x < 2 ^ 53 → quotient x = x / 1024) :
    (∀ x y : Nat, x < 2 ^ 30 → y < 2 ^ 30 →
      (xticText quotient x = xticText quotient y ↔ unit x = unit y ∧ x / unit x = y / unit y)) ∧
    ∀ x : Nat, 2 ^ 30 ≤ x → x < 2 ^ 40 →
      x / 2 ^ 30 < 1024 ∧ xticText quotient x = xticText quotient (x / 2 ^ 30 : Nat) := by
  refine ⟨fun x y hx hy => ?_, fun x hlow hhigh => ⟨by omega, xticText_above hq hlow hhigh⟩⟩
  rw [xticText_below hq hx, xticText_below hq hy, unit_eq_iff]
  constructor
  · intro h
    obtain ⟨hnumber, hsuffix⟩ := label_inj (suffix_cases x) (suffix_cases y) h
    exact ⟨hsuffix, hnumber⟩
  · rintro ⟨hsuffix, hnumber⟩
    rw [hsuffix, hnumber]

/-- Division of integers is exact where the real one is. -/
theorem xtic_exact_floor :
    (∀ x y : Nat, x < 2 ^ 30 → y < 2 ^ 30 →
      (xticText (· / 1024) x = xticText (· / 1024) y ↔
        unit x = unit y ∧ x / unit x = y / unit y)) ∧
    ∀ x : Nat, 2 ^ 30 ≤ x → x < 2 ^ 40 →
      x / 2 ^ 30 < 1024 ∧ xticText (· / 1024) x = xticText (· / 1024) (x / 2 ^ 30 : Nat) :=
  xtic_exact (· / 1024) fun _ _ _ => rfl

end Nvpkt.Guarantees.ResultTable
