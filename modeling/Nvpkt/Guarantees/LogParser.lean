import Mathlib.Algebra.Order.Ring.Rat
import Nvpkt.Guarantees.TableLookup
import Nvpkt.Source.BenchLog

/-!
# The parser reads what the benchmark printed

An INTERIM line is the only one with that word, unless the name of the device brings it
in, and its second and sixth field are the rates of I/Os and of bytes. So `parse` returns
the order statistics of just these rates, in whatever order the lines come
(`parse_output`).
-/

set_option autoImplicit false

namespace Nvpkt.Guarantees.LogParser
open Nvpkt.Library.SeparatedText Nvpkt.Library.TextLines Nvpkt.Library.OrderStatistics
open Nvpkt.Source.ParserPy Nvpkt.Source.BenchLog
open Nvpkt.Guarantees.TableLookup

/-! ## Characters of the printed numbers -/

section Characters
variable {c : Char}

theorem decimal_not_mem (d : Decimal) (hdigit : c.isDigit = false) (hdot : c ≠ '.') :
    c ∉ d.text := by
  have hwhole := numeral_not_mem d.whole hdigit
  have htenths : c ≠ d.tenths := by
    intro heq
    rw [heq, d.tenths_digit] at hdigit
    exact Bool.noConfusion hdigit
  have hhundredths : c ≠ d.hundredths := by
    intro heq
    rw [heq, d.hundredths_digit] at hdigit
    exact Bool.noConfusion hdigit
  simp [Decimal.text, hwhole, hdot, htenths, hhundredths]

theorem intText_not_mem (n : Int) (hdigit : c.isDigit = false) (hminus : c ≠ '-') :
    c ∉ intText n := by
  have hdigits := toDigits_not_mem n.natAbs hdigit
  unfold intText
  split
  · simp [hdigits, hminus]
  · exact hdigits

theorem mem_toDigits {b n : Nat} (hb : 1 < b) (h : c ∈ Nat.toDigits b n) :
    ∃ d < b, c = Nat.digitChar d := by
  induction n using Nat.strong_induction_on with
  | _ n ih =>
    rw [Nat.toDigits_eq_if hb] at h
    split at h
    · rename_i hlt
      exact ⟨n, hlt, List.mem_singleton.mp h⟩
    · obtain h | h := List.mem_append.mp h
      · exact ih (n / b) (Nat.div_lt_self (by omega) hb) h
      · exact ⟨n % b, Nat.mod_lt _ (by omega), List.mem_singleton.mp h⟩

theorem hexText_not_mem (n : Nat) : 'T' ∉ hexText n := by
  have hdigits : 'T' ∉ Nat.toDigits 16 n := by
    intro h
    obtain ⟨d, hlt, heq⟩ := mem_toDigits (by decide) h
    revert heq
    revert d
    decide
  unfold hexText
  split
  · decide
  · simp [hdigits]

theorem rates_not_mem (r : Rates) (hdigit : c.isDigit = false) (hdot : c ≠ '.')
    (hunits : c ∉ " iops, ".toList ++ " kiops, ".toList ++ " Bps, ".toList ++ " MBps".toList) :
    c ∉ r.text := by
  have hdecimal : ∀ d : Decimal, c ∉ d.text := fun d => decimal_not_mem d hdigit hdot
  simp only [List.mem_append, not_or] at hunits
  simp only [Rates.text, List.mem_append, hdecimal, hunits, or_self, not_false_eq_true]

end Characters

/-! ## The lines -/

section Lines
variable {V : Type} {float : Text → Option V} {pci : Text} {found : List V × List V}

theorem interim_missing {text : Text} (h : 'T' ∉ text) : ¬ interim <:+: text :=
  not_occurs_of_missing (by decide) h

/-- The word cannot begin in front of the device's name. -/
theorem interim_pci (front : Text) (hpci : ¬ interim <:+: pci) (hfront : ¬ interim <:+: front) :
    ¬ interim <:+: front ++ ' ' :: pci := by
  rw [occurs_append_sep _ _ (by decide)]
  exact fun h => h.elim hfront hpci

/-- No other line has the word. -/
theorem interim_not_mem (hpci : ¬ interim <:+: pci) (line : Line)
    (hline : ∀ rates, line ≠ .interim rates) : ¬ interim <:+: line.text pci := by
  have hint : ∀ n, 'T' ∉ intText n := fun n => intText_not_mem n (by decide) (by decide)
  have hnat : ∀ n, 'T' ∉ Nat.toDigits 10 n := fun n => toDigits_not_mem n (by decide)
  cases line with
  | configuration => dsimp only [Line.text]; exact interim_missing (by decide)
  | mode m => cases m <;> dsimp only [Line.text] <;> exact interim_missing (by decide)
  | walk w => cases w <;> dsimp only [Line.text] <;> exact interim_missing (by decide)
  | size n => exact interim_missing (List.not_mem_append (by decide) (hint n))
  | batch n => exact interim_missing (List.not_mem_append (by decide) (hint n))
  | device =>
    have hfront : "device:     ".toList = "device:    ".toList ++ [' '] := by decide
    dsimp only [Line.text]
    rw [hfront, List.append_assoc]
    exact interim_pci _ hpci (by decide)
  | ncpus n => exact interim_missing (List.not_mem_append (by decide) (hint n))
  | time n => exact interim_missing (List.not_mem_append (by decide) (hint n))
  | rule => dsimp only [Line.text]; exact interim_missing (by decide)
  | startBenchmarking => dsimp only [Line.text]; exact interim_missing (by decide)
  | start qid slba nblocks n =>
    apply interim_missing
    dsimp only [Line.text]
    simp only [List.mem_append, hint, hnat, hexText_not_mem]
    decide
  | pollTimeout cpu => exact interim_missing (List.not_mem_append (by decide) (hint cpu))
  | interim rates => exact absurd rfl (hline rates)
  | close =>
    have hfront : "close nvme ".toList = "close nvme".toList ++ [' '] := by decide
    dsimp only [Line.text]
    rw [hfront, List.append_assoc]
    exact interim_pci _ hpci (by decide)
  | final qid rates =>
    apply interim_missing
    dsimp only [Line.text]
    have hrates : 'T' ∉ rates.text :=
      rates_not_mem rates (by decide) (by decide) (by decide)
    simp only [List.mem_append, List.mem_cons, hint, hrates]
    decide

/-- Lines without the word are passed over. -/
theorem collect_skips {lines : List Text} (h : ∀ line ∈ lines, ¬ interim <:+: line) :
    lines.foldlM (collectLine float) found = some found := by
  induction lines with
  | nil => rfl
  | cons line lines ih =>
    rw [List.forall_mem_cons] at h
    rw [List.foldlM_cons, collectLine, if_neg h.1]
    exact ih h.2

theorem collect_other (hpci : ¬ interim <:+: pci) (line : Line)
    (hline : ∀ rates, line ≠ .interim rates) :
    (fileLines (line.text pci ++ ['\n'])).foldlM (collectLine float) found = some found := by
  refine collect_skips fun fileLine hmem hinterim => ?_
  have hprinted := occurs_fileLines (by decide) hmem hinterim
  rw [occurs_append_sep _ _ (by decide)] at hprinted
  obtain hprinted | hprinted := hprinted
  · exact interim_not_mem hpci line hline hprinted
  · exact absurd (List.infix_nil.mp hprinted) (by decide)

/-- The fields of an INTERIM line. -/
theorem interim_fields (r : Rates) :
    ((Line.interim r).text pci ++ ['\n']).splitOn ' ' =
      ["[INTERIM]".toList, r.iops.text, "iops,".toList, r.kiops.text, "kiops,".toList, r.bps.text,
        "Bps,".toList, r.mbps.text, "MBps\n".toList] := by
  have hdecimal : ∀ d : Decimal, ' ' ∉ d.text := fun d => decimal_not_mem d (by decide) (by decide)
  have hjoin : (Line.interim r).text pci ++ ['\n'] = [' '].intercalate
      ["[INTERIM]".toList, r.iops.text, "iops,".toList, r.kiops.text, "kiops,".toList, r.bps.text,
        "Bps,".toList, r.mbps.text, "MBps\n".toList] := by
    dsimp only [Line.text, Rates.text]
    simp [List.intercalate]
  rw [hjoin, List.splitOn_intercalate]
  · simp [hdecimal]
  · exact List.cons_ne_nil _ _

/-- An INTERIM line adds its rates of I/Os and of bytes. -/
theorem collect_interim {value : Decimal → V} (hfloat : ∀ d, float d.text = some (value d))
    (r : Rates) :
    (fileLines ((Line.interim r).text pci ++ ['\n'])).foldlM (collectLine float) found =
      some (found.1 ++ [value r.iops], found.2 ++ [value r.bps]) := by
  have hnl : '\n' ∉ (Line.interim r).text pci :=
    List.not_mem_append (by decide) (rates_not_mem r (by decide) (by decide) (by decide))
  have hcr : '\r' ∉ (Line.interim r).text pci :=
    List.not_mem_append (by decide) (rates_not_mem r (by decide) (by decide) (by decide))
  have hword : interim <:+: (Line.interim r).text pci ++ ['\n'] := by
    have hfront : interim <:+: "[INTERIM] ".toList := by decide
    exact hfront.trans ((List.prefix_append _ _).trans (List.prefix_append _ _)).isInfix
  have hvalues : lineValues float ((Line.interim r).text pci ++ ['\n']) =
      some (value r.iops, value r.bps) := by
    simp [lineValues, interim_fields, hfloat]
  rw [fileLines_plain hnl hcr, List.foldlM_cons, collectLine, if_pos hword, hvalues]
  rfl

theorem collect_log {value : Decimal → V} (hfloat : ∀ d, float d.text = some (value d))
    (hpci : ¬ interim <:+: pci) (log : List Line) :
    (fileLines (output pci log)).foldlM (collectLine float) found =
      some (found.1 ++ (interims log).map (value ·.iops),
        found.2 ++ (interims log).map (value ·.bps)) := by
  induction log generalizing found with
  | nil => simp [output, interims]
  | cons line log ih =>
    have hsplit : output pci (line :: log) = line.text pci ++ '\n' :: output pci log := by
      rw [output, List.flatMap_cons, List.append_assoc]
      rfl
    rw [hsplit, fileLines_append, List.foldlM_append]
    by_cases hline : ∃ r, line = .interim r
    · obtain ⟨r, rfl⟩ := hline
      rw [collect_interim hfloat, Option.bind_eq_bind, Option.bind_some, ih]
      simp [interims]
    · rw [not_exists] at hline
      have hnone : interims (line :: log) = interims log := by
        cases line <;> first | rfl | exact absurd rfl (hline _)
      rw [collect_other hpci line hline, Option.bind_eq_bind, Option.bind_some, ih, hnone]

/-- What is parsed of an output with an INTERIM line summarizes its rates. -/
theorem parse_log [LinearOrder V] (mean : V → V → V) {value : Decimal → V}
    (hfloat : ∀ d, float d.text = some (value d)) (hpci : ¬ interim <:+: pci) {log : List Line}
    (hlog : interims log ≠ []) :
    ∃ d, parse float mean (output pci log) = some d ∧
      Summarizes mean ((interims log).map (value ·.iops)) d.iops d.iopsMax d.iopsMin ∧
      Summarizes mean ((interims log).map (value ·.bps)) d.bps d.bpsMax d.bpsMin := by
  have hcollect : collect float (output pci log) =
      some ((interims log).map (value ·.iops), (interims log).map (value ·.bps)) :=
    collect_log hfloat hpci log
  have hnil : ∀ f : Rates → V, (interims log).map f ≠ [] := fun f hnil =>
    hlog (List.map_eq_nil_iff.mp hnil)
  obtain ⟨iops, iopsMax, iopsMin, hiops, hiopsMax, hiopsMin, hsum⟩ :=
    exists_summary mean (hnil (value ·.iops))
  obtain ⟨bps, bpsMax, bpsMin, hbps, hbpsMax, hbpsMin, hsum'⟩ :=
    exists_summary mean (hnil (value ·.bps))
  refine ⟨{ iops, iopsMax, iopsMin, bps, bpsMax, bpsMin }, ?_, hsum, hsum'⟩
  simp [parse, hcollect, hiops, hiopsMax, hiopsMin, hbps, hbpsMax, hbpsMin]

end Lines

/-- Of every output with an INTERIM line `parse` collects the rates of these lines, in
their order, and nothing else, and returns what summarizes them. -/
theorem parse_output {V : Type} [LinearOrder V] (float : Text → Option V) (mean : V → V → V)
    (value : Decimal → V) (hfloat : ∀ d, float d.text = some (value d)) (pci : Text)
    (hpci : ¬ interim <:+: pci) (log : List Line) (hlog : interims log ≠ []) :
    let iopses := (interims log).map (value ·.iops)
    let bpses := (interims log).map (value ·.bps)
    collect float (output pci log) = some (iopses, bpses) ∧
      ∃ d, parse float mean (output pci log) = some d ∧
        Summarizes mean iopses d.iops d.iopsMax d.iopsMin ∧
        Summarizes mean bpses d.bps d.bpsMax d.bpsMin :=
  ⟨collect_log hfloat hpci log, parse_log mean hfloat hpci hlog⟩

/-- The value of a numeral with two decimals. -/
def exact (text : Text) : ℚ := Nat.ofDigitChars 10 (text.filter Char.isDigit) 0 / 100

/-- `2.50 iops, 0.00 kiops, 1280.00 Bps, 0.00 MBps` -/
def slowRates : Rates :=
  let zero : Decimal := ⟨⟨['0'], by decide, List.all_eq_true.mp rfl⟩, '0', '0', rfl, rfl⟩
  { iops := ⟨⟨['2'], by decide, List.all_eq_true.mp rfl⟩, '5', '0', rfl, rfl⟩
    kiops := zero
    bps := ⟨⟨['1', '2', '8', '0'], by decide, List.all_eq_true.mp rfl⟩, '0', '0', rfl, rfl⟩
    mbps := zero }

theorem parse_slow_run :
    let log : List Line := [.configuration, .device, .start 0 1 1 1, .interim slowRates,
      .pollTimeout 0, .interim slowRates, .close, .final 0 slowRates]
    let pci := "b3:00.0".toList
    collect (some ∘ exact) (output pci log) = some ([exact slowRates.iops.text,
        exact slowRates.iops.text], [exact slowRates.bps.text, exact slowRates.bps.text]) ∧
      ∃ d, parse (some ∘ exact) (fun a b => (a + b) / 2) (output pci log) = some d ∧
        Summarizes (fun a b => (a + b) / 2) [exact slowRates.iops.text,
          exact slowRates.iops.text] d.iops d.iopsMax d.iopsMin ∧
        Summarizes (fun a b => (a + b) / 2) [exact slowRates.bps.text,
          exact slowRates.bps.text] d.bps d.bpsMax d.bpsMin :=
  parse_output (some ∘ exact) (fun a b => (a + b) / 2) (fun d => exact d.text) (fun _ => rfl) _
    (by decide) _ (List.cons_ne_nil _ _)

end Nvpkt.Guarantees.LogParser
