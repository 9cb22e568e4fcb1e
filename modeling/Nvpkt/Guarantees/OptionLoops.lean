import Nvpkt.Source.ToolOptions

/-!
# What the tools make of a command line

Each of the four loops ends with what the last argument of every option says, or with the
defaults, and returns early at the first option that it does not know, or at a negative
`-n` of `load-and-xmit` (`option_loops_exact`). The `-B` that this tool's usage names is
not in its `optstring`: the `case 'B'` is never reached and the batch size stays 1. What
`dump-nvme` and `recv-to-pram` are not told stays unassigned.
-/

set_option autoImplicit false

namespace Nvpkt.Guarantees.OptionLoops
open Nvpkt.Library.CommandLine
open Nvpkt.Source.ToolOptions

/-- The variables of `load-and-xmit` for the last argument of each option. -/
def loadBody (given : Char → Option Text) : LoadBody :=
  { nmName := given 'i', nvmePci := given 'p', nblocks := ((given 'n').map atoi).getD 0
    slba := ((given 's').map lba).getD 0, count := ((given 'c').map atoi).getD 0
    usleep := ((given 'u').map atoi).getD 0, batchSize := ((given 'B').map atoi).getD 1
    useBuildPkt := (given 'b').isSome }

/-- Those of `xmit-from-pram`, -/
def pramBody (given : Char → Option Text) : PramBody :=
  { nmName := given 'i', count := ((given 'c').map atoi).getD 0
    usleep := ((given 'u').map atoi).getD 0, pktlen := ((given 'l').map atoi).getD 512
    noWrite := (given 'n').isSome, batch := ((given 'b').map atoi).getD 1 }

/-- of `dump-nvme` -/
def dumpVars (given : Char → Option Text) : DumpVars :=
  { pci := given 'p', slba := (given 's').map lba, nblocks := (given 'n').map lba }

/-- and of `recv-to-pram`. -/
def recvVars (given : Char → Option Text) : RecvVars :=
  { nmName := given 'i', noP2pmem := (given 'n').isSome }

/-- The option has a `case`, and its value passes the check there. -/
def Takes (cases : List Char) (check : Char → Text → Prop) : Opt → Prop
  | .option c optarg => c ∈ cases ∧ check c optarg
  | .unknown => False

/-- The one check there is: `-n` of `load-and-xmit` is not negative. -/
def loadCheck (c : Char) (optarg : Text) : Prop := c = 'n' → 0 ≤ atoi optarg

section Steps
variable (given : Char → Option Text) (o : Opt)

theorem loadOption_iff (body : LoadBody) : loadOption (loadBody given) o = some body ↔
    Takes ['i', 's', 'n', 'p', 'c', 'b', 'u', 'B'] loadCheck o ∧
      body = loadBody (give given o) := by
  cases o with
  | unknown => simp [loadOption, Takes]
  | option c optarg =>
    unfold loadOption
    split <;> simp_all [Takes, loadCheck, loadBody, give, Function.update, eq_comm]

theorem pramOption_iff (body : PramBody) : pramOption (pramBody given) o = some body ↔
    Takes ['i', 'c', 'u', 'n', 'b', 'l'] (fun _ _ => True) o ∧
      body = pramBody (give given o) := by
  cases o with
  | unknown => simp [pramOption, Takes]
  | option c optarg =>
    unfold pramOption
    split <;> simp_all [Takes, pramBody, give, Function.update, eq_comm]

theorem dumpOption_iff (vars : DumpVars) : dumpOption (dumpVars given) o = some vars ↔
    Takes ['p', 's', 'n'] (fun _ _ => True) o ∧ vars = dumpVars (give given o) := by
  cases o with
  | unknown => simp [dumpOption, Takes]
  | option c optarg =>
    unfold dumpOption
    split <;> simp_all [Takes, dumpVars, give, Function.update, eq_comm]

theorem recvOption_iff (vars : RecvVars) : recvOption (recvVars given) o = some vars ↔
    Takes ['i', 'n'] (fun _ _ => True) o ∧ vars = recvVars (give given o) := by
  cases o with
  | unknown => simp [recvOption, Takes]
  | option c optarg =>
    unfold recvOption
    split <;> simp_all [Takes, recvVars, give, Function.update, eq_comm]

end Steps

/-- Where every option of `optstring` has a `case`, only what is unknown or fails the check
ends the loop. -/
theorem takes_all {optstring cases : List Char} {check : Char → Text → Prop} {argv : List Text}
    (hcases : optstring.all fun c => c == ':' || cases.contains c) :
    (∀ o ∈ getopt optstring argv, Takes cases check o) ↔
      .unknown ∉ getopt optstring argv ∧
        ∀ c optarg, .option c optarg ∈ getopt optstring argv → check c optarg := by
  constructor
  · exact fun hall => ⟨fun hmem => hall _ hmem, fun c optarg hmem => (hall _ hmem).2⟩
  · rintro ⟨hknown, hcheck⟩ o ho
    cases o with
    | unknown => exact hknown ho
    | option c optarg =>
      obtain ⟨hmem, hcolon⟩ := takesArg_mem (getopt_known ho)
      have hlisted := List.all_eq_true.mp hcases c hmem
      rw [Bool.or_eq_true, beq_iff_eq, List.contains_iff_mem] at hlisted
      exact ⟨hlisted.resolve_left hcolon, hcheck c optarg ho⟩

/-- What one of the loops ends with. -/
theorem loop_iff {β : Type} {f : β → Opt → Option β} {build : (Char → Option Text) → β}
    {cases : List Char} {check : Char → Text → Prop} (optstring : List Char) (argv : List Text)
    (s : β)
    (hstep : ∀ given o t, f (build given) o = some t ↔
      Takes cases check o ∧ t = build (give given o))
    (hcases : optstring.all fun c => c == ':' || cases.contains c) :
    (getopt optstring argv).foldlM f (build fun _ => none) = some s ↔
      (.unknown ∉ getopt optstring argv ∧
        ∀ c optarg, .option c optarg ∈ getopt optstring argv → check c optarg) ∧
      s = build (lastGiven (getopt optstring argv)) := by
  rw [optionLoop_iff _ _ hstep, takes_all hcases]
  rfl

/-- `-B` is not an option of `load-and-xmit`. -/
theorem batchSize_default (argv : List Text) :
    (loadBody (lastGiven (getopt loadOptstring argv))).batchSize = 1 := by
  have hmissing : lastGiven (getopt loadOptstring argv) 'B' = none := by
    apply foldl_give_of_missing
    intro optarg hmem
    exact absurd (takesArg_mem (getopt_known hmem)).1 (by decide)
  rw [loadBody, hmissing]
  rfl

/-- For every command line of the four tools: when the option loop goes through, and what the
variables are then, in which only the last argument of an option counts. The batch size of
`load-and-xmit` is 1 whatever the command line says. -/
theorem option_loops_exact (argv : List Text) :
    (∀ body, loadOptions argv = some body ↔
      (.unknown ∉ getopt loadOptstring argv ∧
        ∀ optarg, .option 'n' optarg ∈ getopt loadOptstring argv → 0 ≤ atoi optarg) ∧
      body = { loadBody (lastGiven (getopt loadOptstring argv)) with batchSize := 1 }) ∧
    (∀ body, pramOptions argv = some body ↔ .unknown ∉ getopt pramOptstring argv ∧
      body = pramBody (lastGiven (getopt pramOptstring argv))) ∧
    (∀ vars, dumpOptions argv = some vars ↔ .unknown ∉ getopt dumpOptstring argv ∧
      vars = dumpVars (lastGiven (getopt dumpOptstring argv))) ∧
    (∀ vars, recvOptions argv = some vars ↔ .unknown ∉ getopt recvOptstring argv ∧
      vars = recvVars (lastGiven (getopt recvOptstring argv))) := by
  refine ⟨fun body => ?_, fun body => ?_, fun vars => ?_, fun vars => ?_⟩
  · have hchecks : (∀ c optarg, .option c optarg ∈ getopt loadOptstring argv →
          loadCheck c optarg) ↔
        ∀ optarg, .option 'n' optarg ∈ getopt loadOptstring argv → 0 ≤ atoi optarg :=
      ⟨fun h optarg hmem => h 'n' optarg hmem rfl,
        fun h c optarg hmem hn => h optarg (hn ▸ hmem)⟩
    have hloop := loop_iff loadOptstring argv body loadOption_iff rfl
    rw [← batchSize_default argv, ← hchecks]
    exact hloop
  · exact (loop_iff _ argv body pramOption_iff rfl).trans (by simp)
  · exact (loop_iff _ argv vars dumpOption_iff rfl).trans (by simp)
  · exact (loop_iff _ argv vars recvOption_iff rfl).trans (by simp)

end Nvpkt.Guarantees.OptionLoops
