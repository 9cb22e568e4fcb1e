import Mathlib.Algebra.Group.Int.Defs
import Mathlib.Algebra.Group.Nat.Defs
import Mathlib.Data.List.TakeWhile
import Mathlib.Data.Int.Order.Basic
import Mathlib.Logic.Function.Basic

/-!
# Command lines

`getopt` as the GNU C library has it: options may stand behind other arguments, several
may share one `-`, an argument follows its option directly or in the next word, and `--`
ends the options. `atoi` is `strtol`, which saturates at 64 bits, cut to an `int`.
-/

set_option autoImplicit false

namespace Nvpkt.Library.CommandLine

/-- What a call of `getopt` returns, with `optarg`; `unknown` is `'?'`. -/
inductive Opt where
  | option (c : Char) (optarg : List Char)
  | unknown
deriving DecidableEq

/-- Whether an option of `optstring` takes an argument. -/
def takesArg (optstring : List Char) (c : Char) : Option Bool :=
  if c = ':' then none
  else
    match optstring.dropWhile (· ≠ c) with
    | [] => none
    | _ :: ':' :: _ => some true
    | _ :: _ => some false

/-- The options of one word, and the one that takes the next word for its argument. -/
def cluster (optstring : List Char) : List Char → List Opt × Option Char
  | [] => ([], none)
  | c :: cs =>
    match takesArg optstring c with
    | none =>
      let rest := cluster optstring cs
      (.unknown :: rest.1, rest.2)
    | some false =>
      let rest := cluster optstring cs
      (.option c [] :: rest.1, rest.2)
    | some true => if cs = [] then ([], some c) else ([.option c cs], none)

/-- The options of the remaining words; the first of them may be an argument. -/
def scan (optstring : List Char) : Option Char → List (List Char) → List Opt
  | none, [] => []
  | some _, [] => [.unknown]
  | some c, word :: words => .option c word :: scan optstring none words
  | none, ('-' :: c :: cs) :: words =>
    if c = '-' ∧ cs = [] then []
    else
      let found := cluster optstring (c :: cs)
      found.1 ++ scan optstring found.2 words
  | none, _ :: words => scan optstring none words

/-- All calls of `getopt` on the words behind the program's name. -/
def getopt (optstring : List Char) (words : List (List Char)) : List Opt :=
  scan optstring none words

def isspace (c : Char) : Bool := c.toNat == 32 || (9 ≤ c.toNat && c.toNat ≤ 13)

/-- The optional sign and what follows it. -/
def sign : List Char → Bool × List Char
  | '-' :: s => (true, s)
  | '+' :: s => (false, s)
  | s => (false, s)

/-- `strtol` in base 10. -/
def strtol (s : List Char) : Int :=
  let signed := sign (s.dropWhile isspace)
  let magnitude : Int := Nat.ofDigitChars 10 (signed.2.takeWhile Char.isDigit) 0
  max (-2 ^ 63) (min (2 ^ 63 - 1) (if signed.1 then -magnitude else magnitude))

def atoi (s : List Char) : Int := (strtol s).bmod (2 ^ 32)

/-- The value of a digit, or one that is in no base. -/
def digit (c : Char) : Nat :=
  if c.isDigit then c.toNat - '0'.toNat
  else if c.isLower then c.toNat - 'a'.toNat + 10
  else if c.isUpper then c.toNat - 'A'.toNat + 10
  else 36

/-- The digits at the front of `s`. -/
def numeral (base : Nat) (s : List Char) : Nat :=
  (s.takeWhile (digit · < base)).foldl (fun n c => n * base + digit c) 0

/-- `strtol` in base 0, which takes the base from the prefix of the number. -/
def strtolAny (s : List Char) : Int :=
  let signed := sign (s.dropWhile isspace)
  let magnitude : Int :=
    match signed.2 with
    | '0' :: x :: c :: rest =>
      if (x = 'x' ∨ x = 'X') ∧ digit c < 16 then numeral 16 (c :: rest)
      else numeral 8 (x :: c :: rest)
    | '0' :: rest => numeral 8 rest
    | digits => numeral 10 digits
  max (-2 ^ 63) (min (2 ^ 63 - 1) (if signed.1 then -magnitude else magnitude))

/-! ## What an option loop sees -/

/-- The last argument of each option so far, after one more call. -/
def give (given : Char → Option (List Char)) : Opt → Char → Option (List Char)
  | .option c optarg => Function.update given c (some optarg)
  | .unknown => given

/-- The last argument of each option. -/
def lastGiven (opts : List Opt) : Char → Option (List Char) := opts.foldl give fun _ => none

section Loops
variable {β : Type} {f : β → Opt → Option β} {build : (Char → Option (List Char)) → β}
  {Takes : Opt → Prop} {opts : List Opt} {given : Char → Option (List Char)} {s : β} {c : Char}

/-- A loop whose passes follow what is given, and end it at the options it does not take. -/
theorem optionLoop_iff (opts : List Opt) (given : Char → Option (List Char))
    (hstep : ∀ given o t, f (build given) o = some t ↔ Takes o ∧ t = build (give given o)) :
    opts.foldlM f (build given) = some s ↔
      (∀ o ∈ opts, Takes o) ∧ s = build (opts.foldl give given) := by
  induction opts generalizing given with
  | nil => simp [eq_comm]
  | cons o opts ih =>
    rw [List.foldlM_cons, Option.bind_eq_bind, Option.bind_eq_some_iff, List.forall_mem_cons,
      List.foldl_cons]
    constructor
    · rintro ⟨t, ht, hrest⟩
      obtain ⟨htakes, rfl⟩ := (hstep given o t).mp ht
      obtain ⟨hall, hs⟩ := (ih _).mp hrest
      exact ⟨⟨htakes, hall⟩, hs⟩
    · rintro ⟨⟨htakes, hall⟩, hs⟩
      exact ⟨_, (hstep given o _).mpr ⟨htakes, rfl⟩, (ih _).mpr ⟨hall, hs⟩⟩

/-- What no call returns is not given. -/
theorem foldl_give_of_missing (h : ∀ optarg, .option c optarg ∉ opts) :
    opts.foldl give given c = given c := by
  induction opts generalizing given with
  | nil => rfl
  | cons o opts ih =>
    rw [List.foldl_cons, ih fun optarg hmem => h optarg (List.mem_cons_of_mem o hmem)]
    cases o with
    | unknown => rfl
    | option d optarg =>
      have hne : c ≠ d := by
        rintro rfl
        exact h optarg List.mem_cons_self
      exact Function.update_of_ne hne _ _

end Loops

section Known
variable {optstring : List Char} {c : Char} {optarg : List Char}

theorem takesArg_mem (h : takesArg optstring c ≠ none) : c ∈ optstring ∧ c ≠ ':' := by
  unfold takesArg at h
  split at h
  · exact absurd rfl h
  case isFalse hcolon =>
    refine ⟨?_, hcolon⟩
    by_contra hmissing
    have hall : optstring.dropWhile (· ≠ c) = [] := by
      rw [List.dropWhile_eq_nil_iff]
      intro d hd
      simpa using fun heq : d = c => hmissing (heq ▸ hd)
    rw [hall] at h
    exact h rfl

theorem cluster_known (c : Char) (cs : List Char) :
    (∀ optarg, .option c optarg ∈ (cluster optstring cs).1 → takesArg optstring c ≠ none) ∧
      ((cluster optstring cs).2 = some c → takesArg optstring c ≠ none) := by
  fun_induction cluster optstring cs with
  | case1 => simp
  | case2 d ds hnone rest ih => simpa using ih
  | case3 d ds htakes rest ih =>
    refine ⟨fun optarg hmem => ?_, ih.2⟩
    rcases List.mem_cons.mp hmem with heq | hmem
    · obtain ⟨rfl, -⟩ := Opt.option.inj heq
      simp [htakes]
    · exact ih.1 optarg hmem
  | case4 d htakes =>
    refine ⟨fun optarg hmem => absurd hmem List.not_mem_nil, fun heq => ?_⟩
    obtain rfl := Option.some.inj heq
    simp [htakes]
  | case5 d ds htakes hne =>
    refine ⟨fun optarg hmem => ?_, fun heq => nomatch heq⟩
    obtain ⟨rfl, -⟩ := Opt.option.inj (List.mem_singleton.mp hmem)
    simp [htakes]

/-- `getopt` returns no option that `optstring` does not have. -/
theorem scan_known {pending : Option Char} {words : List (List Char)}
    (hpending : ∀ d, pending = some d → takesArg optstring d ≠ none)
    (h : .option c optarg ∈ scan optstring pending words) : takesArg optstring c ≠ none := by
  fun_induction scan optstring pending words with
  | case1 => simp at h
  | case2 d => simp at h
  | case3 d word words ih =>
    rcases List.mem_cons.mp h with heq | hmem
    · obtain ⟨rfl, -⟩ := Opt.option.inj heq
      exact hpending _ rfl
    · exact ih (by simp) hmem
  | case4 => simp at h
  | case5 d ds words hnot found ih =>
    rcases List.mem_append.mp h with hmem | hmem
    · exact (cluster_known c _).1 optarg hmem
    · exact ih (fun e he => (cluster_known e _).2 he) hmem
  | case6 word words hword ih => exact ih (by simp) h

theorem getopt_known {words : List (List Char)} (h : .option c optarg ∈ getopt optstring words) :
    takesArg optstring c ≠ none :=
  scan_known (by simp) h

end Known

theorem atoi_lt (s : List Char) : atoi s < 2 ^ 31 := by
  have hlt := Int.bmod_lt (x := strtol s) (m := 2 ^ 32) (by decide)
  rw [atoi]
  omega

end Nvpkt.Library.CommandLine
