import Mathlib.Algebra.GroupWithZero.Nat
import Mathlib.Data.List.Basic
import Mathlib.Data.List.Forall2
import Nvpkt.Library.FallibleLoop

/-!
# Interleaved threads

Threads with states of their own act on a shared state, one action at a time and in any
order; a thread may be started at any moment. What a thread needs is kept by its own
actions and by those of the others, and then it holds in every run (`run_keeps`). Two
machines whose threads correspond action by action have corresponding runs
(`run_simulates`).
-/

set_option autoImplicit false

namespace Nvpkt.Library.Interleaving
open Nvpkt.Library.FallibleLoop

/-- A thread is started from a `P`; an action may depend on the thread's number and on an
input `E` from outside, and is `none` where the thread cannot act. -/
structure Machine (S L P E : Type) where
  init : P → L
  action : Nat → S → L → E → Option (S × L)

structure System (S L : Type) where
  shared : S
  threads : List L

inductive Label (P E : Type) where
  | spawn (program : P)
  | act (i : Nat) (input : E)

variable {S S' L L' P E : Type}

def Machine.step (M : Machine S L P E) (sys : System S L) : Label P E → Option (System S L)
  | .spawn p => some { sys with threads := sys.threads ++ [M.init p] }
  | .act i e => do
    let l ← sys.threads[i]?
    let (s, l') ← M.action i sys.shared l e
    return { shared := s, threads := sys.threads.set i l' }

def Machine.run (M : Machine S L P E) (sys : System S L) (labels : List (Label P E)) :
    Option (System S L) :=
  labels.foldlM M.step sys

/-- The programs that are started. -/
def spawned : List (Label P E) → List P
  | [] => []
  | .spawn p :: labels => p :: spawned labels
  | .act _ _ :: labels => spawned labels

/-- The inputs of the actions. -/
def inputs : List (Label P E) → List E
  | [] => []
  | .spawn _ :: labels => inputs labels
  | .act _ e :: labels => e :: inputs labels

theorem step_act {M : Machine S L P E} {sys out : System S L} {i : Nat} {e : E}
    (h : M.step sys (.act i e) = some out) :
    ∃ l s l', sys.threads[i]? = some l ∧ M.action i sys.shared l e = some (s, l') ∧
      out = { shared := s, threads := sys.threads.set i l' } := by
  simp only [Machine.step, Option.bind_eq_bind, Option.bind_eq_some_iff] at h
  obtain ⟨l, hl, ⟨s, l'⟩, hact, hout⟩ := h
  exact ⟨l, s, l', hl, hact, (Option.some.inj hout).symm⟩

theorem act_step {M : Machine S L P E} {sys : System S L} {i : Nat} {e : E} {l l' : L} {s : S}
    (hl : sys.threads[i]? = some l) (hact : M.action i sys.shared l e = some (s, l')) :
    M.step sys (.act i e) = some { shared := s, threads := sys.threads.set i l' } := by
  simp only [Machine.step, hl, Option.bind_eq_bind, Option.bind_some, hact]
  rfl

theorem run_cons {M : Machine S L P E} {sys out : System S L} {label : Label P E}
    {labels : List (Label P E)} (h : M.run sys (label :: labels) = some out) :
    ∃ mid, M.step sys label = some mid ∧ M.run mid labels = some out := by
  rw [Machine.run, List.foldlM_cons] at h
  exact Option.bind_eq_some_iff.mp h

theorem run_append {M : Machine S L P E} {sys mid : System S L} {labels later : List (Label P E)}
    (h : M.run sys labels = some mid) : M.run sys (labels ++ later) = M.run mid later := by
  rw [Machine.run] at h ⊢
  rw [List.foldlM_append, h]
  rfl

/-- The thread started last acts alone. -/
theorem run_alone {M : Machine S L P E} {threads : List L} {s s' : S} {l l' : L} {es : List E}
    (h : es.foldlM (fun sl e => M.action threads.length sl.1 sl.2 e) (s, l) = some (s', l')) :
    M.run ⟨s, threads ++ [l]⟩ (es.map (.act threads.length)) = some ⟨s', threads ++ [l']⟩ := by
  induction es generalizing s l with
  | nil =>
    obtain ⟨rfl, rfl⟩ := Prod.mk.inj (Option.some.inj h)
    rfl
  | cons e es ih =>
    rw [List.foldlM_cons] at h
    obtain ⟨⟨t, m⟩, hact, hrest⟩ := Option.bind_eq_some_iff.mp h
    have hl : (threads ++ [l])[threads.length]? = some l := by simp
    have hstep : M.step ⟨s, threads ++ [l]⟩ (.act threads.length e) = some ⟨t, threads ++ [m]⟩ := by
      rw [act_step hl hact]
      simp
    rw [List.map_cons, Machine.run, List.foldlM_cons, hstep]
    exact ih hrest

/-! ## Invariants -/

/-- What holds of the shared state, and of each thread where the shared state is what it is. -/
structure Holds (inv : S → Prop) (ok : Nat → S → L → Prop) (sys : System S L) : Prop where
  shared : inv sys.shared
  threads : ∀ i l, sys.threads[i]? = some l → ok i sys.shared l

section Invariant
variable {M : Machine S L P E} {inv : S → Prop} {ok : Nat → S → L → Prop} {sys out : System S L}

theorem spawn_keeps {p : P} (hinit : ∀ s, inv s → ok sys.threads.length s (M.init p))
    (h : Holds inv ok sys) (hstep : M.step sys (.spawn p) = some out) : Holds inv ok out := by
  obtain rfl := Option.some.inj hstep
  refine ⟨h.shared, fun i l hl => ?_⟩
  simp only [List.getElem?_append] at hl
  split at hl
  · exact h.threads i l hl
  · next hge =>
    have hlt : i - sys.threads.length < 1 := (List.getElem?_eq_some_iff.mp hl).1
    obtain rfl : i = sys.threads.length := by omega
    obtain rfl := List.mem_singleton.mp (List.mem_of_getElem? hl)
    exact hinit _ h.shared

/-- An action keeps what its own thread needs and disturbs no other. -/
theorem act_keeps {i : Nat} {e : E}
    (hact : ∀ s l s' l', M.action i s l e = some (s', l') → inv s → ok i s l →
      inv s' ∧ ok i s' l')
    (hframe : ∀ j s l s' l' m, j ≠ i → M.action i s l e = some (s', l') → inv s → ok i s l →
      ok j s m → ok j s' m)
    (h : Holds inv ok sys) (hstep : M.step sys (.act i e) = some out) : Holds inv ok out := by
  obtain ⟨l, s, l', hl, hmove, rfl⟩ := step_act hstep
  have hi := h.threads i l hl
  obtain ⟨hs, hown⟩ := hact _ _ _ _ hmove h.shared hi
  refine ⟨hs, fun j m hm => ?_⟩
  by_cases hji : j = i
  · subst hji
    have hlt : j < sys.threads.length := (List.getElem?_eq_some_iff.mp hl).1
    rw [List.getElem?_set_self hlt] at hm
    obtain rfl := Option.some.inj hm
    exact hown
  · rw [List.getElem?_set_ne (Ne.symm hji)] at hm
    exact hframe j _ _ _ _ _ hji hmove h.shared hi (h.threads j m hm)

/-- The rule for runs where a thread needs what its number says: thread `j` of those that
are started comes behind the threads that are there. -/
theorem run_keeps_at {labels : List (Label P E)}
    (hinit : ∀ j p, (spawned labels)[j]? = some p → ∀ s, inv s →
      ok (sys.threads.length + j) s (M.init p))
    (hact : ∀ e ∈ inputs labels, ∀ i s l s' l', M.action i s l e = some (s', l') → inv s →
      ok i s l → inv s' ∧ ok i s' l')
    (hframe : ∀ e ∈ inputs labels, ∀ i j s l s' l' m, j ≠ i → M.action i s l e = some (s', l') →
      inv s → ok i s l → ok j s m → ok j s' m)
    (h : Holds inv ok sys) (hrun : M.run sys labels = some out) : Holds inv ok out := by
  induction labels generalizing sys with
  | nil =>
    obtain rfl := Option.some.inj hrun
    exact h
  | cons label labels ih =>
    obtain ⟨mid, hstep, hrest⟩ := run_cons hrun
    cases label with
    | spawn p =>
      have hmid := spawn_keeps (hinit 0 p rfl) h hstep
      obtain rfl := Option.some.inj hstep
      refine ih (fun j q hq s hs => ?_) hact hframe hmid hrest
      rw [List.length_append, List.length_singleton, Nat.add_assoc, Nat.add_comm 1 j]
      exact hinit (j + 1) q hq s hs
    | act i e =>
      rw [inputs, List.forall_mem_cons] at hact hframe
      have hmid := act_keeps (hact.1 i) (hframe.1 i) h hstep
      obtain ⟨l, s, l', -, -, rfl⟩ := step_act hstep
      refine ih (fun j q hq s hs => ?_) hact.2 hframe.2 hmid hrest
      rw [List.length_set]
      exact hinit j q hq s hs

/-- The rule for runs: every thread that is started is in order at first, and every action
keeps what its own thread needs and disturbs no other. -/
theorem run_keeps {labels : List (Label P E)}
    (hinit : ∀ p ∈ spawned labels, ∀ i s, inv s → ok i s (M.init p))
    (hact : ∀ e ∈ inputs labels, ∀ i s l s' l', M.action i s l e = some (s', l') → inv s →
      ok i s l → inv s' ∧ ok i s' l')
    (hframe : ∀ e ∈ inputs labels, ∀ i j s l s' l' m, j ≠ i → M.action i s l e = some (s', l') →
      inv s → ok i s l → ok j s m → ok j s' m)
    (h : Holds inv ok sys) (hrun : M.run sys labels = some out) : Holds inv ok out :=
  run_keeps_at (fun _ p hp => hinit p (List.mem_of_getElem? hp) _) hact hframe h hrun

/-! ## Bounded runs -/

theorem sum_set_lt {rank : L → Nat} {threads : List L} {i : Nat} {l l' : L}
    (hl : threads[i]? = some l) (hlt : rank l' < rank l) :
    ((threads.set i l').map rank).sum < (threads.map rank).sum := by
  induction threads generalizing i with
  | nil => simp at hl
  | cons m rest ih =>
    cases i with
    | zero =>
      obtain rfl := Option.some.inj hl
      simpa using hlt
    | succ i => simpa using ih hl

theorem sum_le_sum_range {rank : L → Nat} {bound : Nat → Nat} (threads : List L)
    (h : ∀ i l, threads[i]? = some l → rank l ≤ bound i) :
    (threads.map rank).sum ≤ ((List.range threads.length).map bound).sum := by
  induction threads generalizing bound with
  | nil => exact Nat.le_refl 0
  | cons l threads ih =>
    have hrest : (threads.map rank).sum ≤
        ((List.range threads.length).map fun i => bound (i + 1)).sum :=
      ih fun i m hm => h (i + 1) m hm
    rw [List.map_cons, List.sum_cons, List.length_cons, List.range_succ_eq_map, List.map_cons,
      List.sum_cons, List.map_map]
    exact Nat.add_le_add (h 0 l rfl) hrest

/-- Where every action lowers the rank of its thread, a run has at most as many actions as
the ranks allow. -/
theorem run_rank (rank : L → Nat) {labels : List (Label P E)}
    (hinit : ∀ p ∈ spawned labels, ∀ i s, inv s → ok i s (M.init p))
    (hact : ∀ e ∈ inputs labels, ∀ i s l s' l', M.action i s l e = some (s', l') → inv s →
      ok i s l → inv s' ∧ ok i s' l')
    (hframe : ∀ e ∈ inputs labels, ∀ i j s l s' l' m, j ≠ i → M.action i s l e = some (s', l') →
      inv s → ok i s l → ok j s m → ok j s' m)
    (hrank : ∀ i s l e s' l', M.action i s l e = some (s', l') → inv s → ok i s l →
      rank l' < rank l)
    (h : Holds inv ok sys) (hrun : M.run sys labels = some out) :
    (inputs labels).length + (out.threads.map rank).sum ≤
      (sys.threads.map rank).sum + ((spawned labels).map fun p => rank (M.init p)).sum := by
  induction labels generalizing sys with
  | nil =>
    obtain rfl := Option.some.inj hrun
    simp [inputs, spawned]
  | cons label labels ih =>
    obtain ⟨mid, hstep, hrest⟩ := run_cons hrun
    cases label with
    | spawn p =>
      rw [spawned, List.forall_mem_cons] at hinit
      have hlater := ih hinit.2 hact hframe (spawn_keeps (hinit.1 _) h hstep) hrest
      obtain rfl := Option.some.inj hstep
      simp only [List.map_append, List.sum_append, List.map_cons, List.map_nil, List.sum_cons,
        List.sum_nil, spawned, inputs] at hlater ⊢
      omega
    | act i e =>
      rw [inputs, List.forall_mem_cons] at hact hframe
      have hlater := ih hinit hact.2 hframe.2 (act_keeps (hact.1 i) (hframe.1 i) h hstep) hrest
      obtain ⟨l, s, l', hl, hmove, rfl⟩ := step_act hstep
      have hlt := sum_set_lt hl (hrank _ _ _ _ _ _ hmove h.shared (h.threads i l hl))
      simp only [spawned, inputs, List.length_cons] at hlater ⊢
      omega

end Invariant

/-- Threads come into being by being started and in no other way. -/
theorem run_length {M : Machine S L P E} {sys out : System S L} {labels : List (Label P E)}
    (hrun : M.run sys labels = some out) :
    out.threads.length = sys.threads.length + (spawned labels).length := by
  induction labels generalizing sys with
  | nil =>
    obtain rfl := Option.some.inj hrun
    rfl
  | cons label labels ih =>
    obtain ⟨mid, hstep, hrest⟩ := run_cons hrun
    have hlater := ih hrest
    cases label with
    | spawn p =>
      obtain rfl := Option.some.inj hstep
      simp only [List.length_append, List.length_cons, List.length_nil, spawned] at hlater ⊢
      omega
    | act i e =>
      obtain ⟨l, s, l', hl, hmove, rfl⟩ := step_act hstep
      simpa [spawned] using hlater

/-! ## Simulation -/

/-- Corresponding shared states, and the same number of corresponding threads. -/
structure Related (RS : S → S' → Prop) (R : L → L' → Prop) (sys : System S L)
    (sys' : System S' L') : Prop where
  shared : RS sys.shared sys'.shared
  threads : List.Forall₂ R sys.threads sys'.threads

section Simulation
variable {E' : Type} {M : Machine S L P E} {M' : Machine S' L' P E'} {RS : S → S' → Prop}
  {R : L → L' → Prop} {sys out : System S L} {sys' : System S' L'}

theorem forall₂_getElem? {xs : List L} {ys : List L'} (h : List.Forall₂ R xs ys) {i : Nat} {x : L}
    (hx : xs[i]? = some x) : ∃ y, ys[i]? = some y ∧ R x y := by
  induction h generalizing i with
  | nil => simp at hx
  | cons hxy _ ih =>
    cases i with
    | zero =>
      obtain rfl := Option.some.inj hx
      exact ⟨_, rfl, hxy⟩
    | succ i => exact ih hx

theorem forall₂_set {xs : List L} {ys : List L'} (h : List.Forall₂ R xs ys) {i : Nat} {x : L}
    {y : L'} (hy : ys[i]? = some y) (hxy : R x y) : List.Forall₂ R (xs.set i x) ys := by
  induction h generalizing i with
  | nil => exact .nil
  | cons hhead htail ih =>
    cases i with
    | zero =>
      obtain rfl := Option.some.inj hy
      exact .cons hxy htail
    | succ i => exact .cons hhead (ih hy)

theorem forall₂_set_both {xs : List L} {ys : List L'} (h : List.Forall₂ R xs ys) (i : Nat) {x : L}
    {y : L'} (hxy : R x y) : List.Forall₂ R (xs.set i x) (ys.set i y) := by
  induction h generalizing i with
  | nil => exact .nil
  | cons hhead htail ih =>
    cases i with
    | zero => exact .cons hxy htail
    | succ i => exact .cons hhead (ih i)

/-- What an action of the first machine is for the second. -/
def Simulated (M' : Machine S' L' P E') (RS : S → S' → Prop) (R : L → L' → Prop)
    (input : E' → Prop) (i : Nat) (t : S) (m : L) (s' : S') (l' : L') : Prop :=
  (RS t s' ∧ R m l') ∨
    ∃ e' t' m', input e' ∧ M'.action i s' l' e' = some (t', m') ∧ RS t t' ∧ R m m'

/-- One step of the first machine is at most one of the second. -/
theorem step_simulates {label : Label P E} {input : E' → Prop}
    (hinit : ∀ p ∈ spawned [label], R (M.init p) (M'.init p))
    (hact : ∀ e ∈ inputs [label], ∀ i s l t m s' l', M.action i s l e = some (t, m) → RS s s' →
      R l l' → Simulated M' RS R input i t m s' l')
    (h : Related RS R sys sys') (hstep : M.step sys label = some out) :
    ∃ labels' out', spawned labels' = spawned [label] ∧ (∀ e' ∈ inputs labels', input e') ∧
      M'.run sys' labels' = some out' ∧ Related RS R out out' := by
  cases label with
  | spawn p =>
    obtain rfl := Option.some.inj hstep
    refine ⟨[.spawn p], _, rfl, by simp [inputs], rfl, h.shared, ?_⟩
    exact List.rel_append h.threads (.cons (hinit p (by simp [spawned])) .nil)
  | act i e =>
    obtain ⟨l, s, m, hl, hmove, rfl⟩ := step_act hstep
    obtain ⟨l', hl', hll'⟩ := forall₂_getElem? h.threads hl
    rcases hact e (by simp [inputs]) i _ _ _ _ _ _ hmove h.shared hll' with
      ⟨hs, hm⟩ | ⟨e', t', m', he', hmove', hs, hm⟩
    · exact ⟨[], sys', rfl, by simp [inputs], rfl, hs, forall₂_set h.threads hl' hm⟩
    · refine ⟨[.act i e'], ⟨t', sys'.threads.set i m'⟩, rfl, by simpa [inputs] using he', ?_, hs,
        forall₂_set_both h.threads i hm⟩
      rw [Machine.run, List.foldlM_cons, act_step hl' hmove']
      rfl

theorem spawned_append (labels later : List (Label P E)) :
    spawned (labels ++ later) = spawned labels ++ spawned later := by
  induction labels with
  | nil => rfl
  | cons label labels ih => cases label <;> simp [spawned, ih]

theorem inputs_append (labels later : List (Label P E)) :
    inputs (labels ++ later) = inputs labels ++ inputs later := by
  induction labels with
  | nil => rfl
  | cons label labels ih => cases label <;> simp [inputs, ih]

/-- Every run of the first machine is one of the second, which starts the same threads. -/
theorem run_simulates {labels : List (Label P E)} {input : E' → Prop}
    (hinit : ∀ p ∈ spawned labels, R (M.init p) (M'.init p))
    (hact : ∀ e ∈ inputs labels, ∀ i s l t m s' l', M.action i s l e = some (t, m) → RS s s' →
      R l l' → Simulated M' RS R input i t m s' l')
    (h : Related RS R sys sys') (hrun : M.run sys labels = some out) :
    ∃ labels' out', spawned labels' = spawned labels ∧ (∀ e' ∈ inputs labels', input e') ∧
      M'.run sys' labels' = some out' ∧ Related RS R out out' := by
  induction labels generalizing sys sys' with
  | nil =>
    obtain rfl := Option.some.inj hrun
    exact ⟨[], sys', rfl, by simp [inputs], rfl, h⟩
  | cons label labels ih =>
    obtain ⟨mid, hstep, hrest⟩ := run_cons hrun
    have hspawned : spawned (label :: labels) = spawned [label] ++ spawned labels :=
      spawned_append [label] labels
    have hinputs : inputs (label :: labels) = inputs [label] ++ inputs labels :=
      inputs_append [label] labels
    rw [hspawned, List.forall_mem_append] at hinit
    rw [hinputs, List.forall_mem_append] at hact
    obtain ⟨first, mid', hsame, hfirst, hrun', hmid⟩ := step_simulates hinit.1 hact.1 h hstep
    obtain ⟨later, out', hsame', hlater, hrun'', hout⟩ := ih hinit.2 hact.2 hmid hrest
    refine ⟨first ++ later, out', ?_, ?_, ?_, hout⟩
    · rw [spawned_append, hsame, hsame', hspawned]
    · rw [inputs_append, List.forall_mem_append]
      exact ⟨hfirst, hlater⟩
    · rw [run_append hrun', hrun'']

end Simulation

/-- Every run of the machine is one of a system with turns, when each of its steps is some
turns of that system. -/
theorem run_follows {M : Machine S L P E} {T Q : Type} {turn : T → Q → T} {t : T}
    {R : System S L → T → Prop} {sys out : System S L} {labels : List (Label P E)}
    (hstep : ∀ mid label next (qs : List Q), M.step mid label = some next →
      R mid (qs.foldl turn t) → ∃ more : List Q, R next (more.foldl turn (qs.foldl turn t)))
    (h : R sys t) (hrun : M.run sys labels = some out) :
    ∃ qs : List Q, R out (qs.foldl turn t) := by
  have hstart : ∃ qs : List Q, R sys (qs.foldl turn t) := ⟨[], h⟩
  refine foldlM_keeps (P := fun next => ∃ qs : List Q, R next (qs.foldl turn t))
    (fun mid label next hmove hmid => ?_) hrun hstart
  obtain ⟨qs, hqs⟩ := hmid
  obtain ⟨more, hmore⟩ := hstep mid label next qs hmove hqs
  exact ⟨qs ++ more, by rwa [List.foldl_append]⟩

end Nvpkt.Library.Interleaving
