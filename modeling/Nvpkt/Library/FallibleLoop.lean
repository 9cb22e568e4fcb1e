import Mathlib.Data.List.Basic
import Mathlib.Data.List.Forall2

/-!
# Loops whose body may fail

A loop over a list that carries a state and stops at the first failure is
`List.foldlM` in `Option`. When it ends with a state, what its body keeps holds
there (`foldlM_keeps`), and so does for every item what its pass establishes and
later passes keep (`foldlM_each`). It ends with one when no pass fails
(`foldlM_isSome_iff`). A loop that makes one value of each item is `List.mapM`.
-/

set_option autoImplicit false

namespace Nvpkt.Library.FallibleLoop

variable {α β : Type} {f : β → α → Option β} {xs : List α} {s t : β}

/-- An invariant of the body is one of the loop. -/
theorem foldlM_keeps {P : β → Prop} (hkeep : ∀ s x s', f s x = some s' → P s → P s')
    (h : xs.foldlM f s = some t) (hs : P s) : P t := by
  induction xs generalizing s with
  | nil =>
    obtain rfl : s = t := Option.some.inj h
    exact hs
  | cons x xs ih =>
    rw [List.foldlM_cons] at h
    obtain ⟨s', hx, hrest⟩ := Option.bind_eq_some_iff.mp h
    exact ih hrest (hkeep s x s' hx hs)

/-- A part of the state that every pass changes in a known way follows the whole list. -/
theorem foldlM_follows {γ : Type} {view : β → γ} {g : γ → α → γ}
    (hstep : ∀ s x s', f s x = some s' → view s' = g (view s) x)
    (h : xs.foldlM f s = some t) : view t = xs.foldl g (view s) := by
  induction xs generalizing s with
  | nil =>
    obtain rfl : s = t := Option.some.inj h
    rfl
  | cons x xs ih =>
    rw [List.foldlM_cons] at h
    obtain ⟨s', hx, hrest⟩ := Option.bind_eq_some_iff.mp h
    rw [List.foldl_cons, ← hstep s x s' hx]
    exact ih hrest

/-- What the pass for an item does for it, and no pass undoes, holds at the end. -/
theorem foldlM_each {P : α → β → Prop} (hdo : ∀ s x s', f s x = some s' → P x s')
    (hkeep : ∀ y s x s', f s x = some s' → P y s → P y s')
    (h : xs.foldlM f s = some t) : ∀ x ∈ xs, P x t := by
  induction xs generalizing s with
  | nil => exact fun x hx => absurd hx List.not_mem_nil
  | cons x xs ih =>
    rw [List.foldlM_cons] at h
    obtain ⟨s', hx, hrest⟩ := Option.bind_eq_some_iff.mp h
    rw [List.forall_mem_cons]
    exact ⟨foldlM_keeps (hkeep x) hrest (hdo s x s' hx), ih hrest⟩

/-- Where the state does not decide whether a pass succeeds, the loop ends when each does. -/
theorem foldlM_isSome_iff {P : α → Prop} (h : ∀ s x, (f s x).isSome ↔ P x) :
    (xs.foldlM f s).isSome ↔ ∀ x ∈ xs, P x := by
  induction xs generalizing s with
  | nil => simp
  | cons x xs ih =>
    rw [List.foldlM_cons, List.forall_mem_cons, ← h s x]
    cases hx : f s x with
    | none => simp
    | some s' => simp [ih]

/-- A loop all of whose passes succeed. -/
theorem mapM_succeeds {g : α → Option β} {R : α → β → Prop}
    (h : ∀ x ∈ xs, ∃ y, g x = some y ∧ R x y) :
    ∃ ys, xs.mapM g = some ys ∧ List.Forall₂ R xs ys := by
  induction xs with
  | nil => exact ⟨[], rfl, .nil⟩
  | cons x xs ih =>
    rw [List.forall_mem_cons] at h
    obtain ⟨y, hy, hxy⟩ := h.1
    obtain ⟨ys, hys, hrest⟩ := ih h.2
    exact ⟨y :: ys, by simp [List.mapM_cons, hy, hys], .cons hxy hrest⟩

end Nvpkt.Library.FallibleLoop
