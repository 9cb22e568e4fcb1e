import Mathlib.Data.List.Basic

/-!
# Ownership of objects along a run

A run acquires objects and gives them up, by releasing them or by handing them to
someone else. `track` follows one object: acquiring what is owned, or giving up what
is not, is an error. A run is `Balanced` when it makes no error and owns nothing at
its end, so that every object acquired was given up exactly once and left alone
afterwards.
-/

set_option autoImplicit false

namespace Nvpkt.Library.Ledger

inductive Kind where
  | acquire | release | handOver
  deriving DecidableEq, Repr

def Kind.apply : Kind → Bool → Option Bool
  | .acquire, false => some true
  | .release, true => some false
  | .handOver, true => some false
  | _, _ => none

structure Move (Obj : Type) where
  kind : Kind
  obj : Obj
  deriving DecidableEq, Repr

section Track
variable {Obj : Type} [DecidableEq Obj] {x : Obj} {owned owned' : Bool}
  {moves moves' : List (Move Obj)} {xs : List Obj}

def touch (x : Obj) (owned : Bool) (m : Move Obj) : Option Bool :=
  if m.obj = x then m.kind.apply owned else some owned

/-- Whether `x` is owned after the moves; `none` after an error. -/
def track (x : Obj) (owned : Bool) (moves : List (Move Obj)) : Option Bool :=
  moves.foldlM (touch x) owned

def Balanced (moves : List (Move Obj)) : Prop := ∀ x, track x false moves = some false

theorem touch_self (kind : Kind) : touch x owned ⟨kind, x⟩ = kind.apply owned := if_pos rfl

theorem touch_ne {m : Move Obj} (h : m.obj ≠ x) : touch x owned m = some owned := if_neg h

@[simp] theorem track_nil : track x owned [] = some owned := rfl

@[simp] theorem track_cons (m : Move Obj) :
    track x owned (m :: moves) = (touch x owned m).bind (track x · moves) := List.foldlM_cons

theorem track_append :
    track x owned (moves ++ moves') = (track x owned moves).bind (track x · moves') :=
  List.foldlM_append

theorem balanced_nil : Balanced ([] : List (Move Obj)) := fun _ => rfl

theorem Balanced.append (h : Balanced moves) (h' : Balanced moves') :
    Balanced (moves ++ moves') := by
  intro x
  rw [track_append, h x]
  exact h' x

/-- What no move gives up is owned at the end, if it was at first or was acquired. -/
theorem track_kept (hkeep : ∀ m ∈ moves, m.obj = x → m.kind = .acquire)
    (hrun : track x owned moves = some owned')
    (hown : owned = true ∨ ∃ m ∈ moves, m.obj = x) : owned' = true := by
  induction moves generalizing owned with
  | nil =>
    obtain rfl : owned = owned' := Option.some.inj hrun
    exact hown.resolve_right (fun ⟨m, hm, _⟩ => absurd hm List.not_mem_nil)
  | cons m moves ih =>
    rw [List.forall_mem_cons] at hkeep
    rw [track_cons] at hrun
    obtain ⟨next, hm, hrest⟩ := Option.bind_eq_some_iff.mp hrun
    refine ih hkeep.2 hrest ?_
    unfold touch at hm
    split at hm
    case isTrue hx =>
      -- an acquisition that is no error
      rw [hkeep.1 hx] at hm
      cases owned with
      | true => cases hm
      | false => exact Or.inl (Option.some.inj hm).symm
    case isFalse hx =>
      obtain rfl := Option.some.inj hm
      refine hown.imp_right fun ⟨m', hm', hx'⟩ => ⟨m', ?_, hx'⟩
      exact (List.mem_cons.mp hm').resolve_left fun heq => hx (heq ▸ hx')

theorem track_untouched (h : ∀ m ∈ moves, m.obj ≠ x) : track x owned moves = some owned := by
  induction moves with
  | nil => rfl
  | cons m moves ih =>
    rw [List.forall_mem_cons] at h
    rw [track_cons, touch_ne h.1]
    exact ih h.2

/-- Distinct objects are acquired once each. -/
theorem track_acquire (hxs : xs.Nodup) :
    track x false (xs.map (Move.mk .acquire)) = some (decide (x ∈ xs)) := by
  induction xs with
  | nil => rfl
  | cons y xs ih =>
    rw [List.nodup_cons] at hxs
    rw [List.map_cons, track_cons]
    by_cases hy : y = x
    · subst hy
      have hrest : track y true (xs.map (Move.mk .acquire)) = some true := by
        apply track_untouched
        rw [List.forall_mem_map]
        exact fun z hz heq => hxs.1 (heq ▸ hz)
      simpa [touch_self, Kind.apply] using hrest
    · simpa [touch, hy, Ne.symm hy] using ih hxs.2

theorem track_handOver (hxs : xs.Nodup) (hx : x ∈ xs → owned = true) :
    track x owned (xs.map (Move.mk .handOver)) = some (owned && decide (x ∉ xs)) := by
  induction xs with
  | nil => simp
  | cons y xs ih =>
    rw [List.nodup_cons] at hxs
    rw [List.map_cons, track_cons]
    by_cases hy : y = x
    · subst hy
      have hrest : track y false (xs.map (Move.mk .handOver)) = some false := by
        apply track_untouched
        rw [List.forall_mem_map]
        exact fun z hz heq => hxs.1 (heq ▸ hz)
      simpa [touch_self, Kind.apply, hx] using hrest
    · simp only [List.mem_cons, Ne.symm hy, false_or] at hx
      simpa [touch, hy, Ne.symm hy] using ih hxs.2 hx

end Track

end Nvpkt.Library.Ledger
