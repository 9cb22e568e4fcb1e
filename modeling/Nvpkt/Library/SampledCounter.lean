import Mathlib.Data.List.Flatten
import Mathlib.Algebra.BigOperators.Group.Finset.Basic
import Mathlib.Algebra.GroupWithZero.Nat

/-!
# A counter read now and then

An observation of a counter that only grows consists of two readings, `start` and
`stop`. The readings of observations made one after the other grow with it, so that
each unit of the counter falls into at most one of them.
-/

set_option autoImplicit false

namespace Nvpkt.Library.SampledCounter

section Readings
variable {Obs Value : Type} (start stop : Obs → Value)

/-- The readings in the order in which they were taken. -/
def readings (observations : List Obs) : List Value :=
  observations.flatMap fun o => [start o, stop o]

theorem readings_append_singleton (observations : List Obs) (o : Obs) :
    readings start stop (observations ++ [o]) =
      readings start stop observations ++ [start o, stop o] := by
  rw [readings, List.flatMap_append, List.flatMap_singleton]
  rfl

end Readings

section Growing
variable {Obs : Type} {start stop : Obs → Nat} {observations : List Obs}

theorem start_le_stop (h : (readings start stop observations).Pairwise (· ≤ ·)) {o : Obs}
    (ho : o ∈ observations) : start o ≤ stop o :=
  List.pairwise_pair.mp ((List.pairwise_flatMap.mp h).1 o ho)

/-- An observation ends no later than the next one starts. -/
theorem stop_le_start (h : (readings start stop observations).Pairwise (· ≤ ·)) :
    observations.Pairwise fun o later => stop o ≤ start later :=
  (List.pairwise_flatMap.mp h).2.imp fun hle =>
    hle _ (List.mem_pair.mpr (Or.inr rfl)) _ (List.mem_pair.mpr (Or.inl rfl))

/-- The readings stay below the counter as it grows, -/
theorem sorted_grow {past : List Nat} {now later : Nat} (h : (past ++ [now]).Pairwise (· ≤ ·))
    (hle : now ≤ later) : (past ++ [later]).Pairwise (· ≤ ·) := by
  rw [List.pairwise_append] at h ⊢
  obtain ⟨hpast, _, hnow⟩ := h
  refine ⟨hpast, List.pairwise_singleton _ _, fun v hv w hw => ?_⟩
  rw [List.mem_singleton.mp hw]
  exact (hnow v hv _ (List.mem_singleton.mpr rfl)).trans hle

/-- and when it is read once more. -/
theorem sorted_read {past : List Nat} {now : Nat} (h : (past ++ [now]).Pairwise (· ≤ ·)) :
    (past ++ [now] ++ [now]).Pairwise (· ≤ ·) := by
  rw [List.pairwise_append]
  refine ⟨h, List.pairwise_singleton _ _, fun v hv w hw => ?_⟩
  rw [List.mem_singleton.mp hw]
  obtain hv | hv := List.mem_append.mp hv
  · exact (List.pairwise_append.mp h).2.2 v hv _ (List.mem_singleton.mpr rfl)
  · exact (List.mem_singleton.mp hv).le

theorem add_sum_stop_sub_start_le {now least : Nat}
    (h : (readings start stop observations ++ [now]).Pairwise (· ≤ ·)) (hnow : least ≤ now)
    (hleast : ∀ v ∈ readings start stop observations, least ≤ v) :
    least + (observations.map fun o => stop o - start o).sum ≤ now := by
  induction observations generalizing least with
  | nil => exact hnow
  | cons o observations ih =>
    have hsplit : readings start stop (o :: observations) =
        start o :: stop o :: readings start stop observations := rfl
    rw [hsplit] at h hleast
    rw [List.cons_append, List.cons_append, List.pairwise_cons, List.pairwise_cons] at h
    obtain ⟨hstart, hstop, hrest⟩ := h
    have hhere : least ≤ start o := hleast _ (List.mem_cons_self ..)
    have hpair : start o ≤ stop o := hstart _ (List.mem_cons_self ..)
    have htail := ih hrest (hstop _ (List.mem_append_right _ (List.mem_singleton.mpr rfl)))
      fun v hv => hstop v (List.mem_append_left _ hv)
    rw [List.map_cons, List.sum_cons]
    omega

/-- Together the observations have seen no more than the counter is now. -/
theorem sum_stop_sub_start_le {now : Nat}
    (h : (readings start stop observations ++ [now]).Pairwise (· ≤ ·)) :
    (observations.map fun o => stop o - start o).sum ≤ now := by
  have hsum := add_sum_stop_sub_start_le h (Nat.zero_le now) fun _ _ => Nat.zero_le _
  rwa [Nat.zero_add] at hsum

end Growing

end Nvpkt.Library.SampledCounter
