import Nvpkt.Guarantees.ModuleRuns

/-!
# References after a failed load and after an unload

`get_gendisk` takes a reference on the disk that no path gives back: not the
labels of `nvpkt_init_module`, not `nvpkt_exit_module`. The partition and the net
device are given back everywhere (`cycle_others`), so a cycle is balanced exactly
when the load found no disk (`balanced_iff`).
-/

set_option autoImplicit false

namespace Nvpkt.Guarantees.LoadBalance
open Nvpkt.Source.NvpktModule
open Nvpkt.Guarantees.ModuleRuns

/-- Every load that failed and every unload left the references that were there
before the load. -/
def Balanced (s : Sys) : Prop := ∀ c ∈ s.cycles, c.after = c.before

theorem leftover_eq_iff (calls : InitCalls) (before : Obj → Int) :
    leftover calls before = before ↔ InitCalls.disk calls = none := by
  unfold leftover
  cases InitCalls.disk calls with
  | none => simp
  | some disk =>
    -- one reference more is not the same number
    simp only [Function.update_eq_self_iff]
    constructor
    · intro h
      omega
    · exact fun h => nomatch h

section Runs
variable {s0 s : Sys} {labels : List Label}

/-- The partition and the net device come out as they went in, on every route. -/
theorem cycle_others (h0 : Initial s0) (hrun : run s0 labels = some s) {c : Cycle}
    (hc : c ∈ s.cycles) (id : Nat) :
    c.after (.part id) = c.before (.part id) ∧ c.after (.netdev id) = c.before (.netdev id) := by
  rw [(run_inv h0 hrun).cycles c hc]
  unfold leftover
  cases InitCalls.disk c.calls <;> simp

/-- Loads and unloads balance exactly when none of the loads got a disk. -/
theorem balanced_iff (h0 : Initial s0) (hrun : run s0 labels = some s) :
    Balanced s ↔ ∀ c ∈ s.cycles, InitCalls.disk c.calls = none := by
  have hcycles := (run_inv h0 hrun).cycles
  refine forall₂_congr fun c hc => ?_
  rw [hcycles c hc]
  exact leftover_eq_iff c.calls c.before

end Runs

/-- A load that finds no disk fails in balance. -/
def noDevice : List Label := [.load { allFound with devt := 0 }, .proceed, .proceed]

theorem balanced_no_device : ∃ s, run booted noDevice = some s ∧ Balanced s := by
  refine ⟨_, rfl, ?_⟩
  refine (balanced_iff booted_initial (rfl : run booted noDevice = some _)).mpr fun c hc => ?_
  obtain rfl := List.mem_singleton.mp hc
  rfl

/-- No net device: `err_netdev` gives the partition back, and nothing the disk. -/
def noNetdev : List Label :=
  .load { allFound with netdev := none } :: List.replicate 6 .proceed

def loadUnload : List Label :=
  .load allFound :: List.replicate 8 .proceed ++ .unload :: List.replicate 4 .proceed

/-- The failed load and the unload each keep a reference on the disk. -/
theorem disk_reference_kept :
    (∃ s, run booted noNetdev = some s ∧ s.phase = .absent ∧ s.driver.held (.disk 0) = 1 ∧
      ¬ Balanced s) ∧
    ∃ s, run booted loadUnload = some s ∧ s.phase = .absent ∧ s.driver.held (.disk 0) = 1 ∧
      ¬ Balanced s := by
  constructor
  all_goals
    refine ⟨_, rfl, rfl, by decide, fun h => ?_⟩
    have hkept := congrFun (h _ (List.mem_singleton_self _)) (.disk 0)
    exact absurd hkept (by decide)

end Nvpkt.Guarantees.LoadBalance
