import Nvpkt.Guarantees.ModuleRuns

/-!
# The device is held whenever an ioctl runs

An ioctl runs on an open file, and a file is open only between the registration,
which is the last step of a load, and the unload, which starts only when no file
is open. Between the two the fields are set and each carries the reference the load
took (`ioctl_held`), although the exit function gives the references back before
it deregisters the device.
-/

set_option autoImplicit false

namespace Nvpkt.Guarantees.DeviceHeld
open Nvpkt.Source.NvpktModule
open Nvpkt.Guarantees.ModuleRuns

/-- The three fields are set, and a reference taken by the last load is held on
what each points at. -/
def Held (s : Sys) : Prop :=
  ∃ disk part dev, s.driver.nvpkt = ⟨some disk, some part, some dev⟩ ∧
    ∀ x ∈ [Obj.disk disk, .part part, .netdev dev], s.before x < s.driver.held x

theorem Since.held {s : Sys} {disk part dev : Nat}
    (h : Since s (acquiring disk part dev ++ [.miscRegister])) : Held s := by
  obtain ⟨d, hbefore, -, hdone⟩ := h
  refine ⟨disk, part, dev, by rw [hdone]; rfl, ?_⟩
  rw [hdone, ← hbefore]
  simp only [List.forall_mem_cons, acquiring, List.cons_append, List.nil_append,
    List.foldl_cons, List.foldl_nil, exec, get_held]
  refine ⟨?_, ?_, ?_, fun x hx => absurd hx List.not_mem_nil⟩
  all_goals grind

/-- In every interleaving of loads, unloads and calls on the device, an ioctl that
runs finds the device held. -/
theorem ioctl_held {s0 s : Sys} {labels : List Label} {f : OpenFile} (h0 : Initial s0)
    (hrun : run s0 labels = some s) (hf : f ∈ s.files) (_hruns : 0 < f.running) : Held s := by
  obtain ⟨hret, hs⟩ := open_live (run_inv h0 hrun) (List.ne_nil_of_mem hf)
  obtain ⟨-, disk, part, dev, -, hacts⟩ | ⟨hneg, -⟩ := nvpktInitModule_cases s.calls
  · rw [hacts] at hs
    exact Since.held hs
  · omega

/-- A failed load, a load, and an ioctl that begins before the load has returned. -/
def earlyIoctl : List Label :=
  .load { allFound with netdev := none } :: List.replicate 6 .proceed ++
    .load allFound :: List.replicate 7 .proceed ++ [.openFile, .ioctlBegin 0]

theorem ioctl_held_early : ∃ s, run booted earlyIoctl = some s ∧
    s.phase = .loading [] 0 ∧ s.files = [⟨1, 1⟩] ∧ Held s :=
  ⟨_, rfl, rfl, rfl,
    ioctl_held booted_initial (rfl : run booted earlyIoctl = some _)
      (List.mem_singleton_self (OpenFile.mk 1 1)) (by decide)⟩

end Nvpkt.Guarantees.DeviceHeld
