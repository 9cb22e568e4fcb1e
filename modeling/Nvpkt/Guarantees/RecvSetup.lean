import Nvpkt.Library.FallibleLoop
import Nvpkt.Source.RecvToPram

/-!
# Which rings the set-up covers

`Covered` is what a ring needs before the receive loop: all its slots point at
their buffers, then a flush hands them to the NIC, at a `head` the kernel had
released. The first loop addresses the rings up to and with `last_rx_ring`, so
every flush comes after the addresses (`flushes_addressed`). The flush loop runs
while `ri < last_rx_ring` where the two others run while `ri <= last_rx_ring`
(`flushes_eq`): the receive loop visits the last ring with DRAM addresses in its
descriptors, on every port (`setup_never_covers`).
-/

set_option autoImplicit false

namespace Nvpkt.Guarantees.RecvSetup
open Nvpkt.Library.FallibleLoop
open Nvpkt.Source.Netmap
open Nvpkt.Source.RecvToPram

variable {env : Env} {desc : NmDesc Slot} {setup : Setup} {ri : Nat}

/-- Every slot of ring `ri` points at the buffer `nmslot_to_buf` gives it. -/
def Addressed (env : Env) (desc : NmDesc Slot) (ri : Nat) (ring : NetmapRing Slot) : Prop :=
  ∀ idx < (desc.rxring ri).numSlots, ∃ buf,
    slotBuf desc ri idx = some buf ∧ (ring.slot idx).ptr = env.phyAddr buf

/-- The `head` the flush writes lies between the old one and `tail`. -/
def HeadReleased (ring : NetmapRing Slot) : Prop :=
  ring.Owned (flushHead ring) ∨ flushHead ring = ring.tail

/-- The set-up has flushed ring `ri`, after its slots were addressed. -/
def Covered (env : Env) (desc : NmDesc Slot) (setup : Setup) (ri : Nat) : Prop :=
  ∃ f ∈ setup.flushes, f.ri = ri ∧ Addressed env desc ri f.before ∧ HeadReleased f.before

/-- A pass over `idx` addresses that slot and leaves the others as they were. -/
theorem initSlot_slot {ring after : NetmapRing Slot} {idx : Nat}
    (h : initSlot env desc ri ring idx = some after) :
    (∃ buf, slotBuf desc ri idx = some buf ∧ (after.slot idx).ptr = env.phyAddr buf) ∧
      ∀ j, j ≠ idx → after.slot j = ring.slot j := by
  obtain ⟨buf, hbuf, rfl⟩ := Option.map_eq_some_iff.mp h
  constructor
  · apply Exists.intro buf
    apply And.intro hbuf
    simp only [NetmapRing.setSlot, if_pos]
  · intro j hj
    exact if_neg hj

theorem initRing_addressed {ring : NetmapRing Slot} (h : initRing env desc ri = some ring) :
    Addressed env desc ri ring := by
  intro idx hidx
  apply foldlM_each (P := fun idx (ring : NetmapRing Slot) =>
      ∃ buf, slotBuf desc ri idx = some buf ∧ (ring.slot idx).ptr = env.phyAddr buf)
    _ _ h idx (List.mem_range.mpr hidx)
  · intro s x s' hpass
    exact (initSlot_slot hpass).1
  · intro y s x s' hpass hy
    by_cases hyx : y = x
    · rw [hyx]
      exact (initSlot_slot hpass).1
    · rw [(initSlot_slot hpass).2 y hyx]
      exact hy

theorem init_addressed {rings : Nat → NetmapRing Slot}
    (h : initNmRxRingForPhy env desc = some rings) (hri : ri ≤ desc.lastRxRing) :
    Addressed env desc ri (rings ri) := by
  apply initRing_addressed
  apply foldlM_each (P := fun ri (rings : Nat → NetmapRing Slot) =>
      initRing env desc ri = some (rings ri))
    _ _ h ri (List.mem_range.mpr (Nat.lt_succ_of_le hri))
  · intro s x s' hpass
    obtain ⟨ring, hring, rfl⟩ := Option.map_eq_some_iff.mp hpass
    rw [Function.update_self, hring]
  · intro y s x s' hpass hy
    obtain ⟨ring, hring, rfl⟩ := Option.map_eq_some_iff.mp hpass
    by_cases hyx : y = x
    · rw [hyx, Function.update_self, hring]
    · rw [Function.update_of_ne hyx, hy]

/-- The set-up finishes exactly when every slot has a buffer that can be computed. -/
theorem setUp_isSome_iff (env : Env) (desc : NmDesc Slot) :
    (setUp env desc).isSome ↔ ∀ ri ≤ desc.lastRxRing, ∀ idx < (desc.rxring ri).numSlots,
      (slotBuf desc ri idx).isSome := by
  have hring : ∀ ri, (initRing env desc ri).isSome ↔
      ∀ idx ∈ List.range (desc.rxring ri).numSlots, (slotBuf desc ri idx).isSome :=
    fun ri => foldlM_isSome_iff fun ring idx => by rw [initSlot, Option.isSome_map]
  rw [setUp, Option.isSome_map, initNmRxRingForPhy,
    foldlM_isSome_iff fun rings ri => by rw [Option.isSome_map, hring]]
  simp only [List.mem_range, Nat.lt_succ_iff]

/-- A pass of the flush loop changes no slot. -/
theorem flush_slot (rings : Nat → NetmapRing Slot) (i : Nat) :
    (rxsync env ri
      (Function.update rings ri ((rings ri).setHead (flushHead (rings ri)))) i).slot =
        (rings i).slot := by
  rw [rxsync, NetmapRing.slot_release]
  by_cases hi : i = ri
  · rw [hi, Function.update_self, NetmapRing.slot_setHead]
  · rw [Function.update_of_ne hi]

theorem flushLoop_slot (ris : List Nat) (rings : Nat → NetmapRing Slot) :
    ∀ f ∈ (flushLoop env ris rings).1, f.before.slot = (rings f.ri).slot := by
  induction ris generalizing rings with
  | nil => exact fun f hf => absurd hf List.not_mem_nil
  | cons ri rest ih =>
    rw [flushLoop, List.forall_mem_cons]
    constructor
    · rfl
    · intro f hf
      rw [ih _ f hf, flush_slot]

theorem flushLoop_ris (ris : List Nat) (rings : Nat → NetmapRing Slot) :
    (flushLoop env ris rings).1.map Flush.ri = ris := by
  induction ris generalizing rings with
  | nil => rfl
  | cons ri rest ih => rw [flushLoop, List.map_cons, ih]

/-- The rings the set-up flushes: all the port's but the last. -/
theorem flushes_eq (h : setUp env desc = some setup) :
    setup.flushes.map Flush.ri =
      List.range' desc.firstRxRing (desc.lastRxRing - desc.firstRxRing) := by
  obtain ⟨rings, -, rfl⟩ := Option.map_eq_some_iff.mp h
  exact flushLoop_ris _ rings

theorem flush_lt_last (h : setUp env desc = some setup) :
    ∀ f ∈ setup.flushes, f.ri < desc.lastRxRing := by
  intro f hf
  have hri : f.ri ∈ setup.flushes.map Flush.ri := List.mem_map_of_mem hf
  rw [flushes_eq h, List.mem_range'_1] at hri
  omega

/-- A ring that is flushed has been addressed before. -/
theorem flushes_addressed (h : setUp env desc = some setup) :
    ∀ f ∈ setup.flushes, Addressed env desc f.ri f.before := by
  intro f hf idx hidx
  have hri := flush_lt_last h f hf
  obtain ⟨rings, hinit, rfl⟩ := Option.map_eq_some_iff.mp h
  rw [flushLoop_slot _ rings f hf]
  exact init_addressed hinit (Nat.le_of_lt hri) idx hidx

/-- What is left for a flushed ring is that the kernel had released the `head`. -/
theorem covered_iff (h : setUp env desc = some setup) :
    Covered env desc setup ri ↔ ∃ f ∈ setup.flushes, f.ri = ri ∧ HeadReleased f.before := by
  constructor
  · intro hcov
    obtain ⟨f, hf, hri, -, hhead⟩ := hcov
    exact ⟨f, hf, hri, hhead⟩
  · intro hreleased
    obtain ⟨f, hf, rfl, hhead⟩ := hreleased
    exact ⟨f, hf, rfl, flushes_addressed h f hf, hhead⟩

theorem last_not_covered (h : setUp env desc = some setup) :
    ¬ Covered env desc setup desc.lastRxRing := by
  intro hcov
  obtain ⟨f, hf, hlast, -, -⟩ := hcov
  exact absurd hlast (flush_lt_last h f hf).ne

/-- On no port does the set-up cover every ring of the receive loop. -/
theorem setup_never_covers (env : Env) (desc : NmDesc Slot) (setup : Setup)
    (hports : desc.firstRxRing ≤ desc.lastRxRing) (h : setUp env desc = some setup) :
    ¬ ∀ ri, desc.Visits ri → Covered env desc setup ri := by
  intro hall
  exact last_not_covered h (hall desc.lastRxRing ⟨hports, Nat.le_refl _⟩)

/-- A port with `last + 1` rings of four slots, three of them released. -/
def releasedRings (last : Nat) (hlast : last < 2 ^ 16) : NmDesc Slot where
  firstRxRing := 0
  lastRxRing := last
  rxring := fun _ =>
    { numSlots := 4, head := 0, cur := 0, tail := 3, slot := fun _ => ⟨0, 0, 0⟩ }
  last_lt := hlast
  slots_lt := fun _ => by decide

/-- A linear physical mapping; nothing arrives while the rings are flushed. -/
def quietEnv : Env :=
  { phyAddr := fun buf => 0x100000 + buf.toNat, nsPhyIndirect := 0x20, released := fun _ _ => 0 }

/-- The set-up of a port with one ring flushes none. -/
theorem single_ring_not_covered :
    ∃ setup, setUp quietEnv (releasedRings 0 (by decide)) = some setup ∧
      ¬ ∀ ri, (releasedRings 0 (by decide)).Visits ri →
        Covered quietEnv (releasedRings 0 (by decide)) setup ri :=
  ⟨_, rfl, setup_never_covers _ _ _ (by decide) rfl⟩

/-- Of two rings it covers the first, whose released slots end at the last position,
and not the second. -/
theorem second_ring_not_covered :
    ∃ setup, setUp quietEnv (releasedRings 1 (by decide)) = some setup ∧
      Covered quietEnv (releasedRings 1 (by decide)) setup 0 ∧
      (releasedRings 1 (by decide)).Visits 1 ∧
      ¬ Covered quietEnv (releasedRings 1 (by decide)) setup 1 := by
  have hfinish : setUp quietEnv (releasedRings 1 (by decide)) = some _ := rfl
  apply Exists.intro _
  apply And.intro hfinish
  constructor
  · rw [covered_iff hfinish]
    exact ⟨_, List.mem_cons_self, rfl, Or.inr (by decide)⟩
  · exact ⟨⟨by decide, by decide⟩, last_not_covered hfinish⟩

end Nvpkt.Guarantees.RecvSetup
