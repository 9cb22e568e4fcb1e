import Nvpkt.Library.FallibleLoop
import Nvpkt.Source.NvpktModule

/-!
# What every run of the module keeps

A load either returns an error without having registered the device, or it takes
every reference first and registers last (`nvpktInitModule_cases`). `Inv` follows
a run through load, use and unload: the driver has taken exactly the steps its
phase says since the load began, a file is open only while the device is
registered, and every finished load left the references that `leftover` says
(`run_inv`).
-/

set_option autoImplicit false

namespace Nvpkt.Guarantees.ModuleRuns
open Nvpkt.Library.FallibleLoop
open Nvpkt.Source.NvpktModule

/-- The disk a load takes a reference of. -/
def InitCalls.disk (calls : InitCalls) : Option Nat :=
  if calls.devt = 0 then none else calls.gendisk

/-- What is held after a load has failed or has been undone. -/
def leftover (calls : InitCalls) (before : Obj → Int) : Obj → Int :=
  match InitCalls.disk calls with
  | some disk => Function.update before (.disk disk) (before (.disk disk) + 1)
  | none => before

/-- The steps of a load that succeeds, up to the registration. -/
def acquiring (disk part dev : Nat) : List Act :=
  [.clear, .getGendisk disk, .diskGetPart part, .setDisk disk part, .devGetByName dev,
    .setNetdev dev]

section Steps
variable {calls : InitCalls} {d : Driver}

@[simp] theorem get_nvpkt (d : Driver) (x : Obj) : (d.get x).nvpkt = d.nvpkt := rfl
@[simp] theorem put_nvpkt (d : Driver) (x : Obj) : (d.put x).nvpkt = d.nvpkt := rfl

theorem get_held (d : Driver) (x y : Obj) :
    (d.get x).held y = if y = x then d.held x + 1 else d.held y := by
  simp [Driver.get, Function.update_apply]

theorem put_held (d : Driver) (x y : Obj) :
    (d.put x).held y = if y = x then d.held x - 1 else d.held y := by
  simp [Driver.put, Function.update_apply]

/-- A load registers the device in its last step or fails without doing so. -/
theorem nvpktInitModule_cases (calls : InitCalls) :
    (0 ≤ (nvpktInitModule calls).2 ∧ ∃ disk part dev, InitCalls.disk calls = some disk ∧
      (nvpktInitModule calls).1 = acquiring disk part dev ++ [.miscRegister]) ∨
    ((nvpktInitModule calls).2 < 0 ∧ .miscRegister ∉ (nvpktInitModule calls).1 ∧
      ∀ d : Driver, ((nvpktInitModule calls).1.foldl exec d).held = leftover calls d.held) := by
  unfold nvpktInitModule leftover InitCalls.disk
  split
  · right
    exact ⟨by decide, by decide, fun d => rfl⟩
  cases calls.gendisk with
  | none =>
    right
    exact ⟨by dsimp only; decide, by dsimp only; decide, fun d => rfl⟩
  | some disk =>
    cases calls.part with
    | none =>
      right
      exact ⟨by dsimp only; decide, by simp, fun d => rfl⟩
    | some part =>
      cases calls.netdev with
      | none =>
        right
        refine ⟨by dsimp only; decide, by simp, fun d => ?_⟩
        funext x
        -- the partition is taken and given back
        simp only [List.cons_append, List.nil_append, List.foldl_cons, List.foldl_nil, exec,
          get_nvpkt, put_held, get_held, Function.update_apply]
        grind
      | some dev =>
        dsimp only
        split
        · right
          refine ⟨by assumption, by simp, fun d => ?_⟩
          funext x
          simp only [List.cons_append, List.nil_append, List.foldl_cons, List.foldl_nil, exec,
            get_nvpkt, put_nvpkt, put_held, get_held, Function.update_apply]
          grind
        · left
          exact ⟨by dsimp only; omega, disk, part, dev, rfl, rfl⟩

/-- Only the registration registers. -/
theorem foldl_exec_registered {acts : List Act} (hacts : .miscRegister ∉ acts)
    (hd : d.registered = false) : (acts.foldl exec d).registered = false := by
  induction acts generalizing d with
  | nil => exact hd
  | cons act acts ih =>
    rw [List.mem_cons, not_or] at hacts
    refine ih hacts.2 ?_
    cases act with
    | miscRegister => exact absurd rfl hacts.1
    | miscDeregister => rfl
    | devPut | diskPutPart =>
      simp only [exec]
      split <;> exact hd
    | _ => exact hd

/-- A load that succeeds and its unload together. -/
theorem load_unload (h : 0 ≤ (nvpktInitModule calls).2) :
    (((nvpktInitModule calls).1 ++ nvpktExitModule).foldl exec d).held = leftover calls d.held ∧
      (((nvpktInitModule calls).1 ++ nvpktExitModule).foldl exec d).registered = false := by
  obtain ⟨-, disk, part, dev, hdisk, hacts⟩ | ⟨hneg, -⟩ := nvpktInitModule_cases calls
  · rw [hacts]
    refine ⟨?_, rfl⟩
    funext x
    simp only [leftover, hdisk, acquiring, nvpktExitModule, List.cons_append, List.nil_append,
      List.foldl_cons, List.foldl_nil, exec, get_nvpkt, put_nvpkt, put_held, get_held,
      Function.update_apply]
    grind
  · omega

end Steps

/-! ## The invariant of a run -/

/-- The driver has taken exactly these steps since the last load began. -/
def Since (s : Sys) (done : List Act) : Prop :=
  ∃ d : Driver, d.held = s.before ∧ d.registered = false ∧ s.driver = done.foldl exec d

def PhaseOk (s : Sys) : Prop :=
  match s.phase with
  | .absent => s.driver.registered = false
  | .loading rest ret => ∃ done, nvpktInitModule s.calls = (done ++ rest, ret) ∧ Since s done
  | .live => 0 ≤ (nvpktInitModule s.calls).2 ∧ Since s (nvpktInitModule s.calls).1
  | .unloading rest => s.files = [] ∧ 0 ≤ (nvpktInitModule s.calls).2 ∧
      ∃ done, nvpktExitModule = done ++ rest ∧ Since s ((nvpktInitModule s.calls).1 ++ done)

structure Inv (s : Sys) : Prop where
  phase : PhaseOk s
  pinned : s.files ≠ [] → s.driver.registered = true
  cycles : ∀ c ∈ s.cycles, c.after = leftover c.calls c.before

section Runs
variable {s s' : Sys} {done rest : List Act} {ret : Int}

theorem Since.step (h : Since s done) (act : Act)
    (hb : s'.before = s.before) (hd : s'.driver = exec s.driver act) :
    Since s' (done ++ [act]) := by
  obtain ⟨d, hheld, hreg, hdone⟩ := h
  refine ⟨d, hheld.trans hb.symm, hreg, ?_⟩
  rw [hd, hdone, List.foldl_append]
  rfl

/-- While a load is under way the device is registered only after its last step. -/
theorem loading_registered (hinit : nvpktInitModule s.calls = (done ++ rest, ret))
    (hs : Since s done) (hreg : s.driver.registered = true) : rest = [] ∧ 0 ≤ ret := by
  obtain ⟨d, -, hd, hdone⟩ := hs
  have hmem : .miscRegister ∈ done := by
    by_contra hnot
    rw [hdone, foldl_exec_registered hnot hd] at hreg
    exact Bool.false_ne_true hreg
  obtain ⟨hret, disk, part, dev, -, hacts⟩ | ⟨-, hnot, -⟩ := nvpktInitModule_cases s.calls
  · rw [hinit] at hret hacts
    refine ⟨?_, hret⟩
    -- the registration is the last act and the only one of its kind
    obtain hnil | ⟨rest', act, hrest⟩ := List.eq_nil_or_concat rest
    · exact hnil
    rw [hrest, List.concat_eq_append, ← List.append_assoc] at hacts
    have hdone' : done ++ rest' = acquiring disk part dev := (List.append_inj' hacts rfl).1
    have hacq : .miscRegister ∈ acquiring disk part dev :=
      hdone' ▸ List.mem_append_left rest' hmem
    simp [acquiring] at hacq
  · rw [hinit] at hnot
    exact absurd (List.mem_append_left rest hmem) hnot

theorem finish_inv (h : Inv s) (hreg : s.driver.registered = false)
    (hheld : s.driver.held = leftover s.calls s.before) : Inv s.finish := by
  refine ⟨hreg, h.pinned, fun c hc => ?_⟩
  obtain hc | hc := List.mem_append.mp hc
  · exact h.cycles c hc
  · obtain rfl := List.mem_singleton.mp hc
    exact hheld

/-- A step of the init or exit function, and its return. -/
theorem proceed_inv (hstep : step s .proceed = some s') (h : Inv s) : Inv s' := by
  have hphase := h.phase
  unfold PhaseOk at hphase
  unfold step at hstep
  cases hp : s.phase with
  | absent => simp [hp] at hstep
  | live => simp [hp] at hstep
  | loading rest ret =>
    simp only [hp] at hstep hphase
    obtain ⟨done, hinit, hs⟩ := hphase
    cases rest with
    | cons act rest =>
      obtain rfl := Option.some.inj hstep
      refine ⟨⟨done ++ [act], by rw [hinit]; simp, hs.step act rfl rfl⟩, fun hfiles => ?_, h.cycles⟩
      exact nomatch (loading_registered hinit hs (h.pinned hfiles)).1
    | nil =>
      rw [List.append_nil] at hinit
      dsimp only at hstep
      split at hstep
      case isFalse hret =>
        obtain rfl := Option.some.inj hstep
        refine ⟨⟨?_, ?_⟩, h.pinned, h.cycles⟩
        · rw [hinit]
          exact Int.not_lt.mp hret
        · rw [hinit]
          exact hs
      case isTrue hret =>
        obtain rfl := Option.some.inj hstep
        obtain ⟨d, hheld, hd, hdone⟩ := hs
        obtain ⟨hpos, -⟩ | ⟨-, hnot, hleft⟩ := nvpktInitModule_cases s.calls
        · rw [hinit] at hpos
          exact absurd hret (Int.not_lt.mpr hpos)
        · rw [hinit] at hnot hleft
          refine finish_inv h ?_ ?_
          · rw [hdone]
            exact foldl_exec_registered hnot hd
          · rw [hdone, ← hheld]
            exact hleft d
  | unloading rest =>
    simp only [hp] at hstep hphase
    obtain ⟨hfiles, hret, done, hexit, hs⟩ := hphase
    cases rest with
    | cons act rest =>
      obtain rfl := Option.some.inj hstep
      refine ⟨⟨hfiles, hret, done ++ [act], by rw [hexit]; simp, ?_⟩, fun hne => absurd hfiles hne,
        h.cycles⟩
      rw [← List.append_assoc]
      exact hs.step act rfl rfl
    | nil =>
      obtain rfl := Option.some.inj hstep
      rw [List.append_nil] at hexit
      obtain ⟨d, hheld, -, hdone⟩ := hs
      rw [← hexit] at hdone
      refine finish_inv h ?_ ?_
      · rw [hdone]
        exact (load_unload hret).2
      · rw [hdone, ← hheld]
        exact (load_unload hret).1

/-- While some file is open the module is not being unloaded, and what changes on
the files changes nothing else. -/
theorem setFile_inv {i : Nat} {f : OpenFile} (h : Inv s) (hi : s.files[i]? = some f)
    (f' : OpenFile) : Inv (s.setFile i f') := by
  have hfiles : s.files ≠ [] := by
    intro hnil
    simp [hnil] at hi
  refine ⟨?_, fun _ => h.pinned hfiles, h.cycles⟩
  have hphase := h.phase
  unfold PhaseOk at hphase ⊢
  simp only [Sys.setFile]
  cases hp : s.phase with
  | unloading rest =>
    simp only [hp] at hphase
    exact absurd hphase.1 hfiles
  | _ =>
    simp only [hp] at hphase
    exact hphase

theorem step_inv (l : Label) (hstep : step s l = some s') (h : Inv s) : Inv s' := by
  have hphase := h.phase
  unfold PhaseOk at hphase
  cases l with
  | proceed => exact proceed_inv hstep h
  | load calls =>
    dsimp only [step] at hstep
    split at hstep
    case h_2 => cases hstep
    case h_1 hp =>
      simp only [hp] at hphase
      obtain rfl := Option.some.inj hstep
      exact ⟨⟨[], rfl, s.driver, rfl, hphase, rfl⟩, h.pinned, h.cycles⟩
  | unload =>
    dsimp only [step] at hstep
    split at hstep
    case h_2 => cases hstep
    case h_1 hp hfiles =>
      simp only [hp] at hphase
      obtain rfl := Option.some.inj hstep
      refine ⟨⟨hfiles, hphase.1, [], rfl, ?_⟩, h.pinned, h.cycles⟩
      rw [List.append_nil]
      exact hphase.2
  | openFile =>
    dsimp only [step] at hstep
    split at hstep
    case h_1 => cases hstep
    case h_2 hp =>
      split at hstep
      case isFalse => cases hstep
      case isTrue hreg =>
        obtain rfl := Option.some.inj hstep
        refine ⟨?_, fun _ => hreg, h.cycles⟩
        unfold PhaseOk
        cases hp' : s.phase with
        | unloading rest => exact absurd hp' (hp rest)
        | _ =>
          simp only [hp'] at hphase
          exact hphase
  | ioctlBegin i | ioctlEnd i | closeFd i =>
    dsimp only [step] at hstep
    split at hstep
    case h_2 => cases hstep
    case h_1 hi =>
      obtain rfl := Option.some.inj hstep
      exact setFile_inv h hi _

/-- The invariant holds after every interleaving. -/
theorem run_inv {s0 : Sys} {labels : List Label} (h0 : Initial s0)
    (hrun : run s0 labels = some s) : Inv s := by
  refine foldlM_keeps (P := Inv) (fun s l s' hstep => step_inv l hstep) hrun ⟨?_, ?_, ?_⟩
  · unfold PhaseOk
    rw [h0.phase]
    exact h0.registered
  · exact fun hfiles => absurd h0.files hfiles
  · rw [h0.cycles]
    exact fun c hc => absurd hc List.not_mem_nil

/-- A file is open only between the registration and the unload. -/
theorem open_live (h : Inv s) (hfiles : s.files ≠ []) :
    0 ≤ (nvpktInitModule s.calls).2 ∧ Since s (nvpktInitModule s.calls).1 := by
  have hphase := h.phase
  have hreg := h.pinned hfiles
  unfold PhaseOk at hphase
  cases hp : s.phase with
  | absent =>
    simp only [hp] at hphase
    rw [hphase] at hreg
    cases hreg
  | loading rest ret =>
    simp only [hp] at hphase
    obtain ⟨done, hinit, hs⟩ := hphase
    obtain ⟨rfl, hret⟩ := loading_registered hinit hs hreg
    rw [List.append_nil] at hinit
    rw [hinit]
    exact ⟨hret, hs⟩
  | live =>
    simp only [hp] at hphase
    exact hphase
  | unloading rest =>
    simp only [hp] at hphase
    exact absurd hphase.1 hfiles

end Runs

/-- What the kernel answers where all that the module looks for is there. -/
def allFound : InitCalls :=
  { devt := 8, gendisk := some 0, part := some 0, netdev := some 0, miscRegister := 0 }

/-- Nothing has happened yet. -/
def booted : Sys :=
  { driver := ⟨⟨none, none, none⟩, fun _ => 0, false⟩, phase := .absent, files := [],
    calls := allFound, before := fun _ => 0, cycles := [] }

theorem booted_initial : Initial booted := ⟨rfl, rfl, rfl, rfl⟩

end Nvpkt.Guarantees.ModuleRuns
