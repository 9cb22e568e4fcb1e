import Mathlib.Logic.Function.Basic
import Nvpkt.Source.TxpktOne

/-!
# Load, unload and open files of the native driver

`nvpkt_init_module` and `nvpkt_exit_module` of `native-driver/nvpkt.c` as the
steps they take, one `Act` for each statement that touches the driver's fields, a
reference or the misc device; a call that fails takes no step. `Sys` interleaves
these steps with `open`, `ioctl` and `close` on the device: the misc layer opens a
file only while the device is registered and the module is not going away, every
open file pins `THIS_MODULE`, and unload starts only when nothing does.
-/

set_option autoImplicit false

namespace Nvpkt.Source.NvpktModule
open Nvpkt.Source.TxpktOne

def ENODEV : Errno := ⟨19, by decide, by decide⟩
def EBUSY : Errno := ⟨16, by decide, by decide⟩

/-- The objects whose references the module takes. -/
inductive Obj where
  | disk (id : Nat)
  | part (id : Nat)
  | netdev (id : Nat)
deriving DecidableEq

/-- `static struct nvpkt nvpkt` -/
structure NvpktStruct where
  disk : Option Nat
  part : Option Nat
  netdev : Option Nat
deriving DecidableEq

/-- What the kernel answers in one load; `devt` is 0 when there is no such device. -/
structure InitCalls where
  devt : Nat
  gendisk : Option Nat
  part : Option Nat
  netdev : Option Nat
  miscRegister : Int

inductive Act where
  | clear
  | getGendisk (disk : Nat)
  | diskGetPart (part : Nat)
  | setDisk (disk part : Nat)
  | devGetByName (dev : Nat)
  | setNetdev (dev : Nat)
  | miscRegister
  | devPut
  | diskPutPart
  | miscDeregister
deriving DecidableEq

/-- The steps of `nvpkt_init_module` and its return value. -/
def nvpktInitModule (calls : InitCalls) : List Act × Int :=
  if calls.devt = 0 then ([.clear], -ENODEV.val)
  else
    match calls.gendisk with
    | none => ([.clear], -ENODEV.val)
    | some disk =>
      match calls.part with
      | none => ([.clear, .getGendisk disk], -EBUSY.val)
      | some part =>
        let acquired := [.clear, .getGendisk disk, .diskGetPart part, .setDisk disk part]
        match calls.netdev with
        -- err_netdev
        | none => (acquired ++ [.diskPutPart], -ENODEV.val)
        | some dev =>
          let acquired := acquired ++ [.devGetByName dev, .setNetdev dev]
          -- err_mdev, and through it err_netdev
          if calls.miscRegister < 0 then (acquired ++ [.devPut, .diskPutPart], calls.miscRegister)
          else (acquired ++ [.miscRegister], calls.miscRegister)

/-- The steps of `nvpkt_exit_module`. -/
def nvpktExitModule : List Act := [.diskPutPart, .devPut, .miscDeregister]

/-- The driver's fields, the references the module holds on balance, and whether
the misc device is registered. -/
structure Driver where
  nvpkt : NvpktStruct
  held : Obj → Int
  registered : Bool

def Driver.get (d : Driver) (x : Obj) : Driver :=
  { d with held := Function.update d.held x (d.held x + 1) }

def Driver.put (d : Driver) (x : Obj) : Driver :=
  { d with held := Function.update d.held x (d.held x - 1) }

/-- One step; a release works on the object the field points at. -/
def exec (d : Driver) : Act → Driver
  | .clear => { d with nvpkt := ⟨none, none, none⟩ }
  | .getGendisk disk => d.get (.disk disk)
  | .diskGetPart part => d.get (.part part)
  | .setDisk disk part => { d with nvpkt := { d.nvpkt with disk := some disk, part := some part } }
  | .devGetByName dev => d.get (.netdev dev)
  | .setNetdev dev => { d with nvpkt := { d.nvpkt with netdev := some dev } }
  | .miscRegister => { d with registered := true }
  | .devPut =>
    match d.nvpkt.netdev with
    | some dev => d.put (.netdev dev)
    | none => d
  | .diskPutPart =>
    match d.nvpkt.part with
    | some part => d.put (.part part)
    | none => d
  | .miscDeregister => { d with registered := false }

/-! ## Interleaving -/

inductive Phase where
  | absent
  | loading (rest : List Act) (ret : Int)
  | live
  | unloading (rest : List Act)
deriving DecidableEq

/-- An open file: the descriptors on it and the ioctls that run on it. -/
structure OpenFile where
  fds : Nat
  running : Nat
deriving DecidableEq

/-- A load that failed or has been undone, with the references around it. -/
structure Cycle where
  calls : InitCalls
  before : Obj → Int
  after : Obj → Int

/-- `calls` and `before` belong to the last load. -/
structure Sys where
  driver : Driver
  phase : Phase
  files : List OpenFile
  calls : InitCalls
  before : Obj → Int
  cycles : List Cycle

def Sys.finish (s : Sys) : Sys :=
  { s with
    phase := .absent
    cycles := s.cycles ++ [{ calls := s.calls, before := s.before, after := s.driver.held }] }

/-- File `i` after a change; the last reference to it releases it. -/
def Sys.setFile (s : Sys) (i : Nat) (f : OpenFile) : Sys :=
  { s with files := if f.fds = 0 ∧ f.running = 0 then s.files.eraseIdx i else s.files.set i f }

inductive Label where
  | load (calls : InitCalls)
  | unload
  /-- The init or exit function takes its next step, or returns. -/
  | proceed
  | openFile
  | ioctlBegin (i : Nat)
  | ioctlEnd (i : Nat)
  | closeFd (i : Nat)

/-- `none` where the label is not possible. -/
def step (s : Sys) : Label → Option Sys
  | .load calls =>
    match s.phase with
    | .absent =>
      let init := nvpktInitModule calls
      some { s with phase := .loading init.1 init.2, calls := calls, before := s.driver.held }
    | _ => none
  | .unload =>
    match s.phase, s.files with
    | .live, [] => some { s with phase := .unloading nvpktExitModule }
    | _, _ => none
  | .proceed =>
    match s.phase with
    | .loading (act :: rest) ret =>
      some { s with driver := exec s.driver act, phase := .loading rest ret }
    | .loading [] ret => if ret < 0 then some s.finish else some { s with phase := .live }
    | .unloading (act :: rest) =>
      some { s with driver := exec s.driver act, phase := .unloading rest }
    | .unloading [] => some s.finish
    | _ => none
  | .openFile =>
    match s.phase with
    | .unloading _ => none
    | _ => if s.driver.registered then some { s with files := ⟨1, 0⟩ :: s.files } else none
  | .ioctlBegin i =>
    match s.files[i]? with
    | some ⟨fds + 1, running⟩ => some (s.setFile i ⟨fds + 1, running + 1⟩)
    | _ => none
  | .ioctlEnd i =>
    match s.files[i]? with
    | some ⟨fds, running + 1⟩ => some (s.setFile i ⟨fds, running⟩)
    | _ => none
  | .closeFd i =>
    match s.files[i]? with
    | some ⟨fds + 1, running⟩ => some (s.setFile i ⟨fds, running⟩)
    | _ => none

/-- The state after a sequence of labels. -/
def run (s : Sys) (labels : List Label) : Option Sys := labels.foldlM step s

/-- Nothing loaded and nothing open; the fields hold whatever memory held. -/
structure Initial (s : Sys) : Prop where
  phase : s.phase = .absent
  registered : s.driver.registered = false
  files : s.files = []
  cycles : s.cycles = []

end Nvpkt.Source.NvpktModule
