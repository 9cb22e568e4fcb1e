import Nvpkt.Guarantees.FrameContent
import Nvpkt.Source.NvpktIoctl

/-!
# The driver as a packet store

What the driver is for, without pages, bios and requests. A device has bytes that are
known or not, and a caller has jobs to do one after the other: a packet takes a stretch
of the device into a frame and puts the frame on the wire, a request writes a stretch.
Any job may be given up, and the callers' moves interleave. `none` is a byte that nothing
is promised about: one behind what the read stores, or one that a failed command may have
touched.

What is known of a stretch of the device stays known while no write meets it, and every
frame sent shows it (`stored_sent`).
-/

set_option autoImplicit false

namespace Nvpkt.Guarantees.PacketStore
open Nvpkt.Library.Interleaving
open Nvpkt.Source.KernelObjects Nvpkt.Source.TxpktOne Nvpkt.Source.SubmitIo
open Nvpkt.Source.NvpktIoctl
open Nvpkt.Guarantees.FrameContent

variable {Byte : Type}

inductive Job (Byte : Type) where
  | packet (base len shown : Nat)
  | write (base n : Nat) (bytes : Nat → Byte)
  /-- A command that may change the device in any way. -/
  | other

structure Store (Byte : Type) where
  disk : Nat → Option Byte
  wire : List (List (Option Byte))

/-- The jobs that are left; `frame` is what the packet in front has been read into. -/
structure Caller (Byte : Type) where
  jobs : List (Job Byte)
  frame : Option (List (Option Byte))

inductive Move (Byte : Type) where
  | execute (outcome : Outcome Byte)
  | send
  | giveUp

/-- A frame of `len` bytes, `shown` of which are the device's unless the read fails. -/
def load (disk : Nat → Option Byte) (base len shown : Nat) :
    Outcome Byte → List (Option Byte)
  | .done => (List.range len).map fun i => if i < shown then disk (base + i) else none
  | .failed _ => List.replicate len none

/-- What a write makes of the bytes. -/
def stored (bytes : Nat → Byte) : Outcome Byte → Nat → Option Byte
  | .done => fun i => some (bytes i)
  | .failed _ => fun _ => none

def move (s : Store Byte) : Caller Byte → Move Byte → Option (Store Byte × Caller Byte)
  | ⟨.packet base len shown :: rest, none⟩, .execute outcome =>
    some (s, ⟨.packet base len shown :: rest, some (load s.disk base len shown outcome)⟩)
  | ⟨.packet _ _ _ :: rest, some frame⟩, .send =>
    some ({ s with wire := s.wire ++ [frame] }, ⟨rest, none⟩)
  | ⟨.write base n bytes :: rest, _⟩, .execute outcome =>
    some ({ s with disk := overwrite s.disk base n (stored bytes outcome) }, ⟨rest, none⟩)
  | ⟨.other :: rest, _⟩, .execute _ => some ({ s with disk := fun _ => none }, ⟨rest, none⟩)
  | ⟨_ :: rest, _⟩, .giveUp => some (s, ⟨rest, none⟩)
  | _, _ => none

/-- The packet of a transmit ioctl. -/
def packetJob (k : Kernel) (ns : NvmeNs) (npr : NvpktXmit) : Job Byte :=
  .packet (npr.slba.val <<< ns.lbaShift) npr.len.val (intact k ns npr)

/-- What a user's request is for. -/
def requestJobs (ns : NvmeNs) (io : NvmeUserIo) (memory : Nat → Byte) : List (Job Byte) :=
  if io.opcode.val = nvmeCmdWrite then
    [.write (io.slba.val <<< ns.lbaShift) (submitLength ns io) fun i => memory (io.addr.val + i)]
  else if io.opcode.val ∈ [nvmeCmdRead, nvmeCmdFlush, nvmeCmdCompare] then []
  else [.other]

/-- What an ioctl is for. -/
def jobs (k : Kernel) (ns : NvmeNs) (q : Ioctl Byte) : List (Job Byte) :=
  if q.cmd.val = NVPKT_IOCTL_TXPKT then [packetJob k ns q.npr]
  else if q.cmd.val = NVPKT_IOCTL_TXPKT_COUNT then
    List.replicate q.npr.count.val (packetJob k ns q.npr)
  else if q.cmd.val = NVPKT_IOCTL_SUBMIT_IO then requestJobs ns q.io q.memory
  else []

def packetStore (k : Kernel) (ns : NvmeNs) :
    Machine (Store Byte) (Caller Byte) (Ioctl Byte) (Move Byte) where
  init q := ⟨jobs k ns q, none⟩
  action _ := move

/-! ## What stays known -/

/-- Bytes of the device from `base` on. -/
structure Region (Byte : Type) where
  base : Nat
  size : Nat
  bytes : Nat → Byte

def Region.Contains (r : Region Byte) (a : Nat) : Prop := r.base ≤ a ∧ a < r.base + r.size

def Region.Known (r : Region Byte) (disk : Nat → Option Byte) : Prop :=
  ∀ a, r.Contains a → disk a = some (r.bytes (a - r.base))

/-- A frame read from `base` on shows the region where it meets it. -/
def Region.Shown (r : Region Byte) (base len shown : Nat) (frame : List (Option Byte)) : Prop :=
  frame.length = len ∧ ∀ i < min shown len, r.Contains (base + i) →
    frame[i]? = some (some (r.bytes (base + i - r.base)))

/-- A job leaves the region alone. -/
def Region.Spared (r : Region Byte) : Job Byte → Prop
  | .packet _ _ _ => True
  | .write base n _ => base + n ≤ r.base ∨ r.base + r.size ≤ base
  | .other => False

/-- No command fails. -/
def Succeeding (m : Move Byte) : Prop := ∀ outcome, m = .execute outcome → outcome = .done

section Known
variable {r : Region Byte} {s : Store Byte}

theorem load_shown (hknown : r.Known s.disk) (base len shown : Nat) :
    r.Shown base len shown (load s.disk base len shown .done) := by
  refine ⟨by simp [load], fun i hi hin => ?_⟩
  rw [load, List.getElem?_map, List.getElem?_range (by omega), Option.map_some, if_pos (by omega),
    hknown _ hin]

theorem known_overwrite (hknown : r.Known s.disk) {base n : Nat}
    (bytes : Nat → Option Byte) (hspared : base + n ≤ r.base ∨ r.base + r.size ≤ base) :
    r.Known (overwrite s.disk base n bytes) := by
  intro a ha
  have ha' := ha
  obtain ⟨hlow, hhigh⟩ := ha
  rw [overwrite, if_neg (by omega)]
  exact hknown a ha'

end Known

/-- What has been sent since `before`, each frame satisfying `P`. -/
structure Sent (P : List (Option Byte) → Prop) (r : Region Byte)
    (before : List (List (Option Byte))) (s : Store Byte) : Prop where
  known : r.Known s.disk
  wire : ∃ later, s.wire = before ++ later ∧ ∀ frame ∈ later, P frame

/-- A caller that spares the region and sends only such frames. -/
structure Careful (P : List (Option Byte) → Prop) (r : Region Byte) (call : Caller Byte) :
    Prop where
  frame : ∀ frame, call.frame = some frame → P frame
  packets : ∀ base len shown, .packet base len shown ∈ call.jobs →
    ∀ frame, r.Shown base len shown frame → P frame
  spares : ∀ job ∈ call.jobs, r.Spared job

section Callers
variable {P : List (Option Byte) → Prop} {r : Region Byte}

/-- A caller that has no frame yet. -/
theorem careful_unread {jobs : List (Job Byte)}
    (packets : ∀ base len shown, .packet base len shown ∈ jobs →
      ∀ frame, r.Shown base len shown frame → P frame)
    (spares : ∀ job ∈ jobs, r.Spared job) : Careful P r ⟨jobs, none⟩ where
  frame _ hframe := nomatch hframe
  packets := packets
  spares := spares

theorem Careful.rest {job : Job Byte} {rest : List (Job Byte)}
    {frame : Option (List (Option Byte))} (h : Careful P r ⟨job :: rest, frame⟩) :
    Careful P r ⟨rest, none⟩ :=
  careful_unread
    (fun base len shown hjob => h.packets base len shown (List.mem_cons_of_mem job hjob))
    fun later hlater => h.spares later (List.mem_cons_of_mem job hlater)

end Callers

section Runs
variable {k : Kernel} {ns : NvmeNs} {P : List (Option Byte) → Prop} {r : Region Byte}
  {before : List (List (Option Byte))} {sys out : System (Store Byte) (Caller Byte)}
  {labels : List (Label (Ioctl Byte) (Move Byte))}

theorem Sent.send {s : Store Byte} (h : Sent P r before s) {frame : List (Option Byte)}
    (hframe : P frame) : Sent P r before { s with wire := s.wire ++ [frame] } := by
  obtain ⟨later, hwire, hall⟩ := h.wire
  refine ⟨h.known, later ++ [frame], by simp [hwire], fun f hf => ?_⟩
  rcases List.mem_append.mp hf with hf | hf
  · exact hall f hf
  · rw [List.mem_singleton.mp hf]
    exact hframe

/-- A move of a careful caller. -/
theorem move_careful {s s' : Store Byte} {call call' : Caller Byte} {m : Move Byte}
    (hmove : move s call m = some (s', call')) (hdone : Succeeding m) (h : Sent P r before s)
    (hcall : Careful P r call) : Sent P r before s' ∧ Careful P r call' := by
  obtain ⟨todo, frame⟩ := call
  cases todo with
  | nil => cases m <;> cases hmove
  | cons job rest =>
    cases m with
    | execute outcome =>
      obtain rfl := hdone outcome rfl
      cases job with
      | packet base len shown =>
        cases frame with
        | some frame => cases hmove
        | none =>
          obtain ⟨rfl, rfl⟩ := Prod.mk.inj (Option.some.inj hmove)
          refine ⟨h, fun frame hframe => ?_, hcall.packets, hcall.spares⟩
          obtain rfl := Option.some.inj hframe
          exact hcall.packets base len shown List.mem_cons_self _
            (load_shown h.known base len shown)
      | write base n bytes =>
        obtain ⟨rfl, rfl⟩ := Prod.mk.inj (Option.some.inj hmove)
        have hspared := hcall.spares _ List.mem_cons_self
        exact ⟨⟨known_overwrite h.known _ hspared, h.wire⟩, hcall.rest⟩
      | other => exact absurd (hcall.spares _ List.mem_cons_self) id
    | send =>
      cases job with
      | packet base len shown =>
        cases frame with
        | none => cases hmove
        | some frame =>
          obtain ⟨rfl, rfl⟩ := Prod.mk.inj (Option.some.inj hmove)
          exact ⟨h.send (hcall.frame frame rfl), hcall.rest⟩
      | write base n bytes | other => cases hmove
    | giveUp =>
      have hdropped : some (s, (⟨rest, none⟩ : Caller Byte)) = some (s', call') := by
        rw [← hmove]
        cases job <;> cases frame <;> rfl
      obtain ⟨rfl, rfl⟩ := Prod.mk.inj (Option.some.inj hdropped)
      exact ⟨h, hcall.rest⟩

/-- In every interleaving of careful callers whose commands do not fail, each frame sent
is one that its caller may send. -/
theorem stored_sent (hdone : ∀ m ∈ inputs labels, Succeeding m)
    (hinit : ∀ q ∈ spawned labels, Careful P r ((packetStore k ns).init q))
    (h : Sent P r before sys.shared) (hthreads : ∀ call ∈ sys.threads, Careful P r call)
    (hrun : (packetStore k ns).run sys labels = some out) : Sent P r before out.shared := by
  have hkept : Holds (Sent P r before) (fun _ _ call => Careful P r call) out := by
    refine run_keeps (fun q hq _ _ _ => hinit q hq) ?_ (fun _ _ _ _ _ _ _ _ _ _ _ _ _ hm => hm)
      ⟨h, fun i call hi => hthreads call (List.mem_of_getElem? hi)⟩ hrun
    exact fun m hm _ _ _ _ _ hact hs hcall => move_careful hact (hdone m hm) hs hcall
  exact hkept.shared

end Runs

end Nvpkt.Guarantees.PacketStore
