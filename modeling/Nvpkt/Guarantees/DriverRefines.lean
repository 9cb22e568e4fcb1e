import Nvpkt.Guarantees.PacketStore
import Nvpkt.Guarantees.TxpktCount

/-!
# The driver refines the packet store

In every interleaving of any number of ioctls, each step of the driver is a move of the
packet store or none: every ioctl does its jobs in order or gives them up, a byte the
store knows is on the device, and a frame of the store is the frame on the wire wherever
the store knows its bytes (`driver_refines`). The pages, scatterlists, bios and requests
that the driver works with are gone on that level.
-/

set_option autoImplicit false

namespace Nvpkt.Guarantees.DriverRefines
open Nvpkt.Library.SegmentList Nvpkt.Library.FixedWidth Nvpkt.Library.Interleaving
open Nvpkt.Source.KernelObjects Nvpkt.Source.TxpktOne Nvpkt.Source.TxpktIoctl
open Nvpkt.Source.SubmitIo Nvpkt.Source.NvpktIoctl
open Nvpkt.Guarantees.SgWalk Nvpkt.Guarantees.TxpktPaths Nvpkt.Guarantees.TxpktPayload
open Nvpkt.Guarantees.FrameContent Nvpkt.Guarantees.PacketStore

variable {Byte : Type}

/-! ## Traces of the transmit ioctls -/

/-- At most `n` packets are read, and a frame is handed on only right after the read into
a bio that carries it. -/
inductive Safe (Byte : Type) (k : Kernel) (ns : NvmeNs) (npr : NvpktXmit) :
    Nat → List Event → Prop
  | nil {n : Nat} : Safe Byte k ns npr n []
  | quiet {n : Nat} {ev : Event} {rest : List Event} (hquiet : Quiet ev)
      (h : Safe Byte k ns npr n rest) : Safe Byte k ns npr n (ev :: rest)
  | cancelled {n : Nat} {bio : List Sg} {ev : Event} {rest : List Event} (hquiet : Quiet ev)
      (h : Safe Byte k ns npr n rest) :
      Safe Byte k ns npr (n + 1) (.executeRq (txpktCommand k ns npr) bio :: ev :: rest)
  | sent {n : Nat} {bio : List Sg} {skb : SkBuff} {rest : List Event}
      (hcarries : Carries Byte k ns npr bio skb) (h : Safe Byte k ns npr n rest) :
      Safe Byte k ns npr (n + 1)
        (.executeRq (txpktCommand k ns npr) bio :: .devQueueXmit skb :: rest)

/-- The ioctl is one that transmits. -/
def Transmits (q : Ioctl Byte) : Prop :=
  q.cmd.val = NVPKT_IOCTL_TXPKT ∨ q.cmd.val = NVPKT_IOCTL_TXPKT_COUNT

/-- A packet is at least as long as the shared info and its fragments fit the `sk_buff`,
`sgl_alloc` keeps its promise for each packet, and `bio_add_pc_page` adds what it is asked
for. -/
structure Sane (k : Kernel) (q : Ioctl Byte) : Prop where
  long : k.sharedInfo ≤ q.npr.len.val
  pages : q.npr.len.val + k.sharedInfo ≤ k.pageSize * (k.maxSkbFrags + 1)
  alloc : ∀ i sgl, (q.calls i).sglAlloc = some sgl → SglAllocated k (sglLength k q.npr) sgl
  full : ∀ i j n, (q.calls i).addPcPage j n = n

section Traces
variable {k : Kernel} {ns : NvmeNs} {npr : NvpktXmit} {calls : Calls}

theorem Safe.mono {n m : Nat} {evs : List Event} (h : Safe Byte k ns npr n evs) (hnm : n ≤ m) :
    Safe Byte k ns npr m evs := by
  obtain ⟨d, rfl⟩ := Nat.exists_eq_add_of_le' hnm
  clear hnm
  induction h with
  | nil => exact .nil
  | quiet hquiet _ ih => exact .quiet hquiet ih
  | cancelled hquiet _ ih => exact .cancelled hquiet ih
  | sent hcarries _ ih => exact .sent hcarries ih

theorem Safe.append {n m : Nat} {xs ys : List Event} (hx : Safe Byte k ns npr n xs)
    (hy : Safe Byte k ns npr m ys) : Safe Byte k ns npr (m + n) (xs ++ ys) := by
  induction hx with
  | nil => exact hy.mono (Nat.le_add_right ..)
  | quiet hquiet _ ih => exact .quiet hquiet ih
  | cancelled hquiet _ ih => exact .cancelled hquiet ih
  | sent hcarries _ ih => exact .sent hcarries ih

theorem safe_of_quiet {evs : List Event} (h : ∀ ev ∈ evs, Quiet ev) :
    Safe Byte k ns npr 0 evs := by
  induction evs with
  | nil => exact .nil
  | cons ev rest ih =>
    rw [List.forall_mem_cons] at h
    exact .quiet h.1 (ih h.2)

theorem txpktOne_safe (long : k.sharedInfo ≤ npr.len.val)
    (pages : npr.len.val + k.sharedInfo ≤ k.pageSize * (k.maxSkbFrags + 1))
    (alloc : ∀ sgl, calls.sglAlloc = some sgl → SglAllocated k (sglLength k npr) sgl)
    (full : ∀ j n, calls.addPcPage j n = n) :
    Safe Byte k ns npr 1 (nvpktIoctlTxpktOne k ns calls npr).trace := by
  rcases txpktOne_paths k ns calls npr with
    ⟨sgl, skb, pre, hreach, hskb, hquiet, hrun⟩ | ⟨-, hquiet, -⟩
  · have hfrags := k.frags_lt
    obtain ⟨e, rest, rfl, hn, hl, -, -, hinfo⟩ :=
      sgl_shape k npr sgl (by omega) (alloc sgl hreach.sglAlloc)
    have hS := k.sharedInfo_pos
    rw [skbFromSgvec_eq k calls e rest _ hreach.buildSkb hl (by omega) (by omega)] at hskb
    simp only [Except.ok.injEq, Option.some.injEq] at hskb
    subst hskb
    have hcarries : Carries Byte k ns npr _ _ :=
      walked_carries k ns npr e rest calls full hn hl (alloc _ hreach.sglAlloc) hinfo long
    rw [hrun]
    refine Safe.append (safe_of_quiet hquiet) ?_
    unfold executeAndXmit
    split
    · exact .cancelled trivial .nil
    · exact .sent hcarries (.quiet trivial .nil)
  · exact (safe_of_quiet hquiet).mono (Nat.zero_le 1)

theorem txpktCountLoop_safe {calls : Nat → Calls} (long : k.sharedInfo ≤ npr.len.val)
    (pages : npr.len.val + k.sharedInfo ≤ k.pageSize * (k.maxSkbFrags + 1))
    (alloc : ∀ i sgl, (calls i).sglAlloc = some sgl → SglAllocated k (sglLength k npr) sgl)
    (full : ∀ i j n, (calls i).addPcPage j n = n) (rest count : Nat) :
    Safe Byte k ns npr rest (txpktCountLoop k ns calls npr rest count).trace := by
  induction rest generalizing count with
  | zero => exact .nil
  | succ rest ih =>
    have hone : Safe Byte k ns npr 1 (nvpktIoctlTxpktOne k ns (calls count) npr).trace :=
      txpktOne_safe long pages (alloc count) (full count)
    unfold txpktCountLoop
    dsimp only
    split
    · exact hone.append (ih (count + 1))
    · exact hone.mono (Nat.le_add_left 1 rest)

/-- The steps of a transmit ioctl are those of its packets. -/
theorem transmit_trace (ns : NvmeNs) {q : Ioctl Byte} (hq : Transmits q) (hsane : Sane k q) :
    ∃ n evs, (nvpktIoctl k ns q).trace = evs.map .packet ∧ Safe Byte k ns q.npr n evs ∧
      jobs k ns q = List.replicate n (packetJob k ns q.npr) := by
  unfold nvpktIoctl jobs
  rcases hq with hcmd | hcmd
  · rw [if_pos hcmd, if_pos hcmd]
    refine ⟨1, _, rfl, ?_, rfl⟩
    unfold nvpktIoctlTxpkt
    split
    · exact .nil
    · exact txpktOne_safe hsane.long hsane.pages (hsane.alloc 0) (hsane.full 0)
  · have hone : ¬ q.cmd.val = NVPKT_IOCTL_TXPKT := by
      rw [hcmd]
      decide
    rw [if_neg hone, if_pos hcmd, if_neg hone, if_pos hcmd]
    refine ⟨_, _, rfl, ?_, rfl⟩
    unfold nvpktIoctlTxpktCount
    split
    · exact .nil
    · exact txpktCountLoop_safe hsane.long hsane.pages hsane.alloc hsane.full _ _

end Traces

/-! ## Correspondence of the states -/

/-- The bytes are what is known of them. -/
def Shows (bytes : List Byte) (frame : List (Option Byte)) : Prop :=
  bytes.length = frame.length ∧
    ∀ (i : Nat) (x : Byte), frame[i]? = some (some x) → bytes[i]? = some x

structure Agrees (w : World Byte) (s : Store Byte) : Prop where
  disk : ∀ a x, s.disk a = some x → w.disk a = x
  wire : List.Forall₂ Shows w.wire s.wire

/-- Before its execution a request gets its command and its mapping. -/
def Prepared (k : Kernel) (ns : NvmeNs) (io : NvmeUserIo) :
    List SubmitEvent → Option NvmeRwCommand → Option (Nat × Nat) → Prop
  | [], _, _ => True
  | .allocRequest c :: rest, _, mapping => Prepared k ns io rest (some c) mapping
  | .mapUser addr length :: rest, command, _ => Prepared k ns io rest command (some (addr, length))
  | .executeRq :: rest, command, mapping =>
    command = some (submitCommand k ns io) ∧
      mapping = some (io.addr.val, submitLength ns io) ∧ .executeRq ∉ rest ∧
      Prepared k ns io rest command mapping
  | _ :: rest, command, mapping => Prepared k ns io rest command mapping

theorem submit_prepared {k : Kernel} (ns : NvmeNs) (calls : SubmitCalls) (io : NvmeUserIo) :
    Prepared k ns io (nvpktIoctlSubmitIo k ns calls io).trace none none := by
  obtain htrace | ⟨-, htrace | htrace | htrace⟩ := nvpktIoctlSubmitIo_trace k ns calls io
  all_goals
    rw [htrace]
    simp [Prepared]

/-- A call and the caller of the store it stands for. -/
inductive Follows (k : Kernel) (ns : NvmeNs) : InFlight Byte → Caller Byte → Prop
  | packets {n : Nat} {npr : NvpktXmit} {evs : List Event} {memory : Nat → Byte}
      {command : Option NvmeRwCommand} {mapping : Option (Nat × Nat)}
      (hsafe : Safe Byte k ns npr n evs) :
      Follows k ns ⟨evs.map .packet, memory, command, mapping⟩
        ⟨List.replicate n (packetJob k ns npr), none⟩
  | dropped {n : Nat} {npr : NvpktXmit} {ev : Event} {evs : List Event} {memory : Nat → Byte}
      {command : Option NvmeRwCommand} {mapping : Option (Nat × Nat)} {frame : List (Option Byte)}
      (hquiet : Quiet ev) (hsafe : Safe Byte k ns npr n evs) :
      Follows k ns ⟨.packet ev :: evs.map .packet, memory, command, mapping⟩
        ⟨packetJob k ns npr :: List.replicate n (packetJob k ns npr), some frame⟩
  | loaded {n : Nat} {npr : NvpktXmit} {skb : SkBuff} {evs : List Event} {memory : Nat → Byte}
      {command : Option NvmeRwCommand} {mapping : Option (Nat × Nat)} {frame : List (Option Byte)}
      (hsafe : Safe Byte k ns npr n evs)
      (hshows : Shows (gather k.byteAddr memory skb.segs) frame) :
      Follows k ns ⟨.packet (.devQueueXmit skb) :: evs.map .packet, memory, command, mapping⟩
        ⟨packetJob k ns npr :: List.replicate n (packetJob k ns npr), some frame⟩
  | request {io : NvmeUserIo} {evs : List SubmitEvent} {memory : Nat → Byte}
      {command : Option NvmeRwCommand} {mapping : Option (Nat × Nat)} {todo : List (Job Byte)}
      (hprep : Prepared k ns io evs command mapping)
      (htodo : .executeRq ∈ evs → todo = requestJobs ns io memory) :
      Follows k ns ⟨evs.map .io, memory, command, mapping⟩ ⟨todo, none⟩

section Steps
variable {k : Kernel} {ns : NvmeNs} {w : World Byte} {s : Store Byte} {npr : NvpktXmit}

theorem carries_shows {bio : List Sg} {skb : SkBuff} (hcarries : Carries Byte k ns npr bio skb)
    (src memory : Nat → Byte) {frame : List (Option Byte)} (hlen : frame.length = npr.len.val)
    (hframe : ∀ (i : Nat) (x : Byte), frame[i]? = some (some x) → i < intact k ns npr ∧ src i = x) :
    Shows (gather k.byteAddr
      (fill k.byteAddr src (transferBytes ns (txpktCommand k ns npr)) bio 0 memory) skb.segs)
      frame := by
  refine ⟨by rw [gather_length, hcarries.length, hlen], fun i x hx => ?_⟩
  obtain ⟨hi, rfl⟩ := hframe i x hx
  rw [hcarries.content, List.getElem?_append_left (by simpa using hi), List.getElem?_map,
    List.getElem?_range hi, Option.map_some]

/-- A packet's read, whatever becomes of it, leaves in the frame what the store expects. -/
theorem read_shows (hh : k.host = .little) (hagrees : Agrees w s) {bio : List Sg} {skb : SkBuff}
    (hcarries : Carries Byte k ns npr bio skb) (outcome : Outcome Byte) (memory : Nat → Byte) :
    Shows (gather k.byteAddr (fill k.byteAddr
        (outcome.bytes (readByte ns w.disk (txpktCommand k ns npr)))
        (transferBytes ns (txpktCommand k ns npr)) bio 0 memory) skb.segs)
      (load s.disk (npr.slba.val <<< ns.lbaShift) npr.len.val (intact k ns npr) outcome) := by
  cases outcome with
  | done =>
    refine carries_shows hcarries _ _ (by simp [load]) (fun i x hx => ?_)
    simp only [load, List.getElem?_map, Option.map_eq_some_iff] at hx
    obtain ⟨j, hj, hx⟩ := hx
    obtain rfl : i = j := by simpa using (List.getElem?_eq_some_iff.mp hj).2
    split at hx
    · refine ⟨by assumption, ?_⟩
      rw [Outcome.bytes, readByte, slba_little k ns npr hh]
      exact hagrees.disk _ _ hx
    · cases hx
  | failed junk =>
    refine carries_shows hcarries _ _ (by simp [load]) (fun i x hx => ?_)
    simp only [load, List.getElem?_replicate] at hx
    split at hx <;> cases hx

/-- What a request moves is what it has mapped. -/
theorem submit_moves (ns : NvmeNs) (hh : k.host = .little) (io : NvmeUserIo) :
    (submitCommand k ns io).slba = io.slba.val ∧
      min (transferBytes ns (submitCommand k ns io).toRwCommand) (submitLength ns io) =
        submitLength ns io := by
  have hslba := io.slba.isLt
  have hblocks := io.nblocks.isLt
  refine ⟨?_, ?_⟩
  · simp only [submitCommand, cpuToLe, hh]
    omega
  · have hlength : (submitCommand k ns io).length = io.nblocks.val := by
      simp only [submitCommand, cpuToLe, hh]
      omega
    rw [transferBytes, hlength]
    exact Nat.min_eq_right (Nat.mod_le _ _)

/-- The device's part of a user's request is its job. -/
theorem request_simulated (hh : k.host = .little) (hagrees : Agrees w s) (io : NvmeUserIo)
    (other : NvmeRwCommand → (Nat → Byte) → Nat → Byte) (outcome : Outcome Byte)
    (memory : Nat → Byte) :
    let w' := (executeUser ns other (submitCommand k ns io) io.addr.val (submitLength ns io)
      outcome w memory).1
    (Agrees w' s ∧ requestJobs ns io memory = []) ∨ ∃ s',
      move s ⟨requestJobs ns io memory, none⟩ (.execute outcome) = some (s', ⟨[], none⟩) ∧
        Agrees w' s' := by
  obtain ⟨hslba, hmoved⟩ := submit_moves ns hh io
  have hop : (submitCommand k ns io).opcode = io.opcode.val := rfl
  unfold executeUser requestJobs
  simp only [hslba, hmoved, hop]
  by_cases hwrite : io.opcode.val = nvmeCmdWrite
  · rw [if_pos hwrite, if_pos hwrite]
    refine .inr ⟨_, rfl, fun a x hx => ?_, hagrees.wire⟩
    simp only [overwrite] at hx ⊢
    by_cases ha : io.slba.val <<< ns.lbaShift ≤ a ∧
        a < io.slba.val <<< ns.lbaShift + submitLength ns io
    · rw [if_pos ha] at hx ⊢
      cases outcome with
      | done => exact Option.some.inj hx
      | failed junk => cases hx
    · rw [if_neg ha] at hx ⊢
      exact hagrees.disk a x hx
  · rw [if_neg hwrite, if_neg hwrite]
    by_cases hread : io.opcode.val = nvmeCmdRead
    · rw [if_pos hread, if_pos (by simp [hread])]
      exact .inl ⟨hagrees, rfl⟩
    · rw [if_neg hread]
      by_cases hkeeps : io.opcode.val = nvmeCmdFlush ∨ io.opcode.val = nvmeCmdCompare
      · rw [if_pos hkeeps, if_pos (by simpa [hread] using hkeeps)]
        exact .inl ⟨hagrees, rfl⟩
      · rw [if_neg hkeeps, if_neg (by simpa [hread] using hkeeps)]
        refine .inr ⟨_, rfl, ⟨fun a x hx => ?_, hagrees.wire⟩⟩
        cases hx

end Steps

section Simulation
variable {k : Kernel} {ns : NvmeNs} {other : NvmeRwCommand → (Nat → Byte) → Nat → Byte}
  {w w' : World Byte} {s : Store Byte} {call call' : InFlight Byte} {caller : Caller Byte}
  {outcome : Outcome Byte} {i : Nat}

/-- What a step of the driver has done. -/
theorem driver_action (h : (driver k ns other).action i w call outcome = some (w', call')) :
    ∃ ev rest, call.todo = ev :: rest ∧ w' = (effect k ns other w call outcome ev).1 ∧
      call' = { (effect k ns other w call outcome ev).2 with todo := rest } := by
  simp only [driver] at h
  split at h
  · cases h
  · next ev rest htodo =>
    obtain ⟨rfl, rfl⟩ := Prod.mk.inj (Option.some.inj h)
    exact ⟨ev, rest, htodo, rfl, rfl⟩

/-- A step of a packet that is neither a read nor a transmission. -/
theorem quiet_effect {ev : Event} (hquiet : Quiet ev) :
    effect k ns other w call outcome (.packet ev) = (w, call) := by
  cases ev with
  | executeRq c bio => exact absurd hquiet id
  | devQueueXmit skb => exact absurd hquiet id
  | _ => rfl

/-- A move of the store comes from a step with that outcome. -/
def MoveOf (outcomes : List (Outcome Byte)) (m : Move Byte) : Prop :=
  ∀ outcome, m = .execute outcome → outcome ∈ outcomes

/-- Every step of the driver is a move of the store, or none. -/
theorem follows_step {outcomes : List (Outcome Byte)} (hh : k.host = .little)
    (houtcome : outcome ∈ outcomes) (hagrees : Agrees w s) (hfollows : Follows k ns call caller)
    (hact : (driver k ns other).action i w call outcome = some (w', call')) :
    Simulated (packetStore k ns) Agrees (Follows k ns) (MoveOf outcomes) i w' call' s caller := by
  have hexecute : MoveOf outcomes (.execute outcome) := by
    rintro _ ⟨⟩
    exact houtcome
  have hother : ∀ m : Move Byte, m = .send ∨ m = .giveUp → MoveOf outcomes m := by
    rintro _ (rfl | rfl) _ ⟨⟩
  obtain ⟨ev, rest, htodo, rfl, rfl⟩ := driver_action hact
  cases hfollows with
  | packets hsafe =>
    cases hsafe with
    | nil => cases htodo
    | quiet hquiet h =>
      obtain ⟨rfl, rfl⟩ := List.cons.inj htodo
      rw [quiet_effect hquiet]
      exact .inl ⟨hagrees, .packets h⟩
    | cancelled hquiet h =>
      obtain ⟨rfl, rfl⟩ := List.cons.inj htodo
      exact .inr ⟨.execute outcome, _, _, hexecute, rfl, hagrees, .dropped hquiet h⟩
    | sent hcarries h =>
      obtain ⟨rfl, rfl⟩ := List.cons.inj htodo
      exact .inr ⟨.execute outcome, _, _, hexecute, rfl, hagrees,
        .loaded h (read_shows hh hagrees hcarries outcome _)⟩
  | dropped hquiet hsafe =>
    obtain ⟨rfl, rfl⟩ := List.cons.inj htodo
    rw [quiet_effect hquiet]
    exact .inr ⟨.giveUp, _, _, hother _ (.inr rfl), rfl, hagrees, .packets hsafe⟩
  | loaded hsafe hshows =>
    obtain ⟨rfl, rfl⟩ := List.cons.inj htodo
    refine .inr ⟨.send, _, _, hother _ (.inl rfl), rfl, ⟨hagrees.disk, ?_⟩, .packets hsafe⟩
    exact List.rel_append hagrees.wire (.cons hshows .nil)
  | @request io evs memory command mapping todo hprep hjobs =>
    cases evs with
    | nil => cases htodo
    | cons ev evs =>
      obtain ⟨rfl, rfl⟩ := List.cons.inj htodo
      cases ev with
      | executeRq =>
        obtain ⟨rfl, rfl, honce, hrest⟩ := hprep
        obtain rfl := hjobs List.mem_cons_self
        rcases request_simulated hh hagrees io other outcome memory with
          ⟨hsame, -⟩ | ⟨s', hmove, hagrees'⟩
        · exact .inl ⟨hsame, .request hrest fun hmore => absurd hmore honce⟩
        · exact .inr ⟨.execute outcome, s', _, hexecute, hmove, hagrees',
            .request hrest fun hmore => absurd hmore honce⟩
      | _ =>
        exact .inl ⟨hagrees, .request hprep fun hmore => hjobs (List.mem_cons_of_mem _ hmore)⟩

end Simulation

/-! ## Runs -/

theorem begin_follows {k : Kernel} {ns : NvmeNs}
    {other : NvmeRwCommand → (Nat → Byte) → Nat → Byte} (q : Ioctl Byte)
    (hsane : Transmits q → Sane k q) :
    Follows k ns ((driver k ns other).init q) ((packetStore k ns).init q) := by
  by_cases hq : Transmits q
  · obtain ⟨n, evs, htrace, hsafe, hjobs⟩ := transmit_trace ns hq (hsane hq)
    simp only [driver, packetStore, htrace, hjobs]
    exact .packets hsafe
  · have hone : ¬ q.cmd.val = NVPKT_IOCTL_TXPKT := fun h => hq (.inl h)
    have hcount : ¬ q.cmd.val = NVPKT_IOCTL_TXPKT_COUNT := fun h => hq (.inr h)
    simp only [driver, packetStore, nvpktIoctl, jobs, if_neg hone, if_neg hcount]
    split
    · exact .request (submit_prepared ns q.submit q.io) fun _ => rfl
    · have hnil : Safe Byte k ns q.npr 0 [] := .nil
      exact .packets hnil

/-- What is known of the world before any ioctl has begun: all of it. -/
def known (w : World Byte) : Store Byte :=
  { disk := fun a => some (w.disk a), wire := w.wire.map (·.map some) }

theorem known_agrees (w : World Byte) : Agrees w (known w) := by
  refine ⟨fun a x hx => Option.some.inj hx, ?_⟩
  unfold known
  generalize w.wire = wire
  induction wire with
  | nil => exact .nil
  | cons frame rest ih =>
    refine .cons ⟨by simp, fun i x hx => ?_⟩ ih
    simpa using hx

/-- No ioctl is under way. -/
def Idle (sys : System (World Byte) (InFlight Byte)) : Prop := ∀ call ∈ sys.threads, call.todo = []

/-- The store with the same callers, none of which has anything left to do. -/
def knownSystem (sys : System (World Byte) (InFlight Byte)) : System (Store Byte) (Caller Byte) :=
  { shared := known sys.shared, threads := sys.threads.map fun _ => ⟨[], none⟩ }

theorem idle_related {k : Kernel} {ns : NvmeNs} {sys : System (World Byte) (InFlight Byte)}
    (hidle : Idle sys) : Related Agrees (Follows k ns) sys (knownSystem sys) := by
  refine ⟨known_agrees sys.shared, ?_⟩
  unfold knownSystem
  rw [List.forall₂_map_right_iff, List.forall₂_same]
  intro call hcall
  obtain ⟨todo, memory, command, mapping⟩ := call
  obtain rfl : todo = [] := hidle _ hcall
  have hnil : Safe Byte k ns ⟨0, 0, 0⟩ 0 [] := .nil
  exact .packets hnil

/-- The store's callers do what the driver's ioctls are for. -/
theorem driver_related {k : Kernel} {ns : NvmeNs}
    {other : NvmeRwCommand → (Nat → Byte) → Nat → Byte} (hh : k.host = .little)
    {sys out : System (World Byte) (InFlight Byte)} (hidle : Idle sys)
    {labels : List (Label (Ioctl Byte) (Outcome Byte))}
    (hsane : ∀ q ∈ spawned labels, Transmits q → Sane k q)
    (hrun : (driver k ns other).run sys labels = some out) :
    ∃ moves out', spawned moves = spawned labels ∧ (∀ m ∈ inputs moves, MoveOf (inputs labels) m) ∧
      (packetStore k ns).run (knownSystem sys) moves = some out' ∧
      Related Agrees (Follows k ns) out out' :=
  run_simulates (fun q hq => begin_follows q (hsane q hq))
    (fun _ he _ _ _ _ _ _ _ hact hagrees hfollows => follows_step hh he hagrees hfollows hact)
    (idle_related hidle) hrun

/-- In every interleaving of the ioctls, from any state in which none is under way, the
same ioctls have moves of the packet store, in which a command fails only if one of the
driver does, and what the store knows and sends in them is what the device holds and the
wire carries. -/
theorem driver_refines (k : Kernel) (ns : NvmeNs)
    (other : NvmeRwCommand → (Nat → Byte) → Nat → Byte) (hh : k.host = .little)
    (sys out : System (World Byte) (InFlight Byte)) (hidle : Idle sys)
    (labels : List (Label (Ioctl Byte) (Outcome Byte)))
    (hsane : ∀ q ∈ spawned labels, Transmits q → Sane k q)
    (hrun : (driver k ns other).run sys labels = some out) :
    ∃ moves out', spawned moves = spawned labels ∧ (∀ m ∈ inputs moves, MoveOf (inputs labels) m) ∧
      (packetStore k ns).run (knownSystem sys) moves = some out' ∧
      Agrees out.shared out'.shared := by
  obtain ⟨moves, out', hsame, hmoves, hrun', hrelated⟩ := driver_related hh hidle hsane hrun
  exact ⟨moves, out', hsame, hmoves, hrun', hrelated.shared⟩

/-- A TXPKT of 1024 bytes for which every kernel call succeeds. -/
def txpkt1024 : Ioctl Nat :=
  { cmd := word 32 NVPKT_IOCTL_TXPKT, npr := ⟨word 64 1024, word 64 1, word 64 0⟩
    io := readAt (word 64 0) (word 16 0) (word 16 0), copyFromUser := 0
    calls := fun _ => succeedingCalls (onePage 1344), submit := succeedingSubmit
    memory := fun _ => 0 }

theorem txpkt1024_sane : Sane x86_64 txpkt1024 where
  long := by decide
  pages := by decide
  alloc _ sgl h := by
    obtain rfl := Option.some.inj h
    exact ⟨by decide, by decide, by decide, by decide⟩
  full _ _ _ := rfl

/-- A device of known content, and a wire with nothing on it. -/
def freshSystem : System (World Nat) (InFlight Nat) := ⟨⟨fun a => a % 256, []⟩, []⟩

theorem freshSystem_idle : Idle freshSystem := fun _ hcall => absurd hcall List.not_mem_nil

/-- Two packets, the second of which starts while the first is under way. -/
def twoPackets : List (Label (Ioctl Nat) (Outcome Nat)) :=
  .spawn txpkt1024 :: List.replicate 10 (.act 0 .done) ++
    .spawn txpkt1024 :: List.replicate 11 (.act 1 .done) ++ [.act 0 .done]

theorem twoPackets_sane : ∀ q ∈ spawned twoPackets, Transmits q → Sane x86_64 q := by
  intro q hq _
  have hboth : spawned twoPackets = [txpkt1024, txpkt1024] := rfl
  rw [hboth] at hq
  obtain rfl : q = txpkt1024 := by simpa using hq
  exact txpkt1024_sane

theorem driver_refines_two : ∃ out moves out', out'.shared.wire.length = 2 ∧
    (driver x86_64 ⟨1, 9⟩ fun _ disk => disk).run freshSystem twoPackets = some out ∧
      spawned moves = spawned twoPackets ∧ (∀ m ∈ inputs moves, MoveOf (inputs twoPackets) m) ∧
      (packetStore x86_64 ⟨1, 9⟩).run (knownSystem freshSystem) moves = some out' ∧
      Agrees out.shared out'.shared := by
  obtain ⟨moves, out', hsame, hmoves, hrun', hagrees⟩ := driver_refines x86_64 ⟨1, 9⟩
    (fun _ disk => disk) rfl freshSystem _ freshSystem_idle twoPackets twoPackets_sane rfl
  refine ⟨_, moves, out', ?_, rfl, hsame, hmoves, hrun', hagrees⟩
  exact hagrees.wire.length_eq.symm

end Nvpkt.Guarantees.DriverRefines
