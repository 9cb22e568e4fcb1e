import Nvpkt.Guarantees.DriverRefines

/-!
# What is stored is what is sent

As long as no request writes to a stretch of the device, every frame sent from it shows
what was stored there, at whatever point between the other ioctls its read is executed
(`stored_bytes_sent`). The bytes behind the read are left out: those of the frame's end
that the bio does not cover.
-/

set_option autoImplicit false

namespace Nvpkt.Guarantees.StoredPackets
open Nvpkt.Library.Interleaving
open Nvpkt.Source.KernelObjects Nvpkt.Source.TxpktOne Nvpkt.Source.SubmitIo
open Nvpkt.Source.NvpktIoctl
open Nvpkt.Guarantees.TxpktPaths Nvpkt.Guarantees.FrameContent Nvpkt.Guarantees.PacketStore
open Nvpkt.Guarantees.DriverRefines

variable {Byte : Type}

/-- The device holds the region's bytes. -/
def Region.Stored (r : Region Byte) (disk : Nat → Byte) : Prop :=
  ∀ a, r.Contains a → disk a = r.bytes (a - r.base)

/-- The request leaves the region alone: it writes elsewhere or is not one that writes. -/
def Avoids (ns : NvmeNs) (r : Region Byte) (io : NvmeUserIo) : Prop :=
  io.opcode.val ∈ [nvmeCmdRead, nvmeCmdFlush, nvmeCmdCompare] ∨
    (io.opcode.val = nvmeCmdWrite ∧
      (io.slba.val <<< ns.lbaShift + submitLength ns io ≤ r.base ∨
        r.base + r.size ≤ io.slba.val <<< ns.lbaShift))

/-- The frame has the packet's length and shows the region where its read meets it. -/
def SentFrom (k : Kernel) (ns : NvmeNs) (r : Region Byte) (npr : NvpktXmit)
    (frame : List Byte) : Prop :=
  frame.length = npr.len.val ∧ ∀ i < intact k ns npr,
    r.Contains (npr.slba.val <<< ns.lbaShift + i) →
      frame[i]? = some (r.bytes (npr.slba.val <<< ns.lbaShift + i - r.base))

theorem intact_le (k : Kernel) (ns : NvmeNs) (npr : NvpktXmit) :
    intact k ns npr ≤ npr.len.val :=
  Nat.le_trans (Nat.min_le_left _ _) (Nat.sub_le _ _)

section Callers
variable {k : Kernel} {ns : NvmeNs} {r : Region Byte} {P : List (Option Byte) → Prop}

theorem requestJobs_spared {io : NvmeUserIo} (havoids : Avoids ns r io) (memory : Nat → Byte) :
    ∀ job ∈ requestJobs ns io memory, r.Spared job := by
  unfold requestJobs
  rcases havoids with hkeeps | ⟨hwrite, hapart⟩
  · have hnot : ¬ io.opcode.val = nvmeCmdWrite := by
      intro hwrite
      rw [hwrite] at hkeeps
      revert hkeeps
      decide
    rw [if_neg hnot, if_pos hkeeps]
    exact fun job hjob => absurd hjob List.not_mem_nil
  · rw [if_pos hwrite]
    intro job hjob
    obtain rfl := List.mem_singleton.mp hjob
    exact hapart

theorem no_packet {io : NvmeUserIo} {memory : Nat → Byte} {base len shown : Nat} :
    .packet base len shown ∉ requestJobs ns io memory := by
  unfold requestJobs
  split
  · simp
  · split <;> simp

/-- An ioctl that does not write to the region sends what its packet may show of it. -/
theorem init_careful (q : Ioctl Byte)
    (havoids : q.cmd.val = NVPKT_IOCTL_SUBMIT_IO → Avoids ns r q.io)
    (hP : Transmits q → ∀ frame,
      r.Shown (q.npr.slba.val <<< ns.lbaShift) q.npr.len.val (intact k ns q.npr) frame →
      P frame) : Careful P r ((packetStore k ns).init q) := by
  by_cases hq : Transmits q
  · have hjobs : ∀ job ∈ jobs k ns q, job = packetJob k ns q.npr := by
      intro job hjob
      unfold jobs at hjob
      rcases hq with hcmd | hcmd
      · rw [if_pos hcmd] at hjob
        exact List.mem_singleton.mp hjob
      · rw [if_neg (by rw [hcmd]; decide), if_pos hcmd] at hjob
        exact List.eq_of_mem_replicate hjob
    refine careful_unread (fun base len shown hjob => ?_) fun job hjob => ?_
    · obtain ⟨rfl, rfl, rfl⟩ := Job.packet.inj (hjobs _ hjob)
      exact hP hq
    · rw [hjobs job hjob]
      trivial
  · have hone : ¬ q.cmd.val = NVPKT_IOCTL_TXPKT := fun h => hq (.inl h)
    have hcount : ¬ q.cmd.val = NVPKT_IOCTL_TXPKT_COUNT := fun h => hq (.inr h)
    simp only [packetStore, jobs, if_neg hone, if_neg hcount]
    split
    · exact careful_unread (fun _ _ _ hjob => absurd hjob no_packet)
        (requestJobs_spared (havoids (by assumption)) q.memory)
    · exact careful_unread (fun _ _ _ hjob => absurd hjob List.not_mem_nil)
        fun _ hjob => absurd hjob List.not_mem_nil

end Callers

/-! ## From the store back to the driver -/

/-- A frame all of whose bytes are known is that frame. -/
theorem shows_known {bytes frame : List Byte} (h : Shows bytes (frame.map some)) :
    bytes = frame := by
  obtain ⟨hlen, hbytes⟩ := h
  rw [List.length_map] at hlen
  apply List.ext_getElem?
  intro i
  cases hi : frame[i]? with
  | some x => exact hbytes i x (by simp [hi])
  | none =>
    rw [List.getElem?_eq_none_iff] at hi ⊢
    omega

theorem wire_known {wire before : List (List Byte)}
    (h : List.Forall₂ Shows wire (before.map (·.map some))) : wire = before := by
  induction before generalizing wire with
  | nil => exact List.forall₂_nil_right_iff.mp h
  | cons frame rest ih =>
    obtain ⟨bytes, wire', hshows, hrest, rfl⟩ := List.forall₂_cons_right_iff.mp h
    rw [shows_known hshows, ih hrest]

theorem shows_sent {k : Kernel} {ns : NvmeNs} {r : Region Byte} {npr : NvpktXmit}
    {bytes : List Byte} {frame : List (Option Byte)} (hshows : Shows bytes frame)
    (hshown : r.Shown (npr.slba.val <<< ns.lbaShift) npr.len.val (intact k ns npr) frame) :
    SentFrom k ns r npr bytes := by
  obtain ⟨hlen, hbytes⟩ := hshows
  obtain ⟨hframe, hregion⟩ := hshown
  refine ⟨hlen.trans hframe, fun i hi hin => hbytes i _ (hregion i ?_ hin)⟩
  have := intact_le k ns npr
  omega

/-- What holds of every frame that a packet may send from the region holds of every frame
sent. -/
theorem frames_sent {k : Kernel} {ns : NvmeNs}
    {other : NvmeRwCommand → (Nat → Byte) → Nat → Byte} (hh : k.host = .little)
    {sys out : System (World Byte) (InFlight Byte)} (hidle : Idle sys)
    {labels : List (Label (Ioctl Byte) (Outcome Byte))}
    (hsane : ∀ q ∈ spawned labels, Transmits q → Sane k q)
    (hdone : ∀ e ∈ inputs labels, e = Outcome.done) {r : Region Byte}
    (hstored : Region.Stored r sys.shared.disk)
    (havoids : ∀ q ∈ spawned labels, q.cmd.val = NVPKT_IOCTL_SUBMIT_IO → Avoids ns r q.io)
    {P : List Byte → Prop}
    (hP : ∀ q ∈ spawned labels, Transmits q → ∀ frame, SentFrom k ns r q.npr frame → P frame)
    (hrun : (driver k ns other).run sys labels = some out) :
    ∃ sent, out.shared.wire = sys.shared.wire ++ sent ∧ ∀ frame ∈ sent, P frame := by
  obtain ⟨moves, out', hsame, hmoves, hrun', hrelated⟩ := driver_related hh hidle hsane hrun
  rw [← hsame] at hP havoids
  have hstart : Sent (fun frame => ∃ q ∈ spawned moves, Transmits q ∧
        r.Shown (q.npr.slba.val <<< ns.lbaShift) q.npr.len.val (intact k ns q.npr) frame)
      r (known sys.shared).wire (knownSystem sys).shared :=
    ⟨fun a ha => congrArg some (hstored a ha), [], (List.append_nil _).symm, by simp⟩
  have hsent := stored_sent (fun m hm outcome hexec => hdone _ (hmoves m hm outcome hexec))
    (fun q hq => init_careful q (havoids q hq)
      (fun htransmits frame hshown => ⟨q, hq, htransmits, hshown⟩))
    hstart (by
      intro call hcall
      obtain ⟨_, -, rfl⟩ := List.mem_map.mp hcall
      exact ⟨fun _ hframe => (nomatch hframe), fun _ _ _ hjob => absurd hjob List.not_mem_nil,
        fun _ hjob => absurd hjob List.not_mem_nil⟩) hrun'
  obtain ⟨later, hwire, hall⟩ := hsent.wire
  have hshows := hrelated.shared.wire
  rw [hwire] at hshows
  have hbefore : out.shared.wire.take (known sys.shared).wire.length = sys.shared.wire :=
    wire_known (List.forall₂_take_append _ _ _ hshows)
  have hsplit := List.take_append_drop (known sys.shared).wire.length out.shared.wire
  rw [hbefore] at hsplit
  have hlater := List.forall₂_drop_append _ _ _ hshows
  refine ⟨_, hsplit.symm, fun frame hframe => ?_⟩
  obtain ⟨i, hi⟩ := List.mem_iff_getElem?.mp hframe
  obtain ⟨expected, hexpected, hshows⟩ := forall₂_getElem? hlater hi
  obtain ⟨q, hq, htransmits, hshown⟩ := hall expected (List.mem_of_getElem? hexpected)
  exact hP q hq htransmits frame (shows_sent hshows hshown)

/-- In every interleaving of ioctls none of which fails or writes to the region, every frame
sent is one that a packet asked for, and it shows the region where the packet's read meets it. -/
theorem stored_bytes_sent (k : Kernel) (ns : NvmeNs)
    (other : NvmeRwCommand → (Nat → Byte) → Nat → Byte) (hh : k.host = .little)
    (sys out : System (World Byte) (InFlight Byte)) (hidle : Idle sys)
    (labels : List (Label (Ioctl Byte) (Outcome Byte)))
    (hsane : ∀ q ∈ spawned labels, Transmits q → Sane k q)
    (hdone : ∀ e ∈ inputs labels, e = Outcome.done) (r : Region Byte)
    (hstored : Region.Stored r sys.shared.disk)
    (havoids : ∀ q ∈ spawned labels, q.cmd.val = NVPKT_IOCTL_SUBMIT_IO → Avoids ns r q.io)
    (hrun : (driver k ns other).run sys labels = some out) :
    ∃ sent, out.shared.wire = sys.shared.wire ++ sent ∧
      ∀ frame ∈ sent, ∃ q ∈ spawned labels, Transmits q ∧ SentFrom k ns r q.npr frame :=
  frames_sent hh hidle hsane hdone hstored havoids
    (fun q hq htransmits _ hfrom => ⟨q, hq, htransmits, hfrom⟩) hrun

/-- Blocks 1 and 2. -/
def packetRegion : Region Nat := { base := 512, size := 1024, bytes := fun i => (512 + i) % 256 }

theorem stored_bytes_sent_two : ∃ out sent,
    (driver x86_64 ⟨1, 9⟩ fun _ disk => disk).run freshSystem twoPackets = some out ∧
      out.shared.wire = freshSystem.shared.wire ++ sent ∧ sent.length = 2 ∧
      ∀ frame ∈ sent, ∃ q ∈ spawned twoPackets, Transmits q ∧
        SentFrom x86_64 ⟨1, 9⟩ packetRegion q.npr frame := by
  obtain ⟨sent, hwire, hframes⟩ := stored_bytes_sent x86_64 ⟨1, 9⟩ (fun _ disk => disk) rfl
    freshSystem _ freshSystem_idle twoPackets twoPackets_sane (by simp [twoPackets, inputs])
    packetRegion
    (by
      intro a ha
      have hlow : 512 ≤ a := ha.1
      change a % 256 = (512 + (a - 512)) % 256
      rw [Nat.add_sub_cancel' hlow])
    (by
      intro q hq hcmd
      have hboth : spawned twoPackets = [txpkt1024, txpkt1024] := rfl
      rw [hboth] at hq
      obtain rfl : q = txpkt1024 := by simpa using hq
      exact absurd hcmd (by decide))
    rfl
  refine ⟨_, sent, rfl, hwire, ?_, hframes⟩
  have hlen := congrArg List.length hwire
  exact hlen.symm

end Nvpkt.Guarantees.StoredPackets
