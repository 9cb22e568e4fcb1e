import Nvpkt.Source.LoadAndXmit

/-!
# What `load-and-xmit` queues

`Live` is the state between two passes: the passes done have each read their block
and queued it, every packet filled the slot at `cur` while the user owned it, and
the ring is in step, as many slots on as there are packets. A pass keeps it or stops for
one of three reasons (`xmitBlock_cases`), and so do the two loops (`xmitLoop_ends`). The
packets of a run are therefore the first passes of the two loops in their order, in slots
one behind the other, cut off at the first failure (`load_disciplined`).
-/

set_option autoImplicit false

namespace Nvpkt.Guarantees.LoadRing
open Nvpkt.Library.CyclicWindow
open Nvpkt.Source.Netmap
open Nvpkt.Source.LoadAndXmit

/-- The round and the block of a pass. -/
abbrev Pass := Nat × Nat

/-- The passes of the two loops, in their order. -/
def passes (args : Args) : List Pass :=
  (List.range args.count.toNat).flatMap fun i => (List.range args.nblocks.toNat).map (i, ·)

/-- Blocks `slba` to `slba + nblocks - 1`, once for each round. -/
def blocks (args : Args) : List Nat :=
  (List.range args.count.toNat).flatMap fun _ =>
    (List.range args.nblocks.toNat).map (blockAt args)

/-- A slot for a packet of 1024 bytes: they are those of the buffer, or `build_pkt` has put
them into the slot's own. -/
def packetSlot (args : Args) (slot : Slot) : Slot :=
  { len := 1024
    flags := if args.useBuildPkt then slot.flags else args.nsIndirect
    ptr := if args.useBuildPkt then slot.ptr else args.buf }

/-- The packet went into the slot at `cur` and nowhere else, the user owned that slot,
and `head` and `cur` moved together to the next one, inside the window or to its end. -/
structure Queued.Safe (args : Args) (q : Queued) : Prop where
  cur_owned : q.before.Owned q.before.cur
  filled : q.after.slot q.before.cur = packetSlot args (q.before.slot q.before.cur)
  other_slots : ∀ j, j ≠ q.before.cur → q.after.slot j = q.before.slot j
  tail_eq : q.after.tail = q.before.tail
  head_eq : q.after.head = nmRingNext q.before q.before.cur
  head_cur : q.after.cur = q.after.head
  head_in_window : q.before.Owned q.after.head ∨ q.after.head = q.before.tail

/-- The packet was queued in a ring in step that had a slot. -/
structure Queued.Made (args : Args) (q : Queued) : Prop where
  ring : q.before.Synced
  room : nmRingEmpty q.before = false
  after_eq : q.after = queuePacket args q.before

/-- Read and sync of the pass went through. -/
def PassOk (answers : Nat → Nat → Answer) (p : Pass) : Prop :=
  0 ≤ (answers p.1 p.2).read ∧ 0 ≤ (answers p.1 p.2).sync

/-- The positions of the first `k` packets, from `head` on around the ring. -/
def positions (r : NetmapRing Slot) (k : Nat) : List Nat :=
  (List.range k).map fun j => (r.head + j) % r.numSlots

/-- The state after `done` passes over the ring `r` without a failure. -/
structure Live (args : Args) (answers : Nat → Nat → Answer) (r : NetmapRing Slot)
    (done : List Pass) (s : State) : Prop where
  reads : s.reads = done.map fun p => blockAt args p.2
  queued : s.queued.map (·.block) = s.reads
  made : ∀ q ∈ s.queued, Queued.Made args q
  slots : s.queued.map (·.before.cur) = positions r done.length
  synced : s.synced.length = done.length
  pass_ok : ∀ p ∈ done, PassOk answers p
  ring : s.ring.Synced
  ring_slots : s.ring.numSlots = r.numSlots
  ring_head : s.ring.head = (r.head + done.length) % r.numSlots

/-- How a pass stops the loops in the state `s`. -/
inductive Fails (args : Args) (answer : Answer) (n : Nat) (s : State) : State × Stop → Prop
  | readFailed (hread : answer.read < 0) :
      Fails args answer n s ({ s with ret := answer.read }, .readFailed)
  | ringFull (hread : 0 ≤ answer.read) (hfull : nmRingEmpty s.ring = true) :
      Fails args answer n s
        ({ s with ret := answer.read, reads := s.reads ++ [blockAt args n] }, .ringFull)
  | syncFailed (hread : 0 ≤ answer.read) (hroom : nmRingEmpty s.ring = false)
      (hsync : answer.sync < 0) :
      Fails args answer n s
        ({ s with
            ring := queuePacket args s.ring
            ret := answer.sync
            reads := s.reads ++ [blockAt args n]
            queued := s.queued ++ [⟨blockAt args n, s.ring, queuePacket args s.ring⟩] },
          .syncFailed)

/-- The passes all went through, or one of them stopped the loops. -/
inductive Ends (args : Args) (answers : Nat → Nat → Answer) (r : NetmapRing Slot)
    (all : List Pass) : State × Stop → Prop
  | finished {s : State} (h : Live args answers r all s) : Ends args answers r all (s, .finished)
  | stopped {done later : List Pass} {p : Pass} {s : State} {result : State × Stop}
      (hall : all = done ++ p :: later) (h : Live args answers r done s)
      (hfails : Fails args (answers p.1 p.2) p.2 s result) : Ends args answers r all result

variable {args : Args} {answers : Nat → Nat → Answer} {done all : List Pass} {s : State}
  {result : State × Stop} {r ring : NetmapRing Slot}

/-- One packet for each pass. -/
theorem Live.length_queued (h : Live args answers r done s) : s.queued.length = done.length := by
  have hlen := congrArg List.length (h.queued.trans h.reads)
  rwa [List.length_map, List.length_map] at hlen

theorem Fails.not_finished {answer : Answer} {n : Nat} (h : Fails args answer n s result) :
    result.2 ≠ .finished := by
  cases h <;> exact fun h => nomatch h

/-! ## One pass -/

theorem queuePacket_synced (h : ring.Synced) : (queuePacket args ring).Synced := by
  have hnext := h.setHead_next
  rw [← h.cur_eq] at hnext
  exact ⟨hnext.head_lt, hnext.tail_lt, hnext.cur_eq⟩

theorem queuePacket_head (args : Args) (h : ring.Synced) :
    (queuePacket args ring).head = advance ring.numSlots ring.head 1 := by
  have hcur : (queuePacket args ring).head = next ring.numSlots ring.cur := rfl
  rw [hcur, h.cur_eq, ← advance_next (Nat.lt_of_le_of_lt (Nat.zero_le _) h.head_lt),
    advance_zero (next_lt h.head_lt)]

theorem queuePacket_slot (args : Args) (ring : NetmapRing Slot) :
    (queuePacket args ring).slot ring.cur = packetSlot args (ring.slot ring.cur) := by
  refine (if_pos rfl).trans ?_
  unfold packetSlot
  cases args.useBuildPkt <;> rfl

theorem Queued.Made.safe {q : Queued} (h : Queued.Made args q) : Queued.Safe args q := by
  have hw : 0 < q.before.window := by
    have hne := mt h.ring.empty_iff.mpr (by simp [h.room])
    omega
  have hhead := queuePacket_head args h.ring
  rw [← h.after_eq] at hhead
  constructor
  · exact h.ring.owned_cur.mpr hw
  · rw [h.after_eq]
    exact queuePacket_slot args q.before
  · intro j hj
    rw [h.after_eq]
    exact if_neg hj
  · rw [h.after_eq]
    rfl
  · rw [h.after_eq]
    rfl
  · rw [h.after_eq]
    rfl
  · rw [hhead]
    exact h.ring.owned_or_tail hw

theorem positions_succ (r : NetmapRing Slot) (k : Nat) :
    positions r (k + 1) = positions r k ++ [(r.head + k) % r.numSlots] := by
  rw [positions, List.range_succ, List.map_append, List.map_singleton, ← positions]

/-- The next packet goes into the next slot. -/
theorem Live.slots_queued (h : Live args answers r done s) (p : Pass) :
    (s.queued ++ [(⟨blockAt args p.2, s.ring, queuePacket args s.ring⟩ : Queued)]).map
        (·.before.cur) =
      positions r (done ++ [p]).length := by
  rw [List.map_append, h.slots, List.length_append, List.length_singleton, positions_succ,
    ← h.ring_head, ← h.ring.cur_eq]
  rfl

theorem Live.head_queued (h : Live args answers r done s) :
    (queuePacket args s.ring).head = (r.head + done.length + 1) % r.numSlots := by
  have hcur : (queuePacket args s.ring).head = next s.ring.numSlots s.ring.cur := rfl
  rw [hcur, h.ring.cur_eq, next_eq_mod h.ring.head_lt, h.ring_slots, h.ring_head, Nat.mod_add_mod]

/-- A pass goes through or stops the loops. -/
theorem xmitBlock_cases (h : Live args answers r done s) (p : Pass) :
    (∃ s', xmitBlock args (answers p.1 p.2) p.2 s = (s', .finished) ∧
      Live args answers r (done ++ [p]) s') ∨
    Fails args (answers p.1 p.2) p.2 s (xmitBlock args (answers p.1 p.2) p.2 s) := by
  unfold xmitBlock
  dsimp only
  split
  case isTrue hread => exact Or.inr (.readFailed hread)
  case isFalse hread =>
    have hread : 0 ≤ (answers p.1 p.2).read := Int.not_lt.mp hread
    split
    case isTrue hfull => exact Or.inr (.ringFull hread hfull)
    case isFalse hroom =>
      have hroom : nmRingEmpty s.ring = false := Bool.not_eq_true _ ▸ hroom
      split
      case isTrue hsync => exact Or.inr (.syncFailed hread hroom hsync)
      case isFalse hsync =>
        refine Or.inl ⟨_, rfl, ?_⟩
        constructor
        · simp [h.reads]
        · simp [h.queued]
        · intro q hq
          obtain hq | hq := List.mem_append.mp hq
          · exact h.made q hq
          · obtain rfl := List.mem_singleton.mp hq
            exact ⟨h.ring, hroom, rfl⟩
        · exact h.slots_queued p
        · simp [h.synced]
        · exact List.forall_mem_append.mpr ⟨h.pass_ok,
            List.forall_mem_singleton.mpr ⟨hread, Int.not_lt.mp hsync⟩⟩
        · exact (queuePacket_synced h.ring).release _
        · exact h.ring_slots
        · rw [List.length_append, List.length_singleton, ← Nat.add_assoc]
          exact h.head_queued

/-! ## The two loops -/

theorem blockLoop_ends (i : Nat) (ns : List Nat) (h : Live args answers r done s) :
    Ends args answers r (done ++ ns.map (i, ·)) (blockLoop args (answers i) ns s) := by
  induction ns generalizing done s with
  | nil =>
    rw [List.map_nil, List.append_nil]
    exact .finished h
  | cons n ns ih =>
    unfold blockLoop
    obtain ⟨s', hrun, hlive⟩ | hfails := xmitBlock_cases h (i, n)
    · rw [hrun]
      have hends := ih hlive
      rwa [List.append_assoc] at hends
    · split
      case h_1 s' hrun =>
        rw [hrun] at hfails
        exact absurd rfl hfails.not_finished
      case h_2 => exact .stopped rfl h hfails

theorem countLoop_ends (is : List Nat) (h : Live args answers r done s) :
    Ends args answers r
      (done ++ is.flatMap fun i => (List.range args.nblocks.toNat).map (i, ·))
      (countLoop args answers is s) := by
  induction is generalizing done s with
  | nil =>
    rw [List.flatMap_nil, List.append_nil]
    exact .finished h
  | cons i is ih =>
    have hends := blockLoop_ends i (List.range args.nblocks.toNat) h
    unfold countLoop
    rw [List.flatMap_cons, ← List.append_assoc]
    generalize blockLoop args (answers i) (List.range args.nblocks.toNat) s = inner at hends
    cases hends with
    | finished hlive => exact ih hlive
    | stopped hall hlive hfails =>
      split
      · exact absurd rfl hfails.not_finished
      · rw [hall, List.append_assoc, List.cons_append]
        exact .stopped rfl hlive hfails

theorem xmitLoop_ends (args : Args) (answers : Nat → Nat → Answer) (h : r.Synced) :
    Ends args answers r (passes args) (xmitLoop args answers r) := by
  have hstart : Live args answers r [] ⟨r, 0, [], [], []⟩ := by
    constructor
    · rfl
    · rfl
    · exact fun q hq => absurd hq List.not_mem_nil
    · rfl
    · rfl
    · exact fun p hp => absurd hp List.not_mem_nil
    · exact h
    · rfl
    · exact (Nat.mod_eq_of_lt h.head_lt).symm
  exact countLoop_ends (List.range args.count.toNat) hstart

/-! ## The packets of a run -/

/-- Packets for the passes `done` and none for the passes `later`: nothing failed
before the end of `done`, and what ended the run there. -/
inductive CutOff (answers : Nat → Nat → Answer) : List Pass → List Pass → State × Stop → Prop
  | finished {done : List Pass} {s : State} (hok : ∀ p ∈ done, PassOk answers p) :
      CutOff answers done [] (s, .finished)
  | readFailed {done later : List Pass} {p : Pass} {s : State}
      (hok : ∀ p ∈ done, PassOk answers p) (hread : (answers p.1 p.2).read < 0) :
      CutOff answers done (p :: later) (s, .readFailed)
  | ringFull {done later : List Pass} {p : Pass} {s : State}
      (hok : ∀ p ∈ done, PassOk answers p) (hread : 0 ≤ (answers p.1 p.2).read)
      (hfull : nmRingEmpty s.ring = true) : CutOff answers done (p :: later) (s, .ringFull)
  | syncFailed {done later : List Pass} {p : Pass} {s : State}
      (hok : ∀ p ∈ done, PassOk answers p) (hread : 0 ≤ (answers p.1 p.2).read)
      (hsync : (answers p.1 p.2).sync < 0) : CutOff answers (done ++ [p]) later (s, .syncFailed)

/-- Every packet is queued safely, in the slot behind that of the packet before, once its
block has been read, and the blocks are the first of those asked for. -/
structure Disciplined (args : Args) (answers : Nat → Nat → Answer) (r : NetmapRing Slot)
    (result : State × Stop) : Prop where
  safe : ∀ q ∈ result.1.queued, Queued.Safe args q
  slots : result.1.queued.map (·.before.cur) = positions r result.1.queued.length
  reads : result.1.queued.map (·.block) = result.1.reads.take result.1.queued.length
  in_order : result.1.queued.map (·.block) = (blocks args).take result.1.queued.length
  cut : ∃ done later, passes args = done ++ later ∧ result.1.queued.length = done.length ∧
    CutOff answers done later result

theorem blocks_eq (args : Args) : blocks args = (passes args).map fun p => blockAt args p.2 := by
  simp only [blocks, passes, List.map_flatMap, List.map_map]
  rfl

/-- A run with packets for the passes of a prefix, cut off behind them. -/
theorem disciplined_of {later : List Pass} (hall : passes args = done ++ later)
    (hqueued : result.1.queued.map (·.block) = done.map fun p => blockAt args p.2)
    (hreads : (done.map fun p => blockAt args p.2) <+: result.1.reads)
    (hslots : result.1.queued.map (·.before.cur) = positions r done.length)
    (hmade : ∀ q ∈ result.1.queued, Queued.Made args q)
    (hcut : CutOff answers done later result) : Disciplined args answers r result := by
  have hlen : result.1.queued.length = done.length := by
    simpa using congrArg List.length hqueued
  refine ⟨fun q hq => (hmade q hq).safe, hlen.symm ▸ hslots, ?_, ?_, done, later, hall, hlen, hcut⟩
  · rw [hqueued, hlen]
    simpa using List.prefix_iff_eq_take.mp hreads
  · rw [blocks_eq, hall, hlen, hqueued, List.map_append, List.take_left' (List.length_map _)]

/-- Every run fills only slots of the user, one behind the other and each with its packet,
keeps `head` and `cur` together in the window, and queues the blocks in their order up to
the first failure. -/
theorem load_disciplined (args : Args) (answers : Nat → Nat → Answer) (h : r.Synced) :
    Disciplined args answers r (xmitLoop args answers r) := by
  have hends := xmitLoop_ends args answers h
  generalize xmitLoop args answers r = result at hends
  cases hends with
  | finished hlive =>
    exact disciplined_of (List.append_nil _).symm (hlive.queued.trans hlive.reads)
      (hlive.reads ▸ List.prefix_rfl) hlive.slots hlive.made (.finished hlive.pass_ok)
  | @stopped done later p s _ hall hlive hfails =>
    have hqueued := hlive.queued.trans hlive.reads
    have hreads : (done.map fun p => blockAt args p.2) <+: s.reads ++ [blockAt args p.2] :=
      hlive.reads ▸ List.prefix_append _ _
    cases hfails with
    | readFailed hread =>
      exact disciplined_of hall hqueued (hlive.reads ▸ List.prefix_rfl) hlive.slots
        hlive.made (.readFailed hlive.pass_ok hread)
    | ringFull hread hfull =>
      exact disciplined_of hall hqueued hreads hlive.slots hlive.made
        (.ringFull hlive.pass_ok hread hfull)
    | syncFailed hread hroom hsync =>
      -- the packet was queued before its sync failed
      rw [← List.singleton_append, ← List.append_assoc] at hall
      refine disciplined_of hall ?_ ?_ (hlive.slots_queued p) ?_
        (.syncFailed hlive.pass_ok hread hsync)
      · simp [hqueued]
      · simp [hlive.reads]
      · exact List.forall_mem_append.mpr ⟨hlive.made,
          List.forall_mem_singleton.mpr ⟨hlive.ring, hroom, rfl⟩⟩

/-- A ring of four slots of which the user owns those from 1 up to 3. -/
def twoFree : NetmapRing Slot :=
  { numSlots := 4, head := 1, cur := 1, tail := 3, slot := fun _ => ⟨0, 0, 0⟩ }

/-- Two rounds of two blocks. -/
def fourPackets : Args :=
  { count := 2, nblocks := 2, slba := 10, useBuildPkt := false, buf := 0x1000, nsIndirect := 2,
    nblocks_lt := by decide }

/-- The kernel returns one slot in the first pass and none afterwards: the ring is full
in the fourth. -/
def slowKernel (i n : Nat) : Answer :=
  { read := 0, sync := 0, released := if i = 0 ∧ n = 0 then 1 else 0 }

theorem load_disciplined_slow :
    (xmitLoop fourPackets slowKernel twoFree).1.queued.map (·.block) = [10, 11, 10] ∧
      Disciplined fourPackets slowKernel twoFree (xmitLoop fourPackets slowKernel twoFree) :=
  ⟨by decide, load_disciplined fourPackets slowKernel ⟨by decide, by decide, rfl⟩⟩

end Nvpkt.Guarantees.LoadRing
