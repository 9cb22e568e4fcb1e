import Nvpkt.Guarantees.LoadContent
import Nvpkt.Guarantees.XmitCount

/-!
# The exit status of the two senders

`ret` holds the result of the last library call when `main` returns it. A full ring
leaves the loops without an assignment: `load-and-xmit` then returns what the read
before it returned, and `xmit-from-pram` what the last sync returned, or nothing that
was ever assigned. The latter also happens when there is nothing to send. These are
the only ways to tell an untruth (`sender_status_iff`).
-/

set_option autoImplicit false

namespace Nvpkt.Guarantees.SenderStatus
open Nvpkt.Source Nvpkt.Guarantees
open Nvpkt.Source.Netmap

/-! ## load-and-xmit -/

section Load
open Nvpkt.Source.LoadAndXmit
open Nvpkt.Guarantees.LoadRing Nvpkt.Guarantees.LoadContent
variable {args : Args} {setup : Setup} {answers : Nat → Nat → Answer} {txring : NetmapRing Slot}

/-- 0 is returned only after all packets were queued and every sync succeeded. -/
def LoadTruthful (args : Args) (result : Int × Option (State × Stop)) : Prop :=
  result.1 = 0 → ∃ run, result.2 = some run ∧
    run.1.queued.length = args.count.toNat * args.nblocks.toNat ∧
    run.1.synced.length = run.1.queued.length

theorem loadTruthful_some {ret : Int} {run : State × Stop} :
    LoadTruthful args (ret, some run) ↔
      (ret = 0 → run.1.queued.length = args.count.toNat * args.nblocks.toNat ∧
        run.1.synced.length = run.1.queued.length) := by
  simp [LoadTruthful]

/-- Everything in front of the loops succeeds. -/
structure LoadReady (args : Args) (setup : Setup) : Prop where
  options : setup.options = true
  nblocks : 0 ≤ args.nblocks
  nmOpen : setup.nmOpen = true
  unvmeOpen : setup.unvmeOpen = true
  unvmeAlloc : setup.unvmeAlloc = true

theorem passes_length (args : Args) :
    (passes args).length = args.count.toNat * args.nblocks.toNat := by
  have hlen := congrArg List.length (blocks_eq args)
  rw [blocks_eq_range, List.length_map, List.length_map, List.length_range] at hlen
  exact hlen.symm

theorem loadMain_ready (h : LoadReady args setup) :
    LoadAndXmit.main args setup answers txring =
      ((xmitLoop args answers txring).1.ret, some (xmitLoop args answers txring)) := by
  simp [LoadAndXmit.main, h.options, h.nmOpen, h.unvmeOpen, h.unvmeAlloc, Int.not_lt.mpr h.nblocks]

theorem loadMain_not_ready (h : ¬ LoadReady args setup) :
    LoadAndXmit.main args setup answers txring = (-1, none) := by
  unfold LoadAndXmit.main
  split
  · rfl
  case isFalse hoptions =>
    simp only [Bool.or_eq_true, Bool.not_eq_true', decide_eq_true_eq, not_or, Bool.not_eq_false,
      Int.not_lt] at hoptions
    split
    · rfl
    case isFalse hnm =>
      split
      · rfl
      case isFalse hopen =>
        split
        · rfl
        case isFalse halloc =>
          exact absurd ⟨hoptions.1, hoptions.2, by simpa using hnm, by simpa using hopen,
            by simpa using halloc⟩ h

/-- The pass that finds the ring full comes after all packets queued, and its read is
what `ret` holds. -/
theorem xmitLoop_status (h : txring.Synced) :
    LoadTruthful args ((xmitLoop args answers txring).1.ret, some (xmitLoop args answers txring)) ↔
      ((xmitLoop args answers txring).2 = .ringFull →
        ∀ p, (passes args)[(xmitLoop args answers txring).1.queued.length]? = some p →
          (answers p.1 p.2).read ≠ 0) := by
  have hends := xmitLoop_ends args answers h
  have hlen := passes_length args
  rw [loadTruthful_some]
  generalize xmitLoop args answers txring = result at hends ⊢
  cases hends with
  | @finished s hlive =>
    have hqueued := hlive.length_queued
    exact iff_of_true (fun _ => ⟨hqueued.trans hlen, hlive.synced.trans hqueued.symm⟩)
      (fun hstop => nomatch hstop)
  | @stopped done later p s _ hall hlive hfails =>
    have hqueued := hlive.length_queued
    cases hfails with
    | readFailed hread =>
      refine iff_of_true (fun hret => ?_) (fun hstop => nomatch hstop)
      exact absurd hret (Int.ne_of_lt hread)
    | syncFailed _ _ hsync =>
      refine iff_of_true (fun hret => ?_) (fun hstop => nomatch hstop)
      exact absurd hret (Int.ne_of_lt hsync)
    | ringFull hread hfull =>
      have hp : (passes args)[s.queued.length]? = some p := by
        rw [hall, hqueued, List.getElem?_append_right (Nat.le_refl _), Nat.sub_self]
        rfl
      constructor
      · intro htruth _ p' hp' hzero
        obtain rfl : p = p' := Option.some.inj (hp.symm.trans hp')
        have hsent := (htruth hzero).1
        rw [hall, List.length_append, List.length_cons] at hlen
        dsimp only at hsent
        omega
      · intro hnot hret
        exact absurd hret (hnot rfl p hp)

end Load

/-! ## xmit-from-pram -/

section Pram
open Nvpkt.Source.XmitFromPram
open Nvpkt.Guarantees.XmitCount
variable {args : Args} {setup : Setup} {txring : NetmapRing Slot}

/-- Where `main` returns, it returns a value that was assigned, and 0 only after at
least `count` packets were queued and every sync succeeded. -/
def PramTruthful (args : Args) (result : Option Int × Option Run) : Prop :=
  (∀ run, result.2 = some run → run.stop ≠ .stillRunning) →
    result.1 ≠ none ∧ (result.1 = some 0 → ∃ run, result.2 = some run ∧
      args.count ≤ queuedCount run.rounds ∧ run.stop ≠ .syncFailed)

theorem pramTruthful_some {ret : Option Int} {run : Run} :
    PramTruthful args (ret, some run) ↔
      (run.stop ≠ .stillRunning → ret ≠ none ∧
        (ret = some 0 → args.count ≤ queuedCount run.rounds ∧ run.stop ≠ .syncFailed)) := by
  simp [PramTruthful]

structure PramReady (setup : Setup) : Prop where
  options : setup.options = true
  nmOpen : setup.nmOpen = true
  openPram : setup.openPram = true
  mmap : setup.mmap = true

theorem pramMain_ready (h : PramReady setup) (answers : List SyncAnswer) :
    XmitFromPram.main args setup answers txring =
      ((mainLoop args answers 0 none txring).2, some (mainLoop args answers 0 none txring).1) := by
  simp [XmitFromPram.main, h.options, h.nmOpen, h.openPram, h.mmap]

theorem pramMain_not_ready (h : ¬ PramReady setup) (answers : List SyncAnswer) :
    XmitFromPram.main args setup answers txring = (some (-1), none) := by
  unfold XmitFromPram.main
  split
  · rfl
  case isFalse hoptions =>
    split
    · rfl
    case isFalse hnm =>
      split
      · rfl
      case isFalse hopen =>
        split
        · rfl
        case isFalse hmmap =>
          exact absurd ⟨by simpa using hoptions, by simpa using hnm, by simpa using hopen,
            by simpa using hmmap⟩ h

/-- The loop with `ret` makes the rounds of the loop without it. -/
theorem mainLoop_run (answers : List SyncAnswer) (n : Int) (ret : Option Int)
    (txring : NetmapRing Slot) :
    (mainLoop args answers n ret txring).1 =
      sendLoop args (answers.map SyncAnswer.sync) n txring := by
  fun_induction mainLoop args answers n ret txring with
  | case1 answers n ret txring hn hempty => rw [sendLoop, if_pos hn, if_pos hempty]
  | case2 n ret txring hn hempty =>
    rw [List.map_nil, sendLoop, if_pos hn, if_neg hempty]
  | case3 n ret txring hn hempty round a later hret =>
    rw [List.map_cons, SyncAnswer.sync, if_pos hret, sendLoop, if_pos hn, if_neg hempty]
  | case4 n ret txring hn hempty round a later hret rest ih =>
    rw [List.map_cons, SyncAnswer.sync, if_neg hret, sendLoop, if_pos hn, if_neg hempty]
    simp only [round, rest, ih]
  | case5 answers n ret txring hn => rw [sendLoop, if_neg hn]

/-- The last sync of a run. -/
def lastSync (answers : List SyncAnswer) (run : Run) : Option SyncAnswer :=
  (answers.take run.rounds.length).getLast?

/-- `ret` is what the last sync returned, and keeps its value where there was none. -/
theorem mainLoop_ret (args : Args) (answers : List SyncAnswer) (n : Int) (ret : Option Int)
    (txring : NetmapRing Slot) :
    (mainLoop args answers n ret txring).2 =
      ((lastSync answers (mainLoop args answers n ret txring).1).map SyncAnswer.ret).or ret := by
  fun_induction mainLoop args answers n ret txring with
  | case1 | case2 | case3 | case5 => simp [lastSync]
  | case4 n ret txring hn hempty round a later hret rest ih =>
    rw [show rest.2 = _ from ih]
    simp only [lastSync, List.length_cons, List.take_succ_cons, List.getLast?_cons]
    cases (later.take _).getLast? <;> rfl

/-- What is known of `ret` and of the first round where the loop stops. -/
theorem mainLoop_stop (args : Args) (answers : List SyncAnswer) (n : Int) (ret : Option Int)
    (txring : NetmapRing Slot) :
    ((mainLoop args answers n ret txring).1.stop = .syncFailed →
        ∃ v, (mainLoop args answers n ret txring).2 = some v ∧ v < 0) ∧
      ((mainLoop args answers n ret txring).1.rounds ≠ [] → n < args.count ∧
        (mainLoop args answers n ret txring).2 ≠ none) := by
  fun_induction mainLoop args answers n ret txring with
  | case1 | case2 | case5 => simp
  | case3 n ret txring hn hempty round a later hret => simp [hret, hn]
  | case4 n ret txring hn hempty round a later hret rest ih =>
    refine ⟨ih.1, fun _ => ⟨hn, ?_⟩⟩
    rw [show rest.2 = _ from mainLoop_ret args later _ (some a.ret) _]
    cases (lastSync later _) <;> simp

/-- With a count to reach, only a full ring is reported wrongly: at first nothing was
assigned, and later the value of the last sync is returned. -/
theorem mainLoop_status (answers : List SyncAnswer) (txring : NetmapRing Slot) :
    PramTruthful args
        ((mainLoop args answers 0 none txring).2, some (mainLoop args answers 0 none txring).1) ↔
      ((mainLoop args answers 0 none txring).1.stop ≠ .stillRunning → 0 < args.count ∧
        ((mainLoop args answers 0 none txring).1.stop = .noEmptySlot →
          ∃ a, lastSync answers (mainLoop args answers 0 none txring).1 = some a ∧
            a.ret ≠ 0)) := by
  have hret := mainLoop_ret args answers 0 none txring
  have hstop := mainLoop_stop args answers 0 none txring
  have hcount := sendLoop_count args (answers.map SyncAnswer.sync) 0 txring
  rw [← mainLoop_run answers 0 none] at hcount
  rw [pramTruthful_some]
  generalize mainLoop args answers 0 none txring = result at hret hstop hcount ⊢
  obtain ⟨⟨rounds, stop⟩, ret⟩ := result
  dsimp only at hret hstop hcount ⊢
  rw [Option.or_none] at hret
  have hrounds : ret ≠ none → 0 < args.count := by
    intro hne
    refine (hstop.2 fun hnil => hne ?_).1
    rw [hret, hnil]
    rfl
  refine forall_congr' fun hreturns => ?_
  cases stop with
  | stillRunning => exact absurd rfl hreturns
  | syncFailed =>
    obtain ⟨v, hv, hneg⟩ := hstop.1 rfl
    have hne : ret ≠ none := by simp [hv]
    refine iff_of_true ⟨hne, fun hzero => ?_⟩ ⟨hrounds hne, fun hfull => Stop.noConfusion hfull⟩
    obtain rfl : v = 0 := Option.some.inj (hv.symm.trans hzero)
    exact absurd hneg (Int.lt_irrefl 0)
  | counted =>
    have htotal := hcount.1 rfl
    constructor
    · intro htruth
      exact ⟨hrounds htruth.1, fun hfull => Stop.noConfusion hfull⟩
    · intro hcond
      refine ⟨(hstop.2 fun hnil => ?_).2, fun _ => ⟨by omega, fun h => Stop.noConfusion h⟩⟩
      have hpos := hcond.1
      rw [hnil] at htotal
      simp only [queuedCount] at htotal
      omega
  | noEmptySlot =>
    have htotal := hcount.2 rfl
    constructor
    · intro htruth
      refine ⟨hrounds htruth.1, fun _ => ?_⟩
      cases hlast : lastSync answers ⟨rounds, .noEmptySlot⟩ with
      | none =>
        rw [hlast] at hret
        exact absurd hret htruth.1
      | some a =>
        refine ⟨a, rfl, fun ha => ?_⟩
        have hall := (htruth.2 (by rw [hret, hlast, Option.map_some, ha])).1
        omega
    · intro hcond
      obtain ⟨a, hlast, ha⟩ := hcond.2 rfl
      rw [hlast, Option.map_some] at hret
      refine ⟨by simp [hret], fun hzero => ?_⟩
      exact absurd (Option.some.inj (hret.symm.trans hzero)) ha

end Pram

/-- The status of `load-and-xmit` is truthful unless it stops at a full ring just after
a read that returned 0; that of `xmit-from-pram` is unless its count is not positive, or
it stops at a full ring before any sync or after one that returned 0. -/
theorem sender_status_iff (largs : LoadAndXmit.Args) (lsetup : LoadAndXmit.Setup)
    (lanswers : Nat → Nat → LoadAndXmit.Answer) (pargs : XmitFromPram.Args)
    (psetup : XmitFromPram.Setup) (panswers : List XmitFromPram.SyncAnswer)
    (lring pring : NetmapRing Slot) (h : lring.Synced) :
    (LoadTruthful largs (LoadAndXmit.main largs lsetup lanswers lring) ↔
      (LoadReady largs lsetup → (LoadAndXmit.xmitLoop largs lanswers lring).2 = .ringFull →
        ∀ p, (LoadRing.passes largs)[
            (LoadAndXmit.xmitLoop largs lanswers lring).1.queued.length]? = some p →
          (lanswers p.1 p.2).read ≠ 0)) ∧
    (PramTruthful pargs (XmitFromPram.main pargs psetup panswers pring) ↔
      (PramReady psetup →
        (XmitFromPram.mainLoop pargs panswers 0 none pring).1.stop ≠ .stillRunning →
        0 < pargs.count ∧
          ((XmitFromPram.mainLoop pargs panswers 0 none pring).1.stop = .noEmptySlot →
            ∃ a, lastSync panswers (XmitFromPram.mainLoop pargs panswers 0 none pring).1 =
              some a ∧ a.ret ≠ 0))) := by
  constructor
  · by_cases hready : LoadReady largs lsetup
    · rw [loadMain_ready hready, xmitLoop_status h]
      exact ⟨fun hcond _ => hcond, fun hcond => hcond hready⟩
    · rw [loadMain_not_ready hready]
      exact iff_of_true (fun hzero => absurd hzero (by decide)) (fun h => absurd h hready)
  · by_cases hready : PramReady psetup
    · rw [pramMain_ready hready, mainLoop_status]
      exact ⟨fun hcond _ => hcond, fun hcond => hcond hready⟩
    · rw [pramMain_not_ready hready]
      refine iff_of_true (fun _ => ⟨by simp, fun hzero => ?_⟩) (fun h => absurd h hready)
      exact absurd hzero (by decide)

section Examples
open LoadRing XmitCount

def loadSetup : LoadAndXmit.Setup :=
  { options := true, nmOpen := true, unvmeOpen := true, unvmeAlloc := true }

def pramSetup : XmitFromPram.Setup :=
  { options := true, nmOpen := true, openPram := true, mmap := true }

/-- A kernel that keeps up: both programs send everything and return 0. -/
theorem status_prompt :
    LoadTruthful fourPackets
        (LoadAndXmit.main fourPackets loadSetup (fun _ _ => ⟨0, 0, 4⟩) twoFree) ∧
      PramTruthful (sixPackets 3)
        (XmitFromPram.main (sixPackets 3) pramSetup (List.replicate 3 ⟨0, 8⟩) eightSlots) := by
  have hstatus := sender_status_iff fourPackets loadSetup (fun _ _ => ⟨0, 0, 4⟩) (sixPackets 3)
    pramSetup (List.replicate 3 ⟨0, 8⟩) twoFree eightSlots ⟨by decide, by decide, rfl⟩
  exact ⟨hstatus.1.mpr fun _ hfull => absurd hfull (by decide),
    hstatus.2.mpr fun _ _ => ⟨by decide, fun hfull => absurd hfull (by decide)⟩⟩

def nothingToSend : XmitFromPram.Args := { sixPackets 3 with count := 0 }

/-- Three slots are free and none is handed back. -/
def threeFree : NetmapRing Slot := { eightSlots with tail := 3 }

/-- With a slow kernel `load-and-xmit` returns 0 after three packets of four. With
nothing to send `xmit-from-pram` returns a value that was never assigned, and with a
ring that is full after one round of three it returns 0. -/
theorem status_untrue :
    ((LoadAndXmit.main fourPackets loadSetup slowKernel twoFree).1 = 0 ∧
      ¬ LoadTruthful fourPackets (LoadAndXmit.main fourPackets loadSetup slowKernel twoFree)) ∧
    ((XmitFromPram.main nothingToSend pramSetup [⟨0, 8⟩] eightSlots).1 = none ∧
      ¬ PramTruthful nothingToSend
        (XmitFromPram.main nothingToSend pramSetup [⟨0, 8⟩] eightSlots)) ∧
    ((XmitFromPram.main (sixPackets 3) pramSetup [⟨0, 0⟩, ⟨0, 0⟩] threeFree).1 = some 0 ∧
      ¬ PramTruthful (sixPackets 3)
        (XmitFromPram.main (sixPackets 3) pramSetup [⟨0, 0⟩, ⟨0, 0⟩] threeFree)) := by
  refine ⟨⟨by decide, fun h => ?_⟩, ⟨by decide, fun h => ?_⟩, ⟨by decide, fun h => ?_⟩⟩
  · obtain ⟨run, hrun, hall, -⟩ := h (by decide)
    obtain rfl : LoadAndXmit.xmitLoop fourPackets slowKernel twoFree = run := Option.some.inj hrun
    exact absurd hall (by decide)
  · refine (h fun run hrun => ?_).1 (by decide)
    obtain rfl : (XmitFromPram.mainLoop nothingToSend [⟨0, 8⟩] 0 none eightSlots).1 = run :=
      Option.some.inj hrun
    decide
  · have hreturns : ∀ run, (XmitFromPram.main (sixPackets 3) pramSetup [⟨0, 0⟩, ⟨0, 0⟩]
        threeFree).2 = some run → run.stop ≠ .stillRunning ∧ queuedCount run.rounds = 3 := by
      intro run hrun
      obtain rfl : (XmitFromPram.mainLoop (sixPackets 3) [⟨0, 0⟩, ⟨0, 0⟩] 0 none threeFree).1 =
        run := Option.some.inj hrun
      decide
    obtain ⟨run, hrun, hall, -⟩ := (h fun run hrun => (hreturns run hrun).1).2 (by decide)
    rw [(hreturns run hrun).2] at hall
    exact absurd hall (by decide)

end Examples

end Nvpkt.Guarantees.SenderStatus
