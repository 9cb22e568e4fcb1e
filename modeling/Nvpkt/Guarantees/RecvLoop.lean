import Nvpkt.Source.RecvToPram

/-!
# The receive loop loses and repeats nothing

`Accounted` ties a ring to its history: what the kernel published is what the
passes of the inner loop have read, in the same order, followed by the slots
still owned, and every pass read a slot the user owned, so `head` never moves
past `tail`. The kernel's arrivals and a pass keep it (`arrive_accounted`,
`recvSlot_accounted`); a pass shortens the window, so the inner loop stops, with
nothing owned (`recvRing_drains`). What is published are the arrivals of the turns
as far as the ring has slots for them (`arrivals_published`). Over the rings and
the turns this gives `recv_exact`.
-/

set_option autoImplicit false

namespace Nvpkt.Guarantees.RecvLoop
open Nvpkt.Library.CyclicWindow
open Nvpkt.Source.Netmap
open Nvpkt.Source.RecvToPram

variable {σ : Type}

/-- The history of a ring agrees with its window. -/
structure Accounted (x : RxRing σ) : Prop where
  synced : x.ring.Synced
  owned : ∀ ring ∈ x.passes, ring.Owned ring.head
  published_eq : x.published = x.passes.map taken ++ x.ring.pending

/-- `Accounted`, for a ring of at most `fuel` slots. -/
structure Ready (fuel : Nat) (x : RxRing σ) : Prop where
  accounted : Accounted x
  fits : x.ring.numSlots ≤ fuel

/-- The packets that a ring of `n` slots has room for: in the first turn the kernel has
`free` slots for them and after every turn of the receive loop again all but one. -/
def received (n ri : Nat) : Nat → List (Turn σ) → List σ
  | _, [] => []
  | free, turn :: later =>
    (turn.arrivals ri).take free ++ if turn.Served then received n ri (n - 1) later else []

variable {x : RxRing σ} {fuel : Nat}

theorem enter_accounted {ring : NetmapRing σ} (h : ring.Synced) :
    Accounted (RxRing.enter ring) := by
  constructor
  · exact h
  · simp [RxRing.enter]
  · simp [RxRing.enter]

theorem publish_numSlots (ring : NetmapRing σ) (s : σ) :
    (ring.publish s).numSlots = ring.numSlots := by
  unfold NetmapRing.publish
  split <;> rfl

/-- A published slot is accounted as owned, a dropped packet not at all. -/
theorem arrive_accounted (h : Accounted x) (s : σ) : Accounted (x.arrive s) := by
  unfold RxRing.arrive
  split
  · rename_i hfree
    constructor
    · exact h.synced.publish s
    · exact h.owned
    · show x.published ++ [(x.ring.tail, s)] = x.passes.map taken ++ (x.ring.publish s).pending
      rw [h.synced.pending_publish hfree, h.published_eq, List.append_assoc]
  · exact h

theorem arrive_ready (h : Ready fuel x) (s : σ) : Ready fuel (x.arrive s) := by
  apply Ready.mk (arrive_accounted h.accounted s)
  unfold RxRing.arrive
  split
  · exact (publish_numSlots x.ring s).symm ▸ h.fits
  · exact h.fits

theorem arrivals_ready (h : Ready fuel x) (arrivals : List σ) :
    Ready fuel (arrivals.foldl RxRing.arrive x) := by
  induction arrivals generalizing x with
  | nil => exact h
  | cons s rest ih => exact ih (arrive_ready h s)

/-- Of the packets that come those are published that find a slot, in their order. -/
theorem arrivals_published (h : x.ring.Synced) (arrivals : List σ) :
    (arrivals.foldl RxRing.arrive x).published.map Prod.snd =
        x.published.map Prod.snd ++ arrivals.take x.ring.kernelFree ∧
      (arrivals.foldl RxRing.arrive x).ring.kernelFree = x.ring.kernelFree - arrivals.length ∧
      (arrivals.foldl RxRing.arrive x).ring.numSlots = x.ring.numSlots := by
  induction arrivals generalizing x with
  | nil => simp
  | cons s rest ih =>
    rw [List.foldl_cons]
    by_cases hfree : 0 < x.ring.kernelFree
    · have harrive : x.arrive s =
          { x with
            ring := x.ring.publish s
            published := x.published ++ [(x.ring.tail, s)] } := if_pos hfree
      have hset : (x.ring.setSlot x.ring.tail s).Synced := ⟨h.head_lt, h.tail_lt, h.cur_eq⟩
      have hpublish : x.ring.publish s = (x.ring.setSlot x.ring.tail s).release 1 := if_pos hfree
      have hwindow : (x.ring.publish s).window = x.ring.window + 1 := by
        rw [hpublish]
        exact hset.window_release hfree
      have hslots := publish_numSlots x.ring s
      have hless : (x.ring.publish s).kernelFree + 1 = x.ring.kernelFree := by
        unfold NetmapRing.kernelFree at hfree ⊢
        omega
      obtain ⟨hpublished, hleft, hsame⟩ := ih (x := x.arrive s) (harrive ▸ h.publish s)
      rw [hpublished, hleft, hsame, harrive, ← hless]
      refine ⟨?_, by simp only [List.length_cons]; omega, hslots⟩
      simp only [List.map_append, List.map_cons, List.map_nil, List.take_succ_cons,
        List.append_assoc, List.singleton_append]
    · have harrive : x.arrive s = x := if_neg hfree
      obtain ⟨hpublished, hleft, hsame⟩ := ih (x := x) h
      have hnone : x.ring.kernelFree = 0 := Nat.eq_zero_of_not_pos hfree
      rw [hnone, List.take_zero] at hpublished
      rw [hnone] at hleft
      rw [harrive, hnone, List.take_zero]
      exact ⟨hpublished, by omega, hsame⟩

/-- A pass moves one slot from the owned ones to the processed ones. -/
theorem recvSlot_accounted (h : Accounted x) (hw : 0 < x.ring.window) :
    Accounted (recvSlot x) := by
  constructor
  · exact h.synced.setHead_next
  · intro ring hring
    rw [recvSlot, List.mem_append, List.mem_singleton] at hring
    rcases hring with hring | rfl
    · exact h.owned ring hring
    · have hcur := h.synced.owned_cur.mpr hw
      rwa [h.synced.cur_eq] at hcur
  · have hpass : (recvSlot x).passes.map taken = x.passes.map taken ++ [taken x.ring] := by
      rw [recvSlot, List.map_append, List.map_singleton]
    rw [hpass, List.append_assoc, List.singleton_append]
    exact h.published_eq.trans (congrArg _ (h.synced.pending_setHead_next hw))

/-- The inner loop ends within `fuel` passes when no more slots are owned, and it
ends with none left. -/
theorem recvRing_drains (h : Accounted x) (hfuel : x.ring.window ≤ fuel) :
    ∃ y, recvRing fuel x = some y ∧ Accounted y ∧ y.ring.window = 0 ∧
      y.ring.numSlots = x.ring.numSlots ∧ y.published = x.published := by
  induction fuel generalizing x with
  | zero =>
    have hw : x.ring.window = 0 := Nat.le_zero.mp hfuel
    have hempty : nmRingEmpty x.ring = true := h.synced.empty_iff.mpr hw
    exact ⟨x, by rw [recvRing, if_pos hempty], h, hw, rfl, rfl⟩
  | succ fuel ih =>
    by_cases hempty : nmRingEmpty x.ring = true
    · have hw : x.ring.window = 0 := h.synced.empty_iff.mp hempty
      exact ⟨x, by rw [recvRing, if_pos hempty], h, hw, rfl, rfl⟩
    · have hw : 0 < x.ring.window := by
        rw [h.synced.empty_iff] at hempty
        exact Nat.pos_of_ne_zero hempty
      have hshorter : (recvSlot x).ring.window + 1 = x.ring.window :=
        h.synced.window_setHead_next hw
      obtain ⟨y, hrun, hy⟩ := ih (recvSlot_accounted h hw) (by omega)
      exact ⟨y, by rw [recvRing, if_neg hempty, hrun], hy⟩

/-- With nothing owned, everything published has been processed. -/
theorem drained_exact (h : Accounted x) (hw : x.ring.window = 0) :
    x.passes.map taken = x.published := by
  rw [h.published_eq, NetmapRing.pending, hw]
  exact (List.append_nil _).symm

/-- The loop over the rings ends; the rings it was given are drained, the others
are left as they were. -/
theorem recvRings_drains (ris : List Nat) {rings : Nat → RxRing σ}
    (h : ∀ ri ∈ ris, Ready fuel (rings ri)) :
    ∃ after, recvRings fuel ris rings = some after ∧
      (∀ ri ∈ ris, Ready fuel (after ri) ∧ (after ri).ring.window = 0) ∧
      (∀ ri ∉ ris, after ri = rings ri) ∧
      ∀ ri, (after ri).published = (rings ri).published ∧
        (after ri).ring.numSlots = (rings ri).ring.numSlots := by
  induction ris generalizing rings with
  | nil => exact ⟨rings, rfl, by simp, by simp, fun _ => ⟨rfl, rfl⟩⟩
  | cons ri rest ih =>
    have hready := h ri List.mem_cons_self
    have hfuel : (rings ri).ring.window ≤ fuel := by
      have hw := dist_lt hready.accounted.synced.head_lt hready.accounted.synced.tail_lt
      exact Nat.le_trans (Nat.le_of_lt hw) hready.fits
    obtain ⟨y, hrun, hy, hyw, hyn, hyp⟩ := recvRing_drains hready.accounted hfuel
    have hyready : Ready fuel y := ⟨hy, hyn.symm ▸ hready.fits⟩
    have hupdated : ∀ j ∈ rest, Ready fuel (Function.update rings ri y j) := by
      intro j hj
      by_cases hji : j = ri
      · rw [hji, Function.update_self]
        exact hyready
      · rw [Function.update_of_ne hji]
        exact h j (List.mem_cons_of_mem ri hj)
    obtain ⟨after, hrest, hin, hout, hkept⟩ := ih hupdated
    apply Exists.intro after
    constructor
    · rw [recvRings, hrun, Option.bind_some, hrest]
    constructor
    · intro j hj
      by_cases hjrest : j ∈ rest
      · exact hin j hjrest
      · have hji : j = ri := (List.mem_cons.mp hj).resolve_right hjrest
        rw [hout j hjrest, hji, Function.update_self]
        exact ⟨hyready, hyw⟩
    constructor
    · intro j hj
      rw [List.mem_cons, not_or] at hj
      rw [hout j hj.2, Function.update_of_ne hj.1]
    · intro j
      have hj := hkept j
      by_cases hji : j = ri
      · rw [hji, Function.update_self] at hj
        rw [hji]
        exact ⟨hj.1.trans hyp, hj.2.trans hyn⟩
      · rwa [Function.update_of_ne hji] at hj

theorem mem_visits {desc : NmDesc σ} {ri : Nat} :
    ri ∈ List.range' desc.firstRxRing (desc.lastRxRing + 1 - desc.firstRxRing) ↔
      desc.Visits ri := by
  rw [List.mem_range'_1, NmDesc.Visits]
  omega

theorem arriveAll_ready {desc : NmDesc σ} {rings : Nat → RxRing σ} (arrivals : Nat → List σ)
    (h : ∀ ri, desc.Visits ri → Ready fuel (rings ri)) :
    ∀ ri, desc.Visits ri → Ready fuel (arriveAll arrivals rings ri) :=
  fun ri hri => arrivals_ready (h ri hri) (arrivals ri)

/-- Two system calls publish what one would that brings the packets of both. -/
theorem arrivals_published_append (h : Accounted x) (first second : List σ) :
    (second.foldl RxRing.arrive (first.foldl RxRing.arrive x)).published.map Prod.snd =
        x.published.map Prod.snd ++ (first ++ second).take x.ring.kernelFree ∧
      (second.foldl RxRing.arrive (first.foldl RxRing.arrive x)).ring.numSlots =
        x.ring.numSlots := by
  rw [← List.foldl_append]
  obtain ⟨hpublished, -, hsame⟩ := arrivals_published h.synced (first ++ second)
  exact ⟨hpublished, hsame⟩

/-- The history of a ring after the turns. -/
structure History (ri : Nat) (turns : List (Turn σ)) (before after : RxRing σ) : Prop where
  accounted : Accounted after
  published : after.published.map Prod.snd = before.published.map Prod.snd ++
    received before.ring.numSlots ri before.ring.kernelFree turns
  drained : turns ≠ [] → (∀ turn ∈ turns, turn.Served) → after.ring.window = 0

/-- A turn in which a call fails is the last one. -/
theorem History.failed {ri : Nat} {turn : Turn σ} {later : List (Turn σ)} {before after : RxRing σ}
    (hfailed : ¬ turn.Served) (haccounted : Accounted after)
    (hpublished : after.published.map Prod.snd = before.published.map Prod.snd ++
      (turn.arrivals ri).take before.ring.kernelFree) :
    History ri (turn :: later) before after where
  accounted := haccounted
  published := by rw [received, if_neg hfailed, List.append_nil, hpublished]
  drained _ hall := absurd (hall turn List.mem_cons_self) hfailed

/-- A turn without a failure drains the ring, and the later turns go on from there. -/
theorem History.served {ri : Nat} {turn : Turn σ} {later : List (Turn σ)}
    {before drained after : RxRing σ} (hserved : turn.Served) (hempty : drained.ring.window = 0)
    (hpublished : drained.published.map Prod.snd = before.published.map Prod.snd ++
      (turn.arrivals ri).take before.ring.kernelFree)
    (hslots : drained.ring.numSlots = before.ring.numSlots)
    (hlast : later = [] → after = drained) (h : History ri later drained after) :
    History ri (turn :: later) before after := by
  have hfree : drained.ring.kernelFree = before.ring.numSlots - 1 := by
    rw [NetmapRing.kernelFree, hempty, hslots, Nat.sub_zero]
  refine ⟨h.accounted, ?_, fun _ hall => ?_⟩
  · rw [received, if_pos hserved, ← List.append_assoc, h.published, hpublished, hfree, hslots]
  · cases later with
    | nil =>
      rw [hlast rfl]
      exact hempty
    | cons => exact h.drained (List.cons_ne_nil _ _) (List.forall_mem_cons.mp hall).2

/-- The outer loop never gets stuck in a ring. It is left where a system call fails, and
its turns make the history of every ring. -/
theorem recvLoop_ready (desc : NmDesc σ) (turns : List (Turn σ)) {rings : Nat → RxRing σ}
    (h : ∀ ri, desc.Visits ri → Ready fuel (rings ri)) :
    ∃ r, recvLoop fuel desc turns rings = some r ∧
      (r.outcome = .receiving ↔ ∀ turn ∈ turns, turn.Served) ∧
      ∀ ri, desc.Visits ri → History ri turns (rings ri) (r.rings ri) := by
  induction turns generalizing rings with
  | nil =>
    refine ⟨_, rfl, by simp, fun ri hri => ⟨(h ri hri).accounted, ?_, fun hne => absurd rfl hne⟩⟩
    rw [received, List.append_nil]
  | cons turn later ih =>
    have hsynced := arriveAll_ready turn.syncArrivals h
    have hpolled := arriveAll_ready turn.pollArrivals hsynced
    have hstops : ∀ stop : Outcome, stop ≠ .receiving → ¬ turn.Served →
        (stop = .receiving ↔ ∀ t ∈ turn :: later, t.Served) := fun stop hstop hfailed =>
      iff_of_false hstop fun hall => hfailed (hall turn List.mem_cons_self)
    unfold recvLoop
    by_cases hsync : turn.syncRet < 0
    · have hfailed : ¬ turn.Served := fun hserved => Int.not_lt.mpr hserved.1 hsync
      rw [if_pos hsync]
      refine ⟨_, rfl, hstops _ (fun hout => nomatch hout) hfailed, fun ri hri => ?_⟩
      obtain ⟨hpublished, -, -⟩ :=
        arrivals_published (h ri hri).accounted.synced (turn.syncArrivals ri)
      refine .failed hfailed (hsynced ri hri).accounted ?_
      rw [Turn.arrivals, if_pos hsync]
      exact hpublished
    rw [if_neg hsync]
    have hturn : ∀ ri, desc.Visits ri →
        (arriveAll turn.pollArrivals (arriveAll turn.syncArrivals rings) ri).published.map
            Prod.snd = (rings ri).published.map Prod.snd ++
              (turn.arrivals ri).take (rings ri).ring.kernelFree ∧
          (arriveAll turn.pollArrivals (arriveAll turn.syncArrivals rings) ri).ring.numSlots =
            (rings ri).ring.numSlots := fun ri hri => by
      rw [Turn.arrivals, if_neg hsync]
      exact arrivals_published_append (h ri hri).accounted _ _
    by_cases hpoll : turn.pollRet < -1
    · have hfailed : ¬ turn.Served := fun hserved => Int.not_lt.mpr hserved.2 hpoll
      rw [if_pos hpoll]
      exact ⟨_, rfl, hstops _ (fun hout => nomatch hout) hfailed, fun ri hri =>
        .failed hfailed (hpolled ri hri).accounted (hturn ri hri).1⟩
    rw [if_neg hpoll]
    have hserved : turn.Served := ⟨Int.not_lt.mp hsync, Int.not_lt.mp hpoll⟩
    obtain ⟨after, hrun, hin, -, hkept⟩ :=
      recvRings_drains _ (fun ri hri => hpolled ri (mem_visits.mp hri))
    obtain ⟨r, hlater, hout, hhistory⟩ := ih fun ri hri => (hin ri (mem_visits.mpr hri)).1
    refine ⟨r, ?_, ?_, fun ri hri => ?_⟩
    · simp only [hrun, Option.bind_some, hlater]
    · rw [hout, List.forall_mem_cons, and_iff_right hserved]
    · obtain ⟨-, hempty⟩ := hin ri (mem_visits.mpr hri)
      obtain ⟨hsame, hslots⟩ := hkept ri
      obtain ⟨hpublished, hnumSlots⟩ := hturn ri hri
      have hdrained := hsame ▸ hpublished
      refine .served hserved hempty hdrained (hslots.trans hnumSlots) ?_ (hhistory ri hri)
      rintro rfl
      obtain rfl := Option.some.inj hlater
      rfl

/-- The loop over the rings as they are entered. -/
theorem recvLoop_history (desc : NmDesc σ) (fuel : Nat) (turns : List (Turn σ))
    (hentry : ∀ ri, desc.Visits ri →
      (desc.rxring ri).Synced ∧ (desc.rxring ri).numSlots ≤ fuel) :
    ∃ r, recvLoop fuel desc turns (fun ri => .enter (desc.rxring ri)) = some r ∧
      (r.outcome = .receiving ↔ ∀ turn ∈ turns, turn.Served) ∧
      ∀ ri, desc.Visits ri → History ri turns (.enter (desc.rxring ri)) (r.rings ri) := by
  refine recvLoop_ready desc turns fun ri hri => ?_
  obtain ⟨hsync, hfits⟩ := hentry ri hri
  exact ⟨enter_accounted hsync, hfits⟩

/-- For every port whose rings enter in step, with any arrivals over any number of
turns: the loops end, and the outer one goes on as long as no system call fails. What a
ring has published are the packets that waited in it and those arrivals of the turns for
which it had a slot, in order; its passes read owned slots and are accounted for, and
after each turn they have read exactly what was published, in order. -/
theorem recv_exact (desc : NmDesc σ) (fuel : Nat) (turns : List (Turn σ))
    (hentry : ∀ ri, desc.Visits ri →
      (desc.rxring ri).Synced ∧ (desc.rxring ri).numSlots ≤ fuel) :
    ∃ r, recvLoop fuel desc turns (fun ri => .enter (desc.rxring ri)) = some r ∧
      (r.outcome = .receiving ↔ ∀ turn ∈ turns, turn.Served) ∧
      ∀ ri, desc.Visits ri → Accounted (r.rings ri) ∧
        (r.rings ri).published.map Prod.snd = (desc.rxring ri).pending.map Prod.snd ++
          received (desc.rxring ri).numSlots ri (desc.rxring ri).kernelFree turns ∧
        (turns ≠ [] → (∀ turn ∈ turns, turn.Served) →
          (r.rings ri).passes.map taken = (r.rings ri).published) := by
  obtain ⟨r, hrun, hout, hhistory⟩ := recvLoop_history desc fuel turns hentry
  refine ⟨r, hrun, hout, fun ri hri => ?_⟩
  obtain ⟨haccounted, hpublished, hdrained⟩ := hhistory ri hri
  exact ⟨haccounted, hpublished, fun hturns hserved =>
    drained_exact haccounted (hdrained hturns hserved)⟩

/-- A ring of four slots, entered at slot 2 with one packet waiting. -/
def oneWaiting : NetmapRing Nat :=
  { numSlots := 4, head := 2, cur := 2, tail := 3, slot := fun _ => 0 }

theorem oneWaiting_synced : oneWaiting.Synced := ⟨by decide, by decide, rfl⟩

def twoRings : NmDesc Nat where
  firstRxRing := 0
  lastRxRing := 1
  rxring := fun _ => oneWaiting
  last_lt := by decide
  slots_lt := fun _ => by decide

/-- Five packets for ring 0 over two system calls, of which it has room for two. -/
def fullRing : Turn Nat :=
  { syncRet := 0, syncArrivals := fun ri => if ri = 0 then [1, 2, 3] else []
    pollRet := 1, pollArrivals := fun ri => if ri = 0 then [4, 5] else [6] }

theorem recv_exact_wrapping :
    ∃ r, recvLoop 4 twoRings [fullRing, fullRing]
        (fun ri => .enter (twoRings.rxring ri)) = some r ∧
      (r.outcome = .receiving ↔ ∀ turn ∈ [fullRing, fullRing], turn.Served) ∧
      ∀ ri, twoRings.Visits ri → Accounted (r.rings ri) ∧
        (r.rings ri).published.map Prod.snd = (twoRings.rxring ri).pending.map Prod.snd ++
          received (twoRings.rxring ri).numSlots ri (twoRings.rxring ri).kernelFree
            [fullRing, fullRing] ∧
        ([fullRing, fullRing] ≠ [] → (∀ turn ∈ [fullRing, fullRing], turn.Served) →
          (r.rings ri).passes.map taken = (r.rings ri).published) :=
  recv_exact twoRings 4 [fullRing, fullRing]
    fun _ _ => ⟨oneWaiting_synced, Nat.le_refl 4⟩

end Nvpkt.Guarantees.RecvLoop
