import Mathlib.Data.List.Induction
import Nvpkt.Source.BenchNvme

/-!
# Outstanding I/Os across the rounds

`Disciplined` is what a run should keep: at the start of a round nothing is
outstanding, no buffer is the target of two outstanding I/Os, and `count` and
`bytes` agree with the completed I/Os at every point. The counters always agree
(`benchStart_accounted`, `Polling.accounted`). A poll that times out leaves its
I/O outstanding and is not repeated, so the next round starts over it: a run is
disciplined exactly when no poll times out in a round that another one follows
(`bench_disciplined_iff`).
-/

set_option autoImplicit false

namespace Nvpkt.Guarantees.BenchRounds
open Nvpkt.Library.FixedWidth
open Nvpkt.Source.BenchNvme

/-- The counters agree with the device. -/
structure Accounted (p : BenchParam) (th : Thread) : Prop where
  bytes_eq : th.bytes = wrap 64 (p.size * th.count)
  count_eq : th.count = wrap 64 th.device.completed
  outstanding_le : th.device.outstanding.length ≤ th.device.submitted.length

/-- The points of a run: between rounds and after every pass of the inner loops. -/
inductive Visited (p : BenchParam) (qid : Nat) (rand : Nat → Nat) (slba : Nat)
    (rounds : List (Nat → Int)) : Thread → Prop where
  | round (done later : List (Nat → Int)) (h : rounds = done ++ later) :
      Visited p qid rand slba rounds (benchStart p qid rand slba done)
  | submitting (done : List (Nat → Int)) (polls : Nat → Int) (later : List (Nat → Int))
      (h : rounds = done ++ polls :: later) (b : Nat) (hb : b ≤ p.batch) :
      Visited p qid rand slba rounds
        (submitLoop p qid rand (benchStart p qid rand slba done) b)
  | polling (done : List (Nat → Int)) (polls : Nat → Int) (later : List (Nat → Int))
      (h : rounds = done ++ polls :: later) (b : Nat) (hb : b ≤ p.batch) :
      Visited p qid rand slba rounds
        (pollLoop p polls (submitLoop p qid rand (benchStart p qid rand slba done) p.batch) b)

structure Disciplined (p : BenchParam) (qid : Nat) (rand : Nat → Nat) (slba : Nat)
    (rounds : List (Nat → Int)) : Prop where
  /-- A round starts with nothing outstanding. -/
  quiet : ∀ done polls later, rounds = done ++ polls :: later →
    (benchStart p qid rand slba done).device.outstanding = []
  /-- No buffer is the target of two outstanding I/Os. -/
  buffers : ∀ th, Visited p qid rand slba rounds th →
    (th.device.outstanding.map Io.buf).Nodup
  counters : ∀ th, Visited p qid rand slba rounds th →
    th.bytes = wrap 64 (p.size * th.count) ∧ th.count = wrap 64 th.device.completed

/-- No poll times out in a round that another one follows. -/
def AnsweredBetween (p : BenchParam) (rounds : List (Nat → Int)) : Prop :=
  ∀ done polls next later, rounds = done ++ polls :: next :: later →
    ∀ b < p.batch, polls b = 0

variable {p : BenchParam} {qid : Nat} {rand : Nat → Nat} {slba : Nat} {th : Thread}
  {polls : Nat → Int} {rounds : List (Nat → Int)} {b s : Nat} {queue : List Io}

/-! ## Submitting -/

/-- `b` I/Os were submitted into the buffers from 0 on, behind those of `th`. -/
structure Batch (th after : Thread) (b : Nat) (ios : List Io) : Prop where
  submitted_eq : after.device.submitted = th.device.submitted ++ ios
  outstanding_eq : after.device.outstanding = th.device.outstanding ++ ios
  ids : ios.map Io.id = List.range' th.device.submitted.length b
  bufs : ios.map Io.buf = List.range b
  iods : ∀ j < b, after.iod j = th.device.submitted.length + j
  counters : after.count = th.count ∧ after.bytes = th.bytes

theorem Batch.length_ios {after : Thread} {ios : List Io} (h : Batch th after b ios) :
    ios.length = b := by
  have hids := congrArg List.length h.ids
  rwa [List.length_map, List.length_range'] at hids

theorem submitIo_batch (p : BenchParam) (qid : Nat) (rand : Nat → Nat) {after : Thread}
    {ios : List Io} (h : Batch th after b ios) :
    ∃ io, Batch th (submitIo p qid rand after b) (b + 1) (ios ++ [io]) := by
  have hlen : after.device.submitted.length = th.device.submitted.length + b := by
    rw [h.submitted_eq, List.length_append, h.length_ios]
  let io : Io :=
    { id := after.device.submitted.length, mode := p.mode, qid := qid, buf := b
      lba := after.lba, nblocks := wrap 32 p.nblocks }
  apply Exists.intro io
  constructor
  · show after.device.submitted ++ [io] = _
    rw [h.submitted_eq, List.append_assoc]
  · show after.device.outstanding ++ [io] = _
    rw [h.outstanding_eq, List.append_assoc]
  · rw [List.map_append, h.ids, List.range'_1_concat, ← hlen]
    rfl
  · rw [List.map_append, h.bufs, List.range_succ]
    rfl
  · intro j hj
    show Function.update after.iod b after.device.submitted.length j = _
    by_cases hjb : j = b
    · rw [hjb, Function.update_self, hlen]
    · rw [Function.update_of_ne hjb, h.iods j (by omega)]
  · exact h.counters

theorem submitLoop_batch (p : BenchParam) (qid : Nat) (rand : Nat → Nat) (th : Thread) (b : Nat) :
    ∃ ios, Batch th (submitLoop p qid rand th b) b ios := by
  induction b with
  | zero => exact ⟨[], (List.append_nil _).symm, (List.append_nil _).symm, rfl, rfl,
      fun j hj => absurd hj (Nat.not_lt_zero j), rfl, rfl⟩
  | succ b ih =>
    obtain ⟨ios, hios⟩ := ih
    obtain ⟨io, hio⟩ := submitIo_batch p qid rand hios
    exact ⟨ios ++ [io], submitLoop_succ p qid rand th b ▸ hio⟩

/-- A submission changes neither the counters nor the number of completed I/Os. -/
theorem Batch.accounted {after : Thread} {ios : List Io} (h : Batch th after b ios)
    (hth : Accounted p th) : Accounted p after := by
  have hcompleted : after.device.completed = th.device.completed := by
    unfold Device.completed
    rw [h.submitted_eq, h.outstanding_eq, List.length_append, List.length_append]
    omega
  constructor
  · rw [h.counters.1, h.counters.2, hth.bytes_eq]
  · rw [h.counters.1, hcompleted, hth.count_eq]
  · rw [h.submitted_eq, h.outstanding_eq, List.length_append, List.length_append]
    exact Nat.add_le_add_right hth.outstanding_le _

/-! ## Polling -/

/-- `b` I/Os of a round have been polled, whose ids begin at `s`; `queue` was
outstanding when the first poll came. -/
structure Polling (p : BenchParam) (polls : Nat → Int) (s : Nat) (queue : List Io) (b : Nat)
    (th : Thread) : Prop where
  accounted : Accounted p th
  iods : ∀ j < p.batch, th.iod j = s + j
  /-- The I/Os not polled yet, or without an answer, are outstanding. -/
  waiting : ∀ j < p.batch, b ≤ j ∨ polls j ≠ 0 → ∃ io ∈ th.device.outstanding, io.id = s + j
  sublist : th.device.outstanding.Sublist queue
  left : (∀ j < b, polls j = 0) → th.device.outstanding.length + b = queue.length

theorem Batch.polling {after : Thread} {ios : List Io} (h : Batch th after p.batch ios)
    (hth : Accounted p th) : Polling p polls th.device.submitted.length
      after.device.outstanding 0 after := by
  constructor
  · exact h.accounted hth
  · exact h.iods
  · intro j hj _
    have hid : th.device.submitted.length + j ∈ ios.map Io.id := by
      rw [h.ids, List.mem_range'_1]
      omega
    obtain ⟨io, hio, hioid⟩ := List.mem_map.mp hid
    rw [h.outstanding_eq]
    exact ⟨io, List.mem_append_right _ hio, hioid⟩
  · exact List.Sublist.refl _
  · intro _
    rfl

/-- An answered poll counts the I/O it takes off the outstanding ones. -/
theorem pollIo_accounted (h : Accounted p th) (hret : polls b = 0)
    (hio : ∃ io ∈ th.device.outstanding, io.id = th.iod b) :
    Accounted p (pollIo p polls th b) ∧
      (pollIo p polls th b).device.outstanding.length + 1 = th.device.outstanding.length := by
  obtain ⟨io, hmem, hid⟩ := hio
  have herase : (th.device.outstanding.eraseP fun io => io.id == th.iod b).length =
      th.device.outstanding.length - 1 := List.length_eraseP_of_mem hmem (by simp [hid])
  have hpos : 0 < th.device.outstanding.length := List.length_pos_of_mem hmem
  have hle := h.outstanding_le
  rw [pollIo_done hret]
  constructor
  · constructor
    · show wrap 64 (th.bytes + p.size) = wrap 64 (p.size * wrap 64 (th.count + 1))
      rw [h.bytes_eq, wrap_wrap_add, wrap_mul_wrap, Nat.mul_succ]
    · show wrap 64 (th.count + 1) =
        wrap 64 (th.device.submitted.length - (th.device.outstanding.eraseP _).length)
      rw [herase, h.count_eq, wrap_wrap_add, Device.completed]
      congr 1
      omega
    · show (th.device.outstanding.eraseP _).length ≤ th.device.submitted.length
      omega
  · show (th.device.outstanding.eraseP _).length + 1 = th.device.outstanding.length
    omega

theorem pollIo_polling (hb : b < p.batch) (h : Polling p polls s queue b th) :
    Polling p polls s queue (b + 1) (pollIo p polls th b) := by
  by_cases hret : polls b = 0
  · have hwait := h.waiting b hb (Or.inl (Nat.le_refl b))
    rw [← h.iods b hb] at hwait
    obtain ⟨haccount, hlength⟩ := pollIo_accounted h.accounted hret hwait
    have hqueue : (pollIo p polls th b).device.outstanding =
        th.device.outstanding.eraseP fun io => io.id == th.iod b := by
      rw [pollIo_done hret]
      rfl
    have hiod : (pollIo p polls th b).iod = th.iod := by rw [pollIo_done hret]
    constructor
    · exact haccount
    · exact hiod ▸ h.iods
    · intro j hj hopen
      have hjb : j ≠ b := by
        rintro rfl
        rcases hopen with hlater | htimeout
        · omega
        · exact htimeout hret
      obtain ⟨io, hio, hid⟩ := h.waiting j hj (hopen.imp_left fun hlater => by omega)
      apply Exists.intro io
      apply And.intro _ hid
      rw [hqueue, h.iods b hb]
      apply (List.mem_eraseP_of_neg _).mpr hio
      rw [hid, beq_iff_eq]
      omega
    · rw [hqueue]
      exact List.eraseP_sublist.trans h.sublist
    · intro hall
      have hleft := h.left fun j hj => hall j (by omega)
      omega
  · rw [pollIo_timeout hret]
    constructor
    · exact h.accounted
    · exact h.iods
    · intro j hj hopen
      apply h.waiting j hj
      exact hopen.imp_left fun hlater => by omega
    · exact h.sublist
    · intro hall
      exact absurd (hall b (Nat.lt_succ_self b)) hret

theorem pollLoop_polling (hb : b ≤ p.batch) (h : Polling p polls s queue 0 th) :
    Polling p polls s queue b (pollLoop p polls th b) := by
  induction b with
  | zero => exact h
  | succ b ih =>
    rw [pollLoop_succ]
    exact pollIo_polling hb (ih (by omega))

/-! ## Rounds -/

/-- The polls of a round, from any accounted thread. -/
theorem round_polling (qid : Nat) (rand : Nat → Nat) (polls : Nat → Int)
    (hth : Accounted p th) (hb : b ≤ p.batch) :
    Polling p polls th.device.submitted.length
      (submitLoop p qid rand th p.batch).device.outstanding b
      (pollLoop p polls (submitLoop p qid rand th p.batch) b) := by
  obtain ⟨ios, hios⟩ := submitLoop_batch p qid rand th p.batch
  exact pollLoop_polling hb (hios.polling hth)

theorem benchStart_accounted (p : BenchParam) (qid : Nat) (rand : Nat → Nat) (slba : Nat)
    (rounds : List (Nat → Int)) : Accounted p (benchStart p qid rand slba rounds) := by
  apply List.foldlRecOn _ _ (motive := Accounted p)
  · exact ⟨rfl, rfl, Nat.le_refl 0⟩
  · intro th hth polls _
    exact (round_polling qid rand polls hth (Nat.le_refl _)).accounted

theorem Visited.accounted (h : Visited p qid rand slba rounds th) : Accounted p th := by
  cases h with
  | round done => exact benchStart_accounted p qid rand slba done
  | submitting done _ _ _ b =>
    obtain ⟨ios, hios⟩ := submitLoop_batch p qid rand (benchStart p qid rand slba done) b
    exact hios.accounted (benchStart_accounted p qid rand slba done)
  | polling done polls _ _ b hb =>
    exact (round_polling qid rand polls (benchStart_accounted p qid rand slba done) hb).accounted

theorem benchStart_concat (p : BenchParam) (qid : Nat) (rand : Nat → Nat) (slba : Nat)
    (done : List (Nat → Int)) (polls : Nat → Int) :
    benchStart p qid rand slba (done ++ [polls]) =
      benchRound p qid rand (benchStart p qid rand slba done) polls := by
  rw [benchStart, List.foldl_append]
  rfl

/-- With every poll answered a quiet thread is quiet again after the round. -/
theorem round_quiet (hth : Accounted p th) (hquiet : th.device.outstanding = [])
    (hpolls : ∀ b < p.batch, polls b = 0) :
    (benchRound p qid rand th polls).device.outstanding = [] := by
  obtain ⟨ios, hios⟩ := submitLoop_batch p qid rand th p.batch
  have hlength : (submitLoop p qid rand th p.batch).device.outstanding.length = p.batch := by
    rw [hios.outstanding_eq, hquiet, List.nil_append, hios.length_ios]
  have hleft := (round_polling qid rand polls hth
    (Nat.le_refl _)).left hpolls
  apply List.eq_nil_of_length_eq_zero
  show (pollLoop p polls (submitLoop p qid rand th p.batch) p.batch).device.outstanding.length = 0
  omega

/-- A poll that times out leaves something outstanding after the round. -/
theorem round_not_quiet (qid : Nat) (rand : Nat → Nat) (hth : Accounted p th)
    (hb : b < p.batch) (hret : polls b ≠ 0) :
    (benchRound p qid rand th polls).device.outstanding ≠ [] := by
  obtain ⟨io, hio, -⟩ := (round_polling qid rand polls hth
    (Nat.le_refl _)).waiting b hb (Or.inr hret)
  exact List.ne_nil_of_mem hio

theorem starts_quiet (h : AnsweredBetween p rounds) (done : List (Nat → Int)) (polls : Nat → Int)
    (later : List (Nat → Int)) (hrounds : rounds = done ++ polls :: later) :
    (benchStart p qid rand slba done).device.outstanding = [] := by
  induction done using List.reverseRecOn generalizing polls later with
  | nil => rfl
  | append_singleton done last ih =>
    rw [List.append_assoc, List.singleton_append] at hrounds
    rw [benchStart_concat]
    apply round_quiet (benchStart_accounted p qid rand slba done)
    · exact ih last (polls :: later) hrounds
    · exact h done last polls later hrounds

/-- From a quiet thread the buffers of the outstanding I/Os differ, all through the
round. -/
theorem submitLoop_buffers (hquiet : th.device.outstanding = []) :
    ((submitLoop p qid rand th b).device.outstanding.map Io.buf).Nodup := by
  obtain ⟨ios, hios⟩ := submitLoop_batch p qid rand th b
  rw [hios.outstanding_eq, hquiet, List.nil_append, hios.bufs]
  exact List.nodup_range

theorem pollLoop_buffers (hth : Accounted p th) (hquiet : th.device.outstanding = [])
    (hb : b ≤ p.batch) :
    ((pollLoop p polls (submitLoop p qid rand th p.batch) b).device.outstanding.map
      Io.buf).Nodup := by
  have hsub := (round_polling qid rand polls hth hb).sublist
  exact (submitLoop_buffers hquiet).sublist (hsub.map Io.buf)

theorem Visited.buffers (h : AnsweredBetween p rounds)
    (hth : Visited p qid rand slba rounds th) : (th.device.outstanding.map Io.buf).Nodup := by
  cases hth with
  | round done later hrounds =>
    cases done using List.reverseRecOn with
    | nil => exact List.nodup_nil
    | append_singleton done last =>
      rw [List.append_assoc, List.singleton_append] at hrounds
      rw [benchStart_concat]
      exact pollLoop_buffers (benchStart_accounted p qid rand slba done)
        (starts_quiet h done last later hrounds) (Nat.le_refl _)
  | submitting done polls later hrounds b hb =>
    exact submitLoop_buffers (starts_quiet h done polls later hrounds)
  | polling done polls later hrounds b hb =>
    exact pollLoop_buffers (benchStart_accounted p qid rand slba done)
      (starts_quiet h done polls later hrounds) hb

/-- A run is disciplined exactly when every poll of every round but the last is
answered. -/
theorem bench_disciplined_iff (p : BenchParam) (qid : Nat) (rand : Nat → Nat) (slba : Nat)
    (rounds : List (Nat → Int)) :
    Disciplined p qid rand slba rounds ↔ AnsweredBetween p rounds := by
  constructor
  · intro h done polls next later hrounds b hb
    by_contra hret
    apply round_not_quiet qid rand (benchStart_accounted p qid rand slba done) hb hret
    rw [← benchStart_concat]
    apply h.quiet (done ++ [polls]) next later
    rw [List.append_assoc, List.singleton_append, hrounds]
  · intro h
    constructor
    · exact fun done polls later hrounds => starts_quiet h done polls later hrounds
    · exact fun th hth => hth.buffers h
    · exact fun th hth => ⟨hth.accounted.bytes_eq, hth.accounted.count_eq⟩

/-- One random read of 64 bytes a round. -/
def singleRead : BenchParam :=
  { mode := .read, walk := .random, size := 64, batch := 1, size_lt := by decide }

/-- After a time-out the second round starts with an I/O outstanding, and then has
two of them in the one buffer. -/
theorem timeout_shares_buffer :
    (benchStart singleRead 0 (fun _ => 0) 0 [fun _ => 1]).device.outstanding.map Io.buf = [0] ∧
      (submitLoop singleRead 0 (fun _ => 0)
        (benchStart singleRead 0 (fun _ => 0) 0 [fun _ => 1]) 1).device.outstanding.map
          Io.buf = [0, 0] ∧
      ¬ Disciplined singleRead 0 (fun _ => 0) 0 [fun _ => 1, fun _ => 0] := by
  have hfirst : (benchStart singleRead 0 (fun _ => 0) 0 [fun _ => 1]).device.outstanding.map
      Io.buf = [0] := by decide
  refine ⟨hfirst, by decide, fun h => ?_⟩
  have hquiet := h.quiet [fun _ => 1] (fun _ => 0) [] rfl
  rw [hquiet] at hfirst
  exact absurd hfirst (by decide)

end Nvpkt.Guarantees.BenchRounds
