import Nvpkt.Source.BenchNvme

/-!
# Every benchmark I/O is inside the device

`InsideDevice` says that an I/O from `lba` on ends inside the device. The first
address has the room of a whole thread's share behind it, which is more than the
largest I/O (`threadSlba_inside`), and each walk leads from one such address to
another (`nextLba_inside`): the random one by its modulus, the sequential one by
its look-ahead. The rest is a run of submissions and polls.
-/

set_option autoImplicit false

namespace Nvpkt.Guarantees.BenchLba
open Nvpkt.Library.FixedWidth
open Nvpkt.Source.BenchNvme

/-- An I/O from `lba` on ends inside the device. -/
def InsideDevice (p : BenchParam) (lba : Nat) : Prop := lba + p.nblocks ≤ blockEnd

variable {p : BenchParam} {lba : Nat}

/-- The largest size takes 2^22 blocks. -/
theorem nblocks_le (p : BenchParam) : p.nblocks ≤ 4194304 := by
  have hsize := p.size_lt
  unfold BenchParam.nblocks
  split <;> omega

theorem nblocks_lt_blockEnd (p : BenchParam) : p.nblocks < blockEnd :=
  Nat.lt_of_le_of_lt (nblocks_le p) (by decide)

/-- The modulus of the random walk is the exact difference. -/
theorem modulus_eq (p : BenchParam) : wsub 64 blockEnd p.nblocks = blockEnd - p.nblocks :=
  wsub_of_le (Nat.le_of_lt (nblocks_lt_blockEnd p)) (by decide)

/-- The look-ahead of the sequential walk stays within 64 bits. -/
theorem lookahead_lt (h : InsideDevice p lba) : lba + p.nblocks <<< 1 < 2 ^ 64 := by
  have hn := nblocks_le p
  have hend : blockEnd < 2 ^ 32 := by decide
  rw [Nat.shiftLeft_eq]
  unfold InsideDevice at h
  omega

theorem lookahead_eq (h : InsideDevice p lba) :
    wrap 64 (lba + wrap 64 (p.nblocks <<< 1)) = lba + p.nblocks <<< 1 := by
  have hlt := lookahead_lt h
  rw [wrap_of_lt (n := p.nblocks <<< 1) (by omega), wrap_of_lt hlt]

/-- Each walk leads from an address inside the device to another one. -/
theorem nextLba_inside (rand : Nat) (h : InsideDevice p lba) :
    InsideDevice p (nextLba p.walk rand lba blockEnd p.nblocks) := by
  have hn := nblocks_lt_blockEnd p
  unfold nextLba
  split
  · -- random: the remainder is below the modulus
    rw [modulus_eq]
    have hmod := Nat.mod_lt rand (Nat.sub_pos_of_lt hn)
    unfold InsideDevice
    omega
  · exact h
  · -- sequential: the test looks one I/O further than the step
    rw [lookahead_eq h]
    split
    · rename_i hahead
      rw [Nat.shiftLeft_eq] at hahead
      have hend : blockEnd < 2 ^ 64 := by decide
      rw [wrap_of_lt (by omega)]
      unfold InsideDevice
      omega
    · unfold InsideDevice
      omega

/-- The start addresses are computed without wrapping. -/
theorem slba_lt {ncpus n : Nat} (hn : n < ncpus) : blockEnd / ncpus * n < 2 ^ 32 := by
  have hshare : blockEnd / ncpus * n ≤ blockEnd / ncpus * ncpus :=
    Nat.mul_le_mul_left _ (Nat.le_of_lt hn)
  have hend : blockEnd < 2 ^ 32 := by decide
  have hdiv := Nat.div_mul_le_self blockEnd ncpus
  omega

/-- Behind every start address lies a whole share, of at least 2^22 blocks. -/
theorem threadSlba_inside {ncpus n : Nat} (hcpus : ncpus ≤ maxCpuNum) (hn : n < ncpus) :
    InsideDevice p (threadSlba ncpus n) := by
  have hshare : blockEnd / ncpus * (n + 1) ≤ blockEnd / ncpus * ncpus :=
    Nat.mul_le_mul_left _ hn
  have hdiv := Nat.div_mul_le_self blockEnd ncpus
  have hmin : blockEnd / maxCpuNum ≤ blockEnd / ncpus :=
    Nat.div_le_div_left hcpus (by omega)
  have hlarge : 4194304 ≤ blockEnd / maxCpuNum := by decide
  have hblocks := nblocks_le p
  rw [Nat.mul_succ] at hshare
  rw [threadSlba, wrap_of_lt (slba_lt hn)]
  unfold InsideDevice
  omega

/-- The next I/O and all earlier ones are inside the device. -/
structure Inside (p : BenchParam) (th : Thread) : Prop where
  next : InsideDevice p th.lba
  submitted : ∀ io ∈ th.device.submitted, io.nblocks = p.nblocks ∧ InsideDevice p io.lba

variable {th : Thread} {qid b : Nat} {rand : Nat → Nat} {polls : Nat → Int}

theorem submitIo_inside (h : Inside p th) : Inside p (submitIo p qid rand th b) := by
  constructor
  · exact nextLba_inside _ h.next
  · intro io hio
    rcases List.mem_append.mp hio with hold | hnew
    · exact h.submitted io hold
    · rw [List.mem_singleton] at hnew
      subst hnew
      have hn := nblocks_le p
      exact ⟨wrap_of_lt (by omega), h.next⟩

theorem pollIo_inside (h : Inside p th) : Inside p (pollIo p polls th b) := by
  by_cases hret : polls b = 0
  · rw [pollIo_done hret]
    exact ⟨h.next, h.submitted⟩
  · rw [pollIo_timeout hret]
    exact h

theorem benchRound_inside (h : Inside p th) : Inside p (benchRound p qid rand th polls) := by
  apply List.foldlRecOn _ _ (List.foldlRecOn _ _ h ?_) ?_
  · exact fun th hth b _ => submitIo_inside hth
  · exact fun th hth b _ => pollIo_inside hth

/-- For every thread, size, walk, batch and sequence of random values: no unsigned
expression wraps, the modulus is positive, and every I/O ends inside the device. -/
theorem bench_inside_device (p : BenchParam) (ncpus n : Nat) (rand : Nat → Nat)
    (rounds : List (Nat → Int)) (hcpus : ncpus ≤ maxCpuNum) (hn : n < ncpus) :
    threadSlba ncpus n = blockEnd / ncpus * n ∧
    threadSlba ncpus n + p.nblocks <<< 1 < 2 ^ 64 ∧
    0 < wsub 64 blockEnd p.nblocks ∧ wsub 64 blockEnd p.nblocks + p.nblocks = blockEnd ∧
    ∀ io ∈ (benchStart p n rand (threadSlba ncpus n) rounds).device.submitted,
      io.nblocks = p.nblocks ∧ io.lba + io.nblocks ≤ blockEnd ∧
      io.lba + io.nblocks <<< 1 < 2 ^ 64 := by
  have hfirst : InsideDevice p (threadSlba ncpus n) := threadSlba_inside hcpus hn
  have hblocks := nblocks_lt_blockEnd p
  have hinit : Inside p (benchInit p rand (threadSlba ncpus n)) := by
    constructor
    · exact nextLba_inside _ hfirst
    · exact fun io hio => absurd hio List.not_mem_nil
  have hrun : Inside p (benchStart p n rand (threadSlba ncpus n) rounds) :=
    List.foldlRecOn _ _ hinit fun th hth polls _ => benchRound_inside hth
  refine ⟨wrap_of_lt (slba_lt hn), lookahead_lt hfirst, ?_, ?_, ?_⟩
  · rw [modulus_eq]
    exact Nat.sub_pos_of_lt hblocks
  · rw [modulus_eq]
    exact Nat.sub_add_cancel (Nat.le_of_lt hblocks)
  · intro io hio
    obtain ⟨hsize, hio⟩ := hrun.submitted io hio
    rw [hsize]
    exact ⟨rfl, hio, lookahead_lt hio⟩

/-- The largest writes to one place, by the last of 32 threads. -/
def largestSame : BenchParam :=
  { mode := .write, walk := .same, size := 2 ^ 31 - 1, batch := 2, size_lt := by decide }

theorem bench_inside_last_thread :
    threadSlba 32 31 = blockEnd / 32 * 31 ∧
    threadSlba 32 31 + largestSame.nblocks <<< 1 < 2 ^ 64 ∧
    0 < wsub 64 blockEnd largestSame.nblocks ∧
    wsub 64 blockEnd largestSame.nblocks + largestSame.nblocks = blockEnd ∧
    ∀ io ∈ (benchStart largestSame 31 (fun _ => 0) (threadSlba 32 31)
        [fun _ => 0]).device.submitted,
      io.nblocks = largestSame.nblocks ∧ io.lba + io.nblocks ≤ blockEnd ∧
      io.lba + io.nblocks <<< 1 < 2 ^ 64 :=
  bench_inside_device largestSame 32 31 (fun _ => 0) [fun _ => 0] (by decide) (by decide)

end Nvpkt.Guarantees.BenchLba
