import Mathlib.Data.ZMod.Defs
import Nvpkt.Source.PhyAddr

/-!
# Which answers of `phy_addr` are translations

An entry translates its page when the page is present and its frame number is known.
`phy_addr` turns down the entry 0 only: a page that is swapped out, or whose frame
number the kernel hides, has flags set and is taken for a translation
(`only_real_iff`).
-/

set_option autoImplicit false

namespace Nvpkt.Guarantees.PageTranslation
open Nvpkt.Library.FixedWidth
open Nvpkt.Source.PhyAddr

/-- Bit 63. -/
def Present (entry : Nat) : Prop := entry.testBit 63 = true

/-- Bits 0 to 54. -/
def frame (entry : Nat) : Nat := entry % 2 ^ 55

/-- The page is present, with a known frame number. -/
structure Translates (entry : Nat) : Prop where
  present : Present entry
  known : frame entry ≠ 0

instance (entry : Nat) : Decidable (Present entry) := inferInstanceAs (Decidable (_ = _))

/-- An address is returned for an entry that translates and is then the translation;
every other entry leads to the error exit. -/
structure OnlyReal (pm : PageMap) (virt : Nat) : Prop where
  value : ∀ phys, phyAddr pm virt = some phys → Translates (pm.entryOf virt) ∧
    phys = frame (pm.entryOf virt) * pm.pagesize + virt % pm.pagesize
  exits : ¬ Translates (pm.entryOf virt) → phyAddr pm virt = none

/-- The three system calls go through. -/
structure Readable (pm : PageMap) (virt : Nat) : Prop where
  fd : 0 ≤ pm.fd
  lseek : 0 ≤ pm.lseek (pm.offset virt)
  read : 1 ≤ pm.read (pm.offset virt)

section Address
variable {pm : PageMap} {virt : Nat}

theorem frame_eq (entry : Nat) : entry &&& pfnMask = frame entry :=
  Nat.and_two_pow_sub_one_eq_mod entry 55

theorem phyAddr_eq_none (h : ¬ (Readable pm virt ∧ pm.entryOf virt ≠ 0)) :
    phyAddr pm virt = none := by
  unfold phyAddr
  split
  · rfl
  case isFalse hfd =>
    split
    · rfl
    case isFalse hlseek =>
      rw [if_pos]
      by_contra hok
      rw [not_or] at hok
      exact h ⟨⟨Int.not_lt.mp hfd, Int.not_lt.mp hlseek, Int.not_lt.mp hok.1⟩, hok.2⟩

theorem phyAddr_eq_some (h : Readable pm virt) (hne : pm.entryOf virt ≠ 0) :
    phyAddr pm virt =
      some (wrap 64 (frame (pm.entryOf virt) * pm.pagesize + virt % pm.pagesize)) := by
  unfold phyAddr
  rw [if_neg (Int.not_lt.mpr h.fd), if_neg (Int.not_lt.mpr h.lseek), if_neg, frame_eq]
  rw [not_or]
  exact ⟨Int.not_lt.mpr h.read, hne⟩

/-- An entry that translates is not 0, and the address is exact if it fits. -/
theorem phyAddr_translates (h : Readable pm virt) (ht : Translates (pm.entryOf virt))
    (hfits : frame (pm.entryOf virt) * pm.pagesize + virt % pm.pagesize < 2 ^ 64) :
    phyAddr pm virt =
      some (frame (pm.entryOf virt) * pm.pagesize + virt % pm.pagesize) := by
  have hne : pm.entryOf virt ≠ 0 := by
    intro hzero
    apply ht.known
    rw [hzero]
    rfl
  rw [phyAddr_eq_some h hne, wrap_of_lt hfits]

/-- Only translations are returned exactly if a system call fails, or the entry is 0,
or it translates to an address of 64 bits. -/
theorem only_real_iff (pm : PageMap) (virt : Nat) :
    OnlyReal pm virt ↔ ¬ Readable pm virt ∨ pm.entryOf virt = 0 ∨
      (Translates (pm.entryOf virt) ∧
        frame (pm.entryOf virt) * pm.pagesize + virt % pm.pagesize < 2 ^ 64) := by
  constructor
  · intro h
    by_cases hread : Readable pm virt
    · by_cases hzero : pm.entryOf virt = 0
      · exact Or.inr (Or.inl hzero)
      · obtain ⟨ht, hexact⟩ := h.value _ (phyAddr_eq_some hread hzero)
        refine Or.inr (Or.inr ⟨ht, ?_⟩)
        rw [← hexact]
        exact Nat.mod_lt _ (Nat.two_pow_pos 64)
    · exact Or.inl hread
  · intro h
    by_cases hreturns : Readable pm virt ∧ pm.entryOf virt ≠ 0
    · obtain ⟨hread, hne⟩ := hreturns
      obtain ⟨ht, hfits⟩ := (h.resolve_left (not_not_intro hread)).resolve_left hne
      refine ⟨fun phys hphys => ⟨ht, ?_⟩, fun hnot => absurd ht hnot⟩
      rw [phyAddr_translates hread ht hfits] at hphys
      exact (Option.some.inj hphys).symm
    · have hnone := phyAddr_eq_none hreturns
      refine ⟨fun phys hphys => ?_, fun _ => hnone⟩
      rw [hnone] at hphys
      cases hphys

end Address

/-- Pages of 4096 bytes whose every entry reads `entry`. -/
def answering (entry : Fin (2 ^ 64)) : PageMap :=
  { fd := 3, pagesize := 4096, lseek := fun offset => offset, read := fun _ => 8
    entry := fun _ => entry, pagesize_pos := by decide }

/-- A present page whose frame number is hidden gets an address in frame 0, and a page
that is swapped out one in the frame of its swap offset. -/
theorem hidden_frame_accepted :
    (phyAddr (answering (2 ^ 63)) 0x7f0000001234 = some 0x234 ∧
      ¬ OnlyReal (answering (2 ^ 63)) 0x7f0000001234) ∧
    (phyAddr (answering (2 ^ 62 + 0x500)) 0x7f0000001234 = some 0x500234 ∧
      ¬ OnlyReal (answering (2 ^ 62 + 0x500)) 0x7f0000001234) := by
  have hidden : phyAddr (answering (2 ^ 63)) 0x7f0000001234 = some 0x234 := by decide
  have swapped : phyAddr (answering (2 ^ 62 + 0x500)) 0x7f0000001234 = some 0x500234 := by
    decide
  refine ⟨⟨hidden, fun h => ?_⟩, ⟨swapped, fun h => ?_⟩⟩
  · exact absurd (h.value _ hidden).1.known (by decide)
  · exact absurd (h.value _ swapped).1.present (by decide)

end Nvpkt.Guarantees.PageTranslation
