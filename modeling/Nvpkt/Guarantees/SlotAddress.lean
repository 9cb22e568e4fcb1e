import Nvpkt.Guarantees.PageTranslation
import Nvpkt.Guarantees.RecvLoop
import Nvpkt.Guarantees.RecvSetup
import Nvpkt.Guarantees.SlotBuffers

/-!
# One physical address for a slot

The set-up stores the physical address of a buffer's first byte in its slot. Buffers
are 2048 bytes at multiples of 2048 from a page-aligned base, and a page is a multiple
of 2048 too, so a buffer lies in one page (`same_page`) and the address describes all
of it, under any page table. No ring changes its slot count afterwards, so the receive
loop finds the same buffers (`slot_address`). The set-up finishes when every offset is an
`int` (`setUp_isSome_iff`), so whenever rings of one size fit the mapping (`setUp_finishes`).
-/

set_option autoImplicit false

namespace Nvpkt.Guarantees.SlotAddress
open Nvpkt.Library.FallibleLoop Nvpkt.Library.FixedWidth
open Nvpkt.Source Nvpkt.Guarantees
open Nvpkt.Source.Netmap Nvpkt.Source.RecvToPram Nvpkt.Source.PhyAddr
open Nvpkt.Guarantees.PageTranslation Nvpkt.Guarantees.RecvSetup

/-- A page table gives each mapped page its frame. -/
abbrev PageTable := Nat → Option Nat

/-- The physical address behind `virt`. -/
def translate (pagesize : Nat) (table : PageTable) (virt : Nat) : Option Nat :=
  (table (virt / pagesize)).map fun pfn => pfn * pagesize + virt % pagesize

/-- The page of `virt` is mapped, and the page map shows its frame. -/
structure Shown (pm : PageMap) (table : PageTable) (virt : Nat) : Prop where
  readable : Readable pm virt
  present : Present (pm.entryOf virt)
  mapped : table (virt / pm.pagesize) = some (frame (pm.entryOf virt))
  fits : (frame (pm.entryOf virt) + 1) * pm.pagesize ≤ 2 ^ 64

/-- The virtual address of an offset of the mapping, a 64-bit pointer. -/
def virtAddr (base : Nat) (buf : Int) : Nat := ((base + buf) % 2 ^ 64).toNat

/-- The environment of a process whose mapping starts at `base`. -/
def processEnv (pm : PageMap) (base nsPhyIndirect : Nat) (released : Nat → Nat → Nat) : Env where
  phyAddr := fun buf => (phyAddr pm (virtAddr base buf)).getD 0
  nsPhyIndirect := nsPhyIndirect
  released := released

/-- The page table maps the buffer of every slot. -/
def Mapped (pm : PageMap) (table : PageTable) (base : Nat) (desc : NmDesc Slot) : Prop :=
  ∀ ri ≤ desc.lastRxRing, ∀ idx < (desc.rxring ri).numSlots, ∀ buf,
    slotBuf desc ri idx = some buf → ∀ k < 2048, Shown pm table (virtAddr base buf + k)

/-- What `ptr` says about the first byte of the buffer holds for all 2048. -/
def Describes (pagesize : Nat) (table : PageTable) (virt ptr : Nat) : Prop :=
  ∀ k < 2048, translate pagesize table (virt + k) = some (ptr + k)

structure OneAddress (pm : PageMap) (table : PageTable) (base : Nat) (env : Env)
    (desc : NmDesc Slot) : Prop where
  /-- The body of the initialisation, for a slot whose offset is an `int`. -/
  stored : ∀ ri ≤ desc.lastRxRing, ∀ idx < (desc.rxring ri).numSlots, ∀ buf,
    slotBuf desc ri idx = some buf → ∀ ring, ∃ after, initSlot env desc ri ring idx = some after ∧
      Describes pm.pagesize table (virtAddr base buf) (after.slot idx).ptr
  /-- The whole initialisation. -/
  kept : ∀ rings, initNmRxRingForPhy env desc = some rings →
    ∀ ri ≤ desc.lastRxRing, ∀ idx < (desc.rxring ri).numSlots, ∃ buf,
      slotBuf desc ri idx = some buf ∧
      Describes pm.pagesize table (virtAddr base buf) ((rings ri).slot idx).ptr
  /-- Every pass of the receive loop. -/
  received : ∀ setup fuel turns r, setUp env desc = some setup →
    recvLoop fuel desc turns (fun ri => .enter (setup.rings ri)) = some r →
    ∀ ri, ∀ ring ∈ (r.rings ri).passes, pktBuf ri ring = slotBuf desc ri ring.head

/-! ## A buffer lies in one page -/

/-- A multiple of 2048 and the 2047 bytes behind it are in one page. -/
theorem same_page {pagesize virt k : Nat} (hpage : 2048 ∣ pagesize) (hpos : 0 < pagesize)
    (hvirt : 2048 ∣ virt) (hk : k < 2048) :
    (virt + k) / pagesize = virt / pagesize ∧ (virt + k) % pagesize = virt % pagesize + k := by
  have hdvd : 2048 ∣ virt % pagesize := (Nat.dvd_mod_iff hpage).mpr hvirt
  have hlt : virt % pagesize < pagesize := Nat.mod_lt _ hpos
  have hin : virt % pagesize + k < pagesize := by
    obtain ⟨m, hm⟩ := hdvd
    obtain ⟨n, hn⟩ := hpage
    omega
  have hsplit : virt + k = pagesize * (virt / pagesize) + (virt % pagesize + k) := by
    have hdiv := Nat.div_add_mod virt pagesize
    omega
  constructor
  · rw [hsplit, Nat.mul_add_div hpos, Nat.div_eq_of_lt hin, Nat.add_zero]
  · rw [hsplit, Nat.mul_add_mod, Nat.mod_eq_of_lt hin]

section Address
variable {pm : PageMap} {table : PageTable} {base virt : Nat} {desc : NmDesc Slot}

theorem Shown.phyAddr_eq (h : Shown pm table virt) :
    phyAddr pm virt = some (frame (pm.entryOf virt) * pm.pagesize + virt % pm.pagesize) := by
  have hne : pm.entryOf virt ≠ 0 := by
    intro hzero
    have hpresent := h.present
    rw [hzero, Present, Nat.zero_testBit] at hpresent
    cases hpresent
  have hmod := Nat.mod_lt virt pm.pagesize_pos
  have hfits := h.fits
  rw [Nat.add_mul] at hfits
  rw [phyAddr_eq_some h.readable hne, wrap_of_lt (by omega)]

/-- The address of the first byte describes the buffer. -/
theorem describes_phyAddr (hpage : 2048 ∣ pm.pagesize) (hvirt : 2048 ∣ virt)
    (h : Shown pm table virt) :
    Describes pm.pagesize table virt ((phyAddr pm virt).getD 0) := by
  intro k hk
  obtain ⟨hdiv, hmod⟩ := same_page hpage pm.pagesize_pos hvirt hk
  rw [translate, hdiv, hmod, h.mapped, h.phyAddr_eq, Option.map_some, Option.getD_some,
    Nat.add_assoc]

/-- Buffers start at multiples of 2048. -/
theorem slotBuf_dvd {ri idx : Nat} {buf : Int} (h : slotBuf desc ri idx = some buf) :
    (2048 : Int) ∣ buf := by
  rw [slotBuf, nmslotToBuf_eq_some] at h
  obtain ⟨_, _, _, rfl⟩ := h
  exact Int.dvd_add (Int.dvd_mul_of_dvd_left (Dvd.intro_left _ rfl)) (Dvd.intro _ rfl)

theorem virtAddr_dvd {buf : Int} (hbase : 2048 ∣ base) (hbuf : (2048 : Int) ∣ buf) :
    2048 ∣ virtAddr base buf := by
  unfold virtAddr
  omega

end Address

/-! ## No ring changes its slot count -/

section Sizes
variable {env : Env} {desc : NmDesc Slot} {ri : Nat}

theorem initRing_numSlots {ring : NetmapRing Slot} (h : initRing env desc ri = some ring) :
    ring.numSlots = (desc.rxring ri).numSlots := by
  apply foldlM_keeps (P := fun r => r.numSlots = (desc.rxring ri).numSlots) _ h rfl
  intro r idx after hpass hr
  obtain ⟨buf, -, rfl⟩ := Option.map_eq_some_iff.mp hpass
  exact hr

theorem init_numSlots {rings : Nat → NetmapRing Slot}
    (h : initNmRxRingForPhy env desc = some rings) :
    ∀ i, (rings i).numSlots = (desc.rxring i).numSlots := by
  apply foldlM_keeps
    (P := fun rings => ∀ i, (rings i).numSlots = (desc.rxring i).numSlots) _ h (fun _ => rfl)
  intro rings ri after hpass hrings i
  obtain ⟨ring, hring, rfl⟩ := Option.map_eq_some_iff.mp hpass
  by_cases hi : i = ri
  · rw [hi, Function.update_self, initRing_numSlots hring]
  · rw [Function.update_of_ne hi, hrings i]

theorem flushLoop_numSlots (ris : List Nat) (rings : Nat → NetmapRing Slot) (i : Nat) :
    ((flushLoop env ris rings).2 i).numSlots = (rings i).numSlots := by
  induction ris generalizing rings with
  | nil => rfl
  | cons ri rest ih =>
    rw [flushLoop, ih, rxsync, NetmapRing.release]
    dsimp only
    by_cases hi : i = ri
    · rw [hi, Function.update_self, NetmapRing.setHead]
    · rw [Function.update_of_ne hi]

theorem setUp_numSlots {setup : Setup} (h : setUp env desc = some setup) (i : Nat) :
    (setup.rings i).numSlots = (desc.rxring i).numSlots := by
  obtain ⟨rings, hinit, rfl⟩ := Option.map_eq_some_iff.mp h
  exact (flushLoop_numSlots _ rings i).trans (init_numSlots hinit i)

/-- The set-up of rings of one size `n` that all fit the mapping finishes. -/
theorem setUp_finishes (env : Env) {n : Nat}
    (hsize : ∀ ri ≤ desc.lastRxRing, (desc.rxring ri).numSlots = n)
    (hall : n * (desc.lastRxRing + 1) ≤ 32768) : (setUp env desc).isSome := by
  have hfits := SlotBuffers.rowsFit_of_equal hsize hall
  rw [setUp_isSome_iff]
  intro ri hri idx hidx
  rw [SlotBuffers.slotBuf_eq (hfits.in_mapping ri hri) hidx]
  rfl

end Sizes

/-! ## Runs of the receive loop -/

section Runs
variable {σ : Type} {P : Nat → RxRing σ → Prop} {fuel : Nat}

/-- The kernel's arrivals and the passes are all that happens to a ring. -/
structure Kept (P : Nat → RxRing σ → Prop) : Prop where
  arrive : ∀ ri x s, P ri x → P ri (x.arrive s)
  pass : ∀ ri x, P ri x → P ri (recvSlot x)

theorem Kept.arriveAll (h : Kept P) (arrivals : Nat → List σ) {rings : Nat → RxRing σ}
    (hrings : ∀ ri, P ri (rings ri)) (ri : Nat) : P ri (arriveAll arrivals rings ri) :=
  List.foldlRecOn _ _ (hrings ri) fun x hx s _ => h.arrive ri x s hx

theorem Kept.recvRing (h : Kept P) {ri : Nat} {x y : RxRing σ} (hrun : recvRing fuel x = some y)
    (hx : P ri x) : P ri y := by
  induction fuel generalizing x with
  | zero =>
    unfold RecvToPram.recvRing at hrun
    split at hrun
    · obtain rfl := Option.some.inj hrun
      exact hx
    · cases hrun
  | succ fuel ih =>
    unfold RecvToPram.recvRing at hrun
    split at hrun
    · obtain rfl := Option.some.inj hrun
      exact hx
    · exact ih hrun (h.pass ri x hx)

theorem Kept.recvRings (h : Kept P) {ris : List Nat} {rings after : Nat → RxRing σ}
    (hrun : recvRings fuel ris rings = some after) (hrings : ∀ ri, P ri (rings ri)) :
    ∀ ri, P ri (after ri) := by
  induction ris generalizing rings with
  | nil =>
    obtain rfl := Option.some.inj hrun
    exact hrings
  | cons ri rest ih =>
    obtain ⟨x, hx, hrest⟩ := Option.bind_eq_some_iff.mp hrun
    refine ih hrest fun j => ?_
    by_cases hj : j = ri
    · rw [hj, Function.update_self]
      exact h.recvRing hx (hrings ri)
    · rw [Function.update_of_ne hj]
      exact hrings j

/-- What arrivals and passes keep holds after any number of turns. -/
theorem Kept.recvLoop (h : Kept P) {desc : NmDesc σ} {turns : List (Turn σ)}
    {rings : Nat → RxRing σ} {r : Received σ} (hrun : recvLoop fuel desc turns rings = some r)
    (hrings : ∀ ri, P ri (rings ri)) : ∀ ri, P ri (r.rings ri) := by
  induction turns generalizing rings with
  | nil =>
    obtain rfl := Option.some.inj hrun
    exact hrings
  | cons turn later ih =>
    have hsynced := h.arriveAll turn.syncArrivals hrings
    have hpolled := h.arriveAll turn.pollArrivals hsynced
    unfold RecvToPram.recvLoop at hrun
    dsimp only at hrun
    split at hrun
    · obtain rfl := Option.some.inj hrun
      exact hsynced
    split at hrun
    · obtain rfl := Option.some.inj hrun
      exact hpolled
    obtain ⟨after, hturn, hlater⟩ := Option.bind_eq_some_iff.mp hrun
    exact ih hlater (h.recvRings hturn hpolled)

/-- The slot count of a ring, now and at every pass. -/
structure Sized (n : Nat) (x : RxRing σ) : Prop where
  ring : x.ring.numSlots = n
  passes : ∀ ring ∈ x.passes, ring.numSlots = n

theorem sized_kept (size : Nat → Nat) : Kept fun ri (x : RxRing σ) => Sized (size ri) x := by
  constructor
  · intro ri x s h
    unfold RxRing.arrive
    split
    · exact ⟨(RecvLoop.publish_numSlots x.ring s).trans h.ring, h.passes⟩
    · exact h
  · intro ri x h
    exact ⟨h.ring, List.forall_mem_append.mpr ⟨h.passes, List.forall_mem_singleton.mpr h.ring⟩⟩

end Runs

/-- For every page table that maps the buffers, every page size and base: the address
stored for a slot is that of each byte of its buffer, and the receive loop computes the
buffers of the initialisation. -/
theorem slot_address (pm : PageMap) (table : PageTable) (base nsPhyIndirect : Nat)
    (released : Nat → Nat → Nat) (desc : NmDesc Slot) (hpage : 2048 ∣ pm.pagesize)
    (hbase : pm.pagesize ∣ base) (hmap : Mapped pm table base desc) :
    OneAddress pm table base (processEnv pm base nsPhyIndirect released) desc := by
  have hdescribes : ∀ ri ≤ desc.lastRxRing, ∀ idx < (desc.rxring ri).numSlots, ∀ buf,
      slotBuf desc ri idx = some buf → Describes pm.pagesize table (virtAddr base buf)
        ((processEnv pm base nsPhyIndirect released).phyAddr buf) := by
    intro ri hri idx hidx buf hbuf
    have hvirt := virtAddr_dvd (Nat.dvd_trans hpage hbase) (slotBuf_dvd hbuf)
    exact describes_phyAddr hpage hvirt (hmap ri hri idx hidx buf hbuf 0 (by decide))
  constructor
  · intro ri hri idx hidx buf hbuf ring
    have hdone : initSlot (processEnv pm base nsPhyIndirect released) desc ri ring idx = some _ :=
      Option.map_eq_some_iff.mpr ⟨buf, hbuf, rfl⟩
    refine ⟨_, hdone, ?_⟩
    obtain ⟨⟨buf', hbuf', hptr⟩, -⟩ := initSlot_slot hdone
    rw [hptr]
    exact Option.some.inj (hbuf.symm.trans hbuf') ▸ hdescribes ri hri idx hidx buf hbuf
  · intro rings hinit ri hri idx hidx
    obtain ⟨buf, hbuf, hptr⟩ := init_addressed hinit hri idx hidx
    exact ⟨buf, hbuf, hptr ▸ hdescribes ri hri idx hidx buf hbuf⟩
  · intro setup fuel turns r hsetup hrun ri ring hring
    have hsized := (sized_kept fun ri => (desc.rxring ri).numSlots).recvLoop hrun
      fun ri => ⟨setUp_numSlots hsetup ri, fun ring h => absurd h List.not_mem_nil⟩
    rw [pktBuf, slotBuf, (hsized ri).passes ring hring]

/-- Pages of 4096 bytes, each in the frame of its own number. -/
def identityTable : PageTable := fun page => some (page % 2 ^ 40)

def identityMap : PageMap :=
  { fd := 3, pagesize := 2 ^ 12, lseek := fun offset => offset, read := fun _ => 8
    entry := fun offset => ⟨2 ^ 63 + offset / 8 % 2 ^ 40, by omega⟩, pagesize_pos := by decide }

theorem identity_shown (virt : Nat) : Shown identityMap identityTable virt := by
  have hentry : identityMap.entryOf virt = 2 ^ 63 + virt / 4096 % 2 ^ 40 := by
    show 2 ^ 63 + virt / 4096 * 8 % 2 ^ 64 / 8 % 2 ^ 40 = _
    omega
  have hframe : frame (identityMap.entryOf virt) = virt / 4096 % 2 ^ 40 := by
    rw [hentry, frame]
    omega
  refine ⟨⟨by decide, Int.natCast_nonneg _, (by decide : (1 : Int) ≤ 8)⟩, ?_, ?_, ?_⟩
  · have hlow : (virt / 4096 % 2 ^ 40).testBit 63 = false :=
      Nat.testBit_lt_two_pow (by omega)
    rw [Present, hentry, Nat.testBit_two_pow_add_eq, hlow]
    rfl
  · rw [hframe]
    rfl
  · rw [hframe]
    show (_ + 1) * 4096 ≤ _
    omega

theorem slot_address_identity : OneAddress identityMap identityTable 0x7f0000000000
    (processEnv identityMap 0x7f0000000000 0x20 fun _ _ => 0) (releasedRings 1 (by decide)) :=
  slot_address identityMap identityTable 0x7f0000000000 0x20 (fun _ _ => 0)
    (releasedRings 1 (by decide)) (by decide) (by decide)
    fun _ _ _ _ buf _ k _ => identity_shown (virtAddr 0x7f0000000000 buf + k)

end Nvpkt.Guarantees.SlotAddress
