import Nvpkt.Guarantees.TxpktPaths

/-!
# What a successful mapping has mapped

`blk_rq_map_from_sgl` prints what `bio_add_pc_page` returned and goes on, its `offset`
advancing by what was asked for. Its return value says nothing about the segments: the
bio it hands over is the one it asked for exactly when none of them fell short
(`mapped_in_full_iff`).
-/

set_option autoImplicit false

namespace Nvpkt.Guarantees.BioMapping
open Nvpkt.Library.SegmentList Nvpkt.Library.FixedWidth
open Nvpkt.Source.KernelObjects Nvpkt.Source.TxpktOne
open Nvpkt.Guarantees.TxpktPaths

/-- The segments that the walk asks for from `offset` on, whatever it gets. -/
def requests (k : Kernel) (length : Nat) : List Sg → Nat → List Sg
  | [], _ => []
  | miter :: rest, offset =>
    if offset < length then
      let len := wrap 32 (min miter.len (length - offset))
      ⟨miter.base, if offset = 0 then wsub 32 len k.sharedInfo else len⟩ ::
        requests k length rest (wrap 32 (offset + len))
    else []

/-- Where the call returns 0, its bio holds every segment of the walk, in order and in full. -/
def MappedInFull (k : Kernel) (calls : Calls) (sgl : List Sg) (length : Nat) : Prop :=
  ∀ bio, (blkRqMapFromSgl k calls sgl length).1 = .ok bio → bio = requests k length sgl 0

section Mapping
variable (k : Kernel) (calls : Calls) (length : Nat)

/-- The segments as `bio_add_pc_page` adds them. -/
theorem bioLoop_requests (pieces : List Sg) (s : BioState) :
    (bioLoop k calls length pieces s).bio = s.bio ++
      (requests k length pieces s.offset).mapIdx fun j r =>
        ⟨r.base, calls.addPcPage (s.bio.length + j) r.len⟩ := by
  induction pieces generalizing s with
  | nil => exact (List.append_nil _).symm
  | cons miter rest ih =>
    rw [bioLoop, requests]
    by_cases hlt : s.offset < length
    · rw [if_pos hlt, if_pos hlt, ih, List.mapIdx_cons]
      simp [bioStep, Nat.add_assoc, Nat.add_comm 1]
    · rw [if_neg hlt, if_neg hlt]
      exact (List.append_nil _).symm

theorem mapped_eq_iff (reqs : List Sg) (add : Nat → Nat → Nat) :
    (reqs.mapIdx fun j r => (⟨r.base, add j r.len⟩ : Sg)) = reqs ↔
      ∀ j r, reqs[j]? = some r → add j r.len = r.len := by
  rw [List.ext_getElem?_iff]
  refine forall_congr' fun j => ?_
  rw [List.getElem?_mapIdx]
  cases hr : reqs[j]? with
  | none => simp
  | some r =>
    constructor
    · intro h r' hr'
      obtain rfl := Option.some.inj hr'
      exact congrArg Seg.len (Option.some.inj h)
    · intro h
      rw [Option.map_some, h r rfl]

end Mapping

/-- Success means that everything was mapped exactly when there is no success, or no
`bio_add_pc_page` of the walk adds less than it was asked for. -/
theorem mapped_in_full_iff (k : Kernel) (calls : Calls) (sgl : List Sg) (length : Nat) :
    MappedInFull k calls sgl length ↔ calls.bioKmalloc = false ∨ calls.appendBio ≠ none ∨
      ∀ j r, (requests k length sgl 0)[j]? = some r → calls.addPcPage j r.len = r.len := by
  have hbio := bioLoop_requests k calls length sgl ⟨0, []⟩
  simp only [List.nil_append, List.length_nil, Nat.zero_add] at hbio
  rw [← mapped_eq_iff, ← hbio, MappedInFull]
  obtain ⟨_, ⟨hkmalloc, happend, hok⟩ | ⟨hfail, e, herror⟩⟩ :=
    blkRqMapFromSgl_cases k calls sgl length
  · rw [hok, hkmalloc, happend]
    simp
  · rw [herror]
    refine ⟨fun _ => ?_, fun _ bio h => by cases h⟩
    cases hkmalloc : calls.bioKmalloc with
    | false => exact Or.inl rfl
    | true => exact Or.inr (Or.inl fun happend => hfail ⟨hkmalloc, happend⟩)

/-- `bio_add_pc_page` adds nothing of the second of three pages: the mapping returns 0. -/
theorem hole_mapped :
    ¬ MappedInFull x86_64
      { succeedingCalls [] with
        addPcPage := fun j n => if j = 1 then 0 else n
        addPcPage_le := by intro j n; split <;> omega }
      [⟨⟨3, 0⟩, 4096⟩, ⟨⟨8, 0⟩, 4096⟩, ⟨⟨5, 0⟩, 4096⟩] 12288 := by
  intro h
  have hbio := h [⟨⟨3, 0⟩, 3776⟩, ⟨⟨8, 0⟩, 0⟩, ⟨⟨5, 0⟩, 4096⟩] (by decide)
  exact absurd hbio (by decide)

end Nvpkt.Guarantees.BioMapping
