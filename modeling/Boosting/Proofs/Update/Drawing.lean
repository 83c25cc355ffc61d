/- Drawing updates.
   A supply holds a list of updates that have not been drawn. However they are drawn, one at a
   time or a register at a time, they come off the front of this list, each once. The supply of
   an acceptable batch holds the cell of each sample in the order of the samples. -/

import Boosting.Proofs.Update.Acceptance

set_option autoImplicit false
set_option relaxedAutoImplicit false

namespace Boosting

namespace UpdateSupply

def pending : UpdateSupply → List Single
  | constant update left => List.replicate left update
  | selected tensor bins => bins.pending.map fun bin => tensor.getD bin default

def Aligned : UpdateSupply → Prop
  | constant _ _ => True
  | selected _ bins => bins.Aligned

theorem next_spec {supply : UpdateSupply} (aligned : supply.Aligned) :
    (supply.pending = [] ∧ supply.next = (none, supply)) ∨
      ∃ update after, supply.next = (some update, after) ∧
        supply.pending = update :: after.pending ∧ after.Aligned := by
  cases supply with
  | constant update left =>
    cases left with
    | zero => exact Or.inl ⟨rfl, rfl⟩
    | succ left => exact Or.inr ⟨update, constant update left, rfl, rfl, trivial⟩
  | selected tensor bins =>
    rcases Packing.Cursor.next_spec aligned with ⟨empty, stays⟩ | ⟨bin, after, reads, pending, left⟩
    · refine Or.inl ⟨?_, ?_⟩
      · rw [UpdateSupply.pending, empty, List.map_nil]
      · rw [next, stays]
    · refine Or.inr ⟨tensor.getD bin default, selected tensor after, ?_, ?_, left⟩
      · rw [next, reads]
      · rw [UpdateSupply.pending, pending, List.map_cons, UpdateSupply.pending]

/-- With updates for all slots, filling replaces them by the first pending updates and draws no
other. -/
theorem fill_spec {supply : UpdateSupply} (aligned : supply.Aligned) {slots : List Single}
    (enough : slots.length ≤ supply.pending.length) :
    (fill slots supply).1 = supply.pending.take slots.length ∧
      (fill slots supply).2.pending = supply.pending.drop slots.length ∧
      (fill slots supply).2.Aligned := by
  induction slots generalizing supply with
  | nil => exact ⟨rfl, rfl, aligned⟩
  | cons slot slots ih =>
    rcases next_spec aligned with ⟨empty, -⟩ | ⟨update, after, draws, pending, afterAligned⟩
    · rw [empty] at enough
      exact absurd enough (Nat.not_succ_le_zero _)
    · rw [pending] at enough
      obtain ⟨filled, left, leftAligned⟩ := ih afterAligned (Nat.le_of_succ_le_succ enough)
      simp only [fill, draws, pending]
      exact ⟨congrArg (update :: ·) filled, left, leftAligned⟩

end UpdateSupply

namespace BinSource

variable {source : BinSource} {samples cells : Nat}

/-- Bins that can be read for every sample: a possible number of items to a word, and enough
words. -/
def Readable (source : BinSource) (samples : Nat) : Prop :=
  match source with
  | scalar => True
  | packed words items =>
    (1 ≤ items ∧ items ≤ 64) ∧ (samples + (items - 1)) / items ≤ words.length

private theorem Covers.readable (covers : source.Covers samples cells) :
    source.Readable samples := by
  cases source with
  | scalar => exact trivial
  | packed words items => exact ⟨covers.1, covers.2.1⟩

theorem supply_spec (readable : source.Readable samples) (tensor : List Single) :
    (source.supply tensor samples).Aligned ∧
      (source.supply tensor samples).pending =
        (source.bins samples).map fun bin => tensor.getD bin default := by
  cases source with
  | scalar =>
    refine ⟨trivial, ?_⟩
    rw [bins, List.map_replicate]
    rfl
  | packed words items =>
    have valid := (Packing.validItems_iff items).mpr readable.1
    have aligned := Packing.Cursor.aligned_start valid words samples
    refine ⟨aligned, ?_⟩
    simp only [supply, bins, UpdateSupply.pending, Packing.unpack,
      Packing.Cursor.items_eq_pending aligned]

end BinSource

namespace Batch

def updates (b : Batch) : List Single :=
  (b.source.bins b.samples).map fun bin => b.tensor.getD bin default

theorem length_updates {b : Batch} {loss : Loss} {needsScores : Bool}
    (acceptable : b.Acceptable loss needsScores) : b.updates.length = b.samples := by
  rw [updates, List.length_map]
  exact acceptable.bins_lt.1

theorem exists_update {b : Batch} {loss : Loss} {needsScores : Bool}
    (acceptable : b.Acceptable loss needsScores) {i : Nat} (inside : i < b.samples) :
    ∃ bin update, (b.source.bins b.samples)[i]? = some bin ∧ b.tensor[bin]? = some update ∧
      b.updates[i]? = some update := by
  obtain ⟨bins, cells⟩ := acceptable.bins_lt
  have hasBin := List.getElem?_eq_getElem (Nat.lt_of_lt_of_eq inside bins.symm)
  generalize (b.source.bins b.samples)[i] = bin at hasBin
  have inTensor := cells bin (List.mem_of_getElem? hasBin)
  have hasUpdate := List.getElem?_eq_getElem inTensor
  refine ⟨bin, b.tensor[bin], hasBin, hasUpdate, ?_⟩
  rw [updates, List.getElem?_map, hasBin, Option.map_some, List.getD_eq_getElem?_getD, hasUpdate]
  rfl

theorem supply_spec {b : Batch} {loss : Loss} {needsScores : Bool}
    (acceptable : b.Acceptable loss needsScores) (nonempty : b.samples ≠ 0) :
    b.supply.Aligned ∧ b.supply.pending = b.updates :=
  BinSource.supply_spec (acceptable.complete nonempty).bins.readable b.tensor

theorem pending_cells {b : Batch} {loss : Loss} {needsScores : Bool}
    (acceptable : b.Acceptable loss needsScores) :
    b.supply.pending.map some = (b.source.bins b.samples).map fun bin => b.tensor[bin]? := by
  have pending : b.supply.pending = b.updates := by
    by_cases empty : b.samples = 0
    · have noUpdate : b.updates = [] := List.eq_nil_of_length_eq_zero
        ((length_updates acceptable).trans empty)
      rw [noUpdate, supply, empty]
      cases b.source <;> rfl
    · exact (supply_spec acceptable empty).2
  rw [pending, updates, List.map_map]
  refine List.map_congr_left fun bin member => ?_
  have cell := acceptable.bins_lt.2 bin member
  simp only [Function.comp_apply, List.getD_eq_getElem?_getD, List.getElem?_eq_getElem cell,
    Option.getD_some]

end Batch

end Boosting
