/- Items to a word for a number of bins.
   Some bits hold all bins below a number exactly if they are no fewer than the bins need, and
   fields of these bits are left exactly if a word has no more items than are chosen for the
   number of bins. So the number of items that is chosen packs every list of such bins, and no
   greater number packs the largest of them. -/

import Boosting.Proofs.Packing.RoundTrip

set_option autoImplicit false
set_option relaxedAutoImplicit false

namespace Boosting

namespace Packing

variable {bins : Nat}

private theorem bitsForBins_pos (bins : Nat) : 0 < bitsForBins bins := by
  rw [bitsForBins]
  split <;> omega

private theorem bitsForBins_le_iff {width : Nat} (pos : 0 < width) :
    bitsForBins bins ≤ width ↔ bins ≤ 2 ^ width := by
  rw [bitsForBins]
  split
  · have one : 1 ≤ 2 ^ width := Nat.one_le_two_pow
    omega
  · have nonzero : bins - 1 ≠ 0 := by omega
    rw [Nat.succ_le_iff, Nat.log2_lt nonzero]
    omega

private theorem itemsForBins_eq (bounded : bins ≤ 2 ^ 64) :
    itemsForBins bins = 64 / bitsForBins bins := by
  have narrow : bitsForBins bins ≤ 64 := (bitsForBins_le_iff (by omega)).mpr bounded
  rw [itemsForBins, wordBits, Nat.min_eq_left narrow]

private theorem validItems_itemsForBins (bins : Nat) : validItems (itemsForBins bins) = true := by
  have pos := bitsForBins_pos bins
  have width : wordBits = 64 := rfl
  rw [validItems_iff, itemsForBins, width]
  constructor
  · exact Nat.div_pos (Nat.min_le_right _ _) (by omega)
  · exact Nat.div_le_self _ _

/-- Rounding down twice neither loses a bit that the bins need nor leaves room for another item. -/
private theorem bitsForBins_le_fieldBits_iff (bounded : bins ≤ 2 ^ 64) {items : Nat}
    (pos : 0 < items) :
    bitsForBins bins ≤ fieldBits items ↔ items ≤ itemsForBins bins := by
  rw [fieldBits, itemsForBins_eq bounded, wordBits, Nat.le_div_iff_mul_le pos,
    Nat.le_div_iff_mul_le (bitsForBins_pos bins), Nat.mul_comm]

private theorem le_two_pow_fieldBits_iff (bounded : bins ≤ 2 ^ 64) {items : Nat}
    (valid : validItems items = true) :
    bins ≤ 2 ^ fieldBits items ↔ items ≤ itemsForBins bins := by
  obtain ⟨pos, -⟩ := (validItems_iff items).mp valid
  rw [← bitsForBins_le_iff (fieldBits_pos valid), bitsForBins_le_fieldBits_iff bounded pos]

theorem pack_itemsForBins (bounded : bins ≤ 2 ^ 64) {list : List Nat}
    (below : ∀ bin ∈ list, bin < bins) :
    pack list (itemsForBins bins) = .ok (packFields (itemsForBins bins) list) := by
  have valid := validItems_itemsForBins bins
  refine (pack_eq_ok_iff _ _ _).mpr ⟨valid, ?_, rfl⟩
  intro bin member
  have small := below bin member
  have wide : bins ≤ 2 ^ (64 / itemsForBins bins) :=
    (le_two_pow_fieldBits_iff bounded valid).mpr le_rfl
  omega

private theorem pack_eq_error_of_mem {list : List Nat} {items bin : Nat}
    (valid : validItems items = true) (member : bin ∈ list) (wide : 2 ^ fieldBits items ≤ bin) :
    ∃ first ∈ list, pack list items = .error (.binTooWide first (fieldBits items)) := by
  have pos : 0 < 2 ^ fieldBits items := Nat.two_pow_pos _
  have exceeds : 2 ^ (64 / items) - 1 < bin := Nat.sub_one_lt_of_le pos wide
  rw [pack_eq_of_valid valid]
  cases found : list.find? fun bin => 2 ^ (64 / items) - 1 < bin with
  | none => exact absurd exceeds (by simpa using List.find?_eq_none.mp found bin member)
  | some first => exact ⟨first, List.mem_of_find?_eq_some found, rfl⟩

/-- For every number of bins that a word can hold a valid number of items is chosen, with which
every list of these bins is packed. It is the greatest: with more items to a word, every list with
the largest bin is refused. -/
theorem itemsForBins_is_greatest (bins : Nat) (bounded : bins < 2 ^ 64) :
    (1 ≤ itemsForBins bins ∧ itemsForBins bins ≤ 64) ∧
    (∀ list : List Nat, (∀ bin ∈ list, bin < bins) →
      ∃ words, pack list (itemsForBins bins) = .ok words) ∧
    (2 ≤ bins → ∀ items, itemsForBins bins < items → items ≤ 64 →
      ∀ list : List Nat, bins - 1 ∈ list →
        ∃ first ∈ list, pack list items = .error (.binTooWide first (64 / items))) := by
  refine ⟨(validItems_iff _).mp (validItems_itemsForBins bins), ?_, ?_⟩
  · intro list below
    exact ⟨_, pack_itemsForBins (Nat.le_of_lt bounded) below⟩
  · intro several items more most list member
    have valid : validItems items = true := (validItems_iff items).mpr ⟨by omega, most⟩
    have narrow : ¬ bins ≤ 2 ^ fieldBits items := by
      rw [le_two_pow_fieldBits_iff (Nat.le_of_lt bounded) valid]
      omega
    exact pack_eq_error_of_mem valid member (by omega)

theorem itemsForBins_of_nine_is_greatest :
    (9 < 2 ^ 64 ∧ 2 ≤ 9 ∧ itemsForBins 9 = 16 ∧ itemsForBins 8 = 21) ∧
      (∃ words, pack [8, 0, 7] 16 = .ok words) ∧
      ∃ first ∈ [0, 8, 7], pack [0, 8, 7] 17 = .error (.binTooWide first 3) := by
  obtain ⟨-, packs, refuses⟩ := itemsForBins_is_greatest 9 (by decide)
  exact ⟨by decide, packs [8, 0, 7] (by decide),
    refuses (by decide) 17 (by decide) (by decide) [0, 8, 7] (by decide)⟩

end Packing

end Boosting
