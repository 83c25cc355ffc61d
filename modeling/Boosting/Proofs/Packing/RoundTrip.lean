/- Packed bins are read back.
   Packing succeeds for a possible number of items to a word and bins that fit their fields. The
   words then hold the bins word by word, so a cursor over them yields exactly these bins and
   stops. -/

import Boosting.Proofs.Packing.Pending

set_option autoImplicit false
set_option relaxedAutoImplicit false

namespace Boosting

namespace Packing

section FirstWord

variable {samples items : Nat}

theorem firstCount_le (pos : 0 < items) : firstCount samples items ≤ items :=
  Nat.mod_lt _ pos

theorem firstCount_le_samples (items : Nat) (nonempty : 0 < samples) :
    firstCount samples items ≤ samples := by
  have rest := Nat.mod_le (samples - 1) items
  rw [firstCount]
  omega

theorem sub_firstCount (items : Nat) (nonempty : 0 < samples) :
    samples - firstCount samples items = items * ((samples - 1) / items) := by
  have split := Nat.div_add_mod (samples - 1) items
  rw [firstCount]
  omega

theorem wordCount_zero (pos : 0 < items) : wordCount 0 items = 0 := by
  rw [wordCount]
  exact Nat.div_eq_of_lt (by omega)

theorem wordCount_eq (nonempty : 0 < samples) (pos : 0 < items) :
    wordCount samples items = (samples - 1) / items + 1 := by
  have shifted : samples + (items - 1) = samples - 1 + items := by omega
  rw [wordCount, shifted, Nat.add_div_right _ pos]

theorem available_eq (pos : 0 < items) {words : Nat} (enough : wordCount samples items ≤ words) :
    available words items samples = samples := by
  rcases Nat.eq_zero_or_pos samples with empty | nonempty
  · simp [available, empty]
  · rw [wordCount_eq nonempty pos] at enough
    have later : items * ((samples - 1) / items) ≤ (words - 1) * items := by
      rw [Nat.mul_comm]
      exact Nat.mul_le_mul_right items (Nat.le_sub_one_of_lt enough)
    have rest := sub_firstCount items nonempty
    have most := firstCount_le_samples items nonempty
    have wordsSome : words ≠ 0 := Nat.ne_of_gt (Nat.lt_of_lt_of_le (Nat.succ_pos _) enough)
    simp only [available, Nat.ne_of_gt nonempty, wordsSome, decide_false, Bool.or_self,
      Bool.false_eq_true, if_false]
    exact Nat.min_eq_left (by omega)

end FirstWord

theorem packFields_of_pos {bins : List Nat} (nonempty : 0 < bins.length) (items : Nat) :
    packFields items bins =
      packWord (fieldBits items) (bins.take (firstCount bins.length items)) ::
        (segments items (bins.drop (firstCount bins.length items))).map
          (packWord (fieldBits items)) := by
  rw [packFields, if_neg]
  rw [List.isEmpty_iff_length_eq_zero]
  exact Nat.ne_of_gt nonempty

theorem length_packFields {items : Nat} (pos : 0 < items) (bins : List Nat) :
    (packFields items bins).length = wordCount bins.length items := by
  have last : (items - 1) / items = 0 := Nat.div_eq_of_lt (by omega)
  rcases Nat.eq_zero_or_pos bins.length with empty | nonempty
  · rw [List.eq_nil_of_length_eq_zero empty, wordCount, List.length_nil, Nat.zero_add, last]
    rfl
  · rw [packFields_of_pos nonempty, List.length_cons, List.length_map, length_segments pos,
      List.length_drop, sub_firstCount items nonempty, Nat.mul_add_div pos, last,
      wordCount_eq nonempty pos]

private theorem lowFields_part {items count : Nat} {bins part : List Nat}
    (fits : ∀ bin ∈ bins, bin < 2 ^ fieldBits items) (subset : part ⊆ bins)
    (length : part.length = count) (atMost : count ≤ items) :
    lowFields (fieldBits items) (packWord (fieldBits items) part) count = part := by
  subst length
  refine lowFields_packWord ?_ fun bin member => fits bin (subset member)
  exact le_trans (Nat.mul_le_mul_right _ atMost) (items_mul_fieldBits_le items)

private theorem storedItems_packFields {items : Nat} (valid : validItems items = true)
    {bins : List Nat} (fits : ∀ bin ∈ bins, bin < 2 ^ fieldBits items) :
    storedItems (packFields items bins) items bins.length = bins := by
  obtain ⟨pos, -⟩ := (validItems_iff items).mp valid
  rcases Nat.eq_zero_or_pos bins.length with empty | nonempty
  · rw [List.eq_nil_of_length_eq_zero empty]
    rfl
  · have first := lowFields_part fits (List.take_subset (firstCount bins.length items) bins)
      (List.length_take_of_le (firstCount_le_samples items nonempty)) (firstCount_le pos)
    have whole : items ∣ (bins.drop (firstCount bins.length items)).length := by
      rw [List.length_drop, sub_firstCount items nonempty]
      exact Nat.dvd_mul_right _ _
    have later : ∀ part ∈ segments items (bins.drop (firstCount bins.length items)),
        lowFields (fieldBits items) (packWord (fieldBits items) part) items = part := by
      intro part member
      refine lowFields_part fits ?_ (length_of_mem_segments whole member) le_rfl
      intro bin inPart
      apply List.drop_subset (firstCount bins.length items)
      rw [← flatten_segments pos (bins.drop (firstCount bins.length items))]
      exact List.mem_flatten.mpr ⟨part, member, inPart⟩
    rw [packFields_of_pos nonempty, storedItems_cons valid, first, List.flatMap_map,
      List.flatMap_congr later, List.flatMap_id', flatten_segments pos, List.take_append_drop]

private theorem lowMask_fieldBits_lt_iff (items bin : Nat) :
    (lowMask (fieldBits items)).toNat < bin ↔ 2 ^ (64 / items) - 1 < bin := by
  rw [toNat_lowMask (fieldBits_le items)]
  exact Iff.rfl

theorem pack_eq_of_valid {items : Nat} (valid : validItems items = true) (bins : List Nat) :
    pack bins items =
      match bins.find? fun bin => 2 ^ (64 / items) - 1 < bin with
      | some bin => .error (.binTooWide bin (64 / items))
      | none => .ok (packFields items bins) := by
  rw [pack, if_pos valid]
  simp only [lowMask_fieldBits_lt_iff]
  rfl

theorem pack_eq_ok_iff (bins : List Nat) (items : Nat) (words : List Word) :
    pack bins items = .ok words ↔
      validItems items = true ∧ (∀ bin ∈ bins, bin ≤ 2 ^ (64 / items) - 1) ∧
        packFields items bins = words := by
  cases valid : validItems items with
  | false => simp [pack, valid]
  | true =>
    rw [pack_eq_of_valid valid]
    cases wide : bins.find? fun bin => 2 ^ (64 / items) - 1 < bin with
    | some bin =>
      have member := List.mem_of_find?_eq_some wide
      have exceeds := List.find?_some wide
      simp only [decide_eq_true_eq] at exceeds
      refine iff_of_false (by simp) ?_
      rintro ⟨-, fits, -⟩
      exact absurd (fits bin member) (Nat.not_le.mpr exceeds)
    | none =>
      have fits : ∀ bin ∈ bins, bin ≤ 2 ^ (64 / items) - 1 := by
        intro bin member
        have fails := List.find?_eq_none.mp wide bin member
        simpa using fails
      constructor
      · intro packed
        exact ⟨rfl, fits, Except.ok.inj packed⟩
      · rintro ⟨-, -, fields⟩
        exact congrArg Except.ok fields

private theorem pending_start_of_pack {bins : List Nat} {items : Nat} {words : List Word}
    (packed : pack bins items = .ok words) :
    (Cursor.start words items bins.length).pending = bins := by
  obtain ⟨valid, fits, rfl⟩ := (pack_eq_ok_iff bins items words).mp packed
  have small : ∀ bin ∈ bins, bin < 2 ^ fieldBits items := by
    intro bin member
    have pos : 0 < 2 ^ (64 / items) := Nat.two_pow_pos _
    have most := fits bin member
    change bin < 2 ^ (64 / items)
    omega
  rw [pending_start, storedItems_packFields valid small, List.take_length]

theorem unpack_of_pack {bins : List Nat} {items : Nat} {words : List Word}
    (packed : pack bins items = .ok words) : unpack words items bins.length = bins := by
  obtain ⟨valid, -, -⟩ := (pack_eq_ok_iff bins items words).mp packed
  rw [unpack, Cursor.items_eq_pending (Cursor.aligned_start valid words bins.length),
    pending_start_of_pack packed]

/-- Packing succeeds exactly for one to 64 items to a word and bins that fit; else it names the
wrong number of items or the first bin that is too wide. The words are as few as possible, and
reading them yields the bins in order and then nothing more. -/
theorem pack_then_read (bins : List Nat) (items : Nat) :
    ((∃ words, pack bins items = .ok words) ↔
        (1 ≤ items ∧ items ≤ 64) ∧ ∀ bin ∈ bins, bin ≤ 2 ^ (64 / items) - 1) ∧
      (¬ (1 ≤ items ∧ items ≤ 64) → pack bins items = .error (.invalidItems items)) ∧
      (1 ≤ items ∧ items ≤ 64 →
        ∀ bin, (bins.find? fun bin => 2 ^ (64 / items) - 1 < bin) = some bin →
          pack bins items = .error (.binTooWide bin (64 / items))) ∧
      ∀ words, pack bins items = .ok words →
        words.length = (bins.length + (items - 1)) / items ∧
        ∀ count,
          ((Cursor.start words items bins.length).takeUpTo count).1 = bins.take count ∧
          (bins.length ≤ count →
            ((Cursor.start words items bins.length).takeUpTo count).2.next =
              (none, ((Cursor.start words items bins.length).takeUpTo count).2)) := by
  refine ⟨?_, ?_, ?_, ?_⟩
  · rw [← validItems_iff]
    constructor
    · rintro ⟨words, packed⟩
      obtain ⟨valid, fits, -⟩ := (pack_eq_ok_iff bins items words).mp packed
      exact ⟨valid, fits⟩
    · rintro ⟨valid, fits⟩
      exact ⟨_, (pack_eq_ok_iff bins items _).mpr ⟨valid, fits, rfl⟩⟩
  · intro outside
    rw [← validItems_iff] at outside
    rw [pack, if_neg outside]
  · intro inside bin wide
    rw [pack_eq_of_valid ((validItems_iff items).mpr inside), wide]
  · intro words packed
    obtain ⟨valid, -, fields⟩ := (pack_eq_ok_iff bins items words).mp packed
    obtain ⟨pos, -⟩ := (validItems_iff items).mp valid
    have aligned := Cursor.aligned_start valid words bins.length
    have pending := pending_start_of_pack packed
    refine ⟨?_, fun count => ⟨?_, fun enough => ?_⟩⟩
    · rw [← fields]
      exact length_packFields pos bins
    · rw [(Cursor.takeUpTo_spec aligned count).1, pending]
    · refine Cursor.next_takeUpTo aligned ?_
      rw [pending]
      exact enough

end Packing

end Boosting
