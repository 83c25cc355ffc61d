/- Packing what was read.
   As many words as some samples take are read and their items packed again. Every item comes
   from its own field and returns to it, so the words come back with the bits that no item takes
   cleared. Nothing more is lost: words that have these bits clear come back as they are, and a
   second round changes nothing. -/

import Boosting.Proofs.Packing.Positions

set_option autoImplicit false
set_option relaxedAutoImplicit false

namespace Boosting

namespace Packing

def keepUsedBits (samples items : Nat) (words : List Word) : List Word :=
  words.mapIdx fun j word => word &&& lowMask (usedBits samples items j)

section KeepUsedBits

variable {items samples : Nat} {words : List Word}

private theorem usedBits_le (pos : 0 < items) (samples j : Nat) :
    usedBits samples items j ≤ 64 := by
  have most : (if j = 0 then firstCount samples items else items) ≤ items := by
    split
    · exact firstCount_le pos
    · exact le_rfl
  exact le_trans (Nat.mul_le_mul_right _ most) (items_mul_fieldBits_le items)

private theorem length_keepUsedBits : (keepUsedBits samples items words).length = words.length :=
  List.length_mapIdx

private theorem getElem?_keepUsedBits {j : Nat} {word : Word} (hasWord : words[j]? = some word) :
    (keepUsedBits samples items words)[j]? =
      some (word &&& lowMask (usedBits samples items j)) := by
  rw [keepUsedBits, List.getElem?_mapIdx, hasWord, Option.map_some]

private theorem keepUsedBits_keepUsedBits :
    keepUsedBits samples items (keepUsedBits samples items words) =
      keepUsedBits samples items words := by
  rw [keepUsedBits, keepUsedBits, List.mapIdx_mapIdx]
  congr 1
  funext j word
  rw [Function.comp_apply, BitVec.and_assoc, BitVec.and_self]

private theorem keepUsedBits_of_clear (pos : 0 < items)
    (clear : ∀ (j : Nat) word, words[j]? = some word → word.toNat < 2 ^ usedBits samples items j) :
    keepUsedBits samples items words = words := by
  apply List.ext_getElem?
  intro j
  cases hasWord : words[j]? with
  | none => rw [keepUsedBits, List.getElem?_mapIdx, hasWord, Option.map_none]
  | some word =>
    rw [getElem?_keepUsedBits hasWord]
    apply congrArg some
    apply BitVec.eq_of_toNat_eq
    rw [BitVec.toNat_and, toNat_lowMask (usedBits_le pos samples j), Nat.and_two_pow_sub_one_eq_mod,
      Nat.mod_eq_of_lt (clear j word hasWord)]

private theorem keepUsedBits_cons (word : Word) (words : List Word) :
    keepUsedBits samples items (word :: words) =
      (word &&& lowMask (firstCount samples items * fieldBits items)) ::
        words.map fun later => later &&& lowMask (items * fieldBits items) := by
  rw [keepUsedBits, List.mapIdx_cons]
  refine congrArg₂ List.cons (by simp [usedBits]) ?_
  apply List.ext_getElem?
  intro j
  rw [List.getElem?_mapIdx, List.getElem?_map]
  simp [usedBits]

end KeepUsedBits

section Repack

variable {items samples : Nat} {word : Word} {words : List Word}

private theorem pos_of_wordCount (pos : 0 < items)
    (count : (word :: words).length = wordCount samples items) :
    0 < samples := by
  rcases Nat.eq_zero_or_pos samples with rfl | nonempty
  · rw [wordCount_zero pos] at count
    cases count
  · exact nonempty

private theorem unpack_cons (valid : validItems items = true)
    (count : (word :: words).length = wordCount samples items) :
    unpack (word :: words) items samples =
      lowFields (fieldBits items) word (firstCount samples items) ++
        (words.map fun later => lowFields (fieldBits items) later items).flatten := by
  obtain ⟨pos, -⟩ := (validItems_iff items).mp valid
  have nonempty := pos_of_wordCount pos count
  have most := firstCount_le_samples items nonempty
  have rest := sub_firstCount items nonempty
  rw [wordCount_eq nonempty pos, List.length_cons, Nat.add_right_cancel_iff] at count
  have all : (storedItems (word :: words) items samples).length ≤ samples := by
    rw [length_storedItems_cons valid, count, Nat.mul_comm]
    omega
  rw [unpack_eq valid, List.take_of_length_le all, storedItems_cons valid, List.flatMap_def]

private theorem packWord_part {count : Nat} (fits : count ≤ items) (word : Word) :
    packWord (fieldBits items) (lowFields (fieldBits items) word count) =
      word &&& lowMask (count * fieldBits items) :=
  packWord_lowFields (le_trans (Nat.mul_le_mul_right _ fits) (items_mul_fieldBits_le items)) word

private theorem packFields_unpack (valid : validItems items = true)
    (count : words.length = wordCount samples items) :
    packFields items (unpack words items samples) = keepUsedBits samples items words := by
  obtain ⟨pos, -⟩ := (validItems_iff items).mp valid
  have length := length_unpack valid words samples
  rw [available_eq pos (le_of_eq count.symm)] at length
  cases words with
  | nil =>
    have noItem : unpack [] items samples = [] := by
      rw [unpack_eq valid]
      exact List.take_nil
    rw [noItem]
    rfl
  | cons word words =>
    have nonempty := pos_of_wordCount pos count
    have equal : ∀ part ∈ words.map fun later => lowFields (fieldBits items) later items,
        part.length = items := by
      intro part member
      obtain ⟨later, -, rfl⟩ := List.mem_map.mp member
      exact length_lowFields _ _ _
    rw [packFields_of_pos (by omega), length, unpack_cons valid count,
      List.take_left' (length_lowFields _ _ _), List.drop_left' (length_lowFields _ _ _),
      segments_flatten pos equal, packWord_part (firstCount_le pos), List.map_map,
      keepUsedBits_cons]
    congr 1
    refine List.map_congr_left fun later _ => ?_
    exact packWord_part le_rfl later

private theorem pack_unpack (valid : validItems items = true)
    (count : words.length = wordCount samples items) :
    pack (unpack words items samples) items = .ok (keepUsedBits samples items words) := by
  refine (pack_eq_ok_iff _ _ _).mpr ⟨valid, ?_, packFields_unpack valid count⟩
  intro bin member
  have fits := le_lowMask_of_mem_unpack valid member
  rw [toNat_lowMask (fieldBits_le items)] at fits
  exact fits

/-- As many words as samples take can be read and their items packed again for any number of items
that a word holds. In each word exactly the bits that its items take are kept. So words without
other bits come back as they are, and reading and packing once more gives the same words. -/
theorem pack_unpack_keeps_used_bits (inside : 1 ≤ items ∧ items ≤ 64)
    (count : words.length = (samples + (items - 1)) / items) :
    let used (j : Nat) : Nat := (if j = 0 then (samples - 1) % items + 1 else items) * (64 / items)
    ∃ again, pack (unpack words items samples) items = .ok again ∧
      again.length = words.length ∧
      (∀ (j : Nat) word, words[j]? = some word → ∃ kept, again[j]? = some kept ∧
        ∀ bit, kept.getLsbD bit = (decide (bit < used j) && word.getLsbD bit)) ∧
      ((∀ (j : Nat) word, words[j]? = some word → word.toNat < 2 ^ used j) → again = words) ∧
      pack (unpack again items samples) items = .ok again := by
  intro used
  have valid := (validItems_iff items).mpr inside
  refine ⟨keepUsedBits samples items words, pack_unpack valid count, length_keepUsedBits, ?_, ?_,
    ?_⟩
  · intro j word hasWord
    refine ⟨_, getElem?_keepUsedBits hasWord, fun bit => ?_⟩
    rw [BitVec.getLsbD_and, getLsbD_lowMask (usedBits_le inside.1 samples j), Bool.and_comm]
    rfl
  · exact keepUsedBits_of_clear inside.1
  · have length : (keepUsedBits samples items words).length = wordCount samples items := by
      rw [length_keepUsedBits]
      exact count
    rw [pack_unpack valid length, keepUsedBits_keepUsedBits]

theorem pack_unpack_keeps_used_bits_of_two_words :
    let words : List Word := [0xffffffffffe00005, 0x8000040000600001]
    let kept : List Word := [0x0000000000000005, 0x0000040000600001]
    (1 ≤ 3 ∧ 3 ≤ 64) ∧ words.length = (4 + (3 - 1)) / 3 ∧
      pack (unpack words 3 4) 3 = .ok kept ∧ pack (unpack kept 3 4) 3 = .ok kept := by
  intro words kept
  have inside : 1 ≤ 3 ∧ 3 ≤ 64 := by decide
  have count : words.length = (4 + (3 - 1)) / 3 := by decide
  obtain ⟨again, packed, -, -, -, fixed⟩ := pack_unpack_keeps_used_bits inside count
  have known : pack (unpack words 3 4) 3 = .ok kept := by decide
  obtain rfl : again = kept := Except.ok.inj (packed.symm.trans known)
  exact ⟨inside, count, known, fixed⟩

end Repack

end Packing

end Boosting
