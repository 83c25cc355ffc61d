/- Where the item of a sample stands.
   The item of each sample is a field of one word, given by `itemAt`. So only the fields that
   samples use matter: the bits above them, and any words after the last one that is needed, make
   no difference to the items. -/

import Boosting.Proofs.Packing.RoundTrip

set_option autoImplicit false
set_option relaxedAutoImplicit false

namespace Boosting

namespace Packing

variable {items samples : Nat}

private theorem getElem?_lowFields {bits count i : Nat} (word : Word) (inside : i < count) :
    (lowFields bits word count)[i]? = some (field bits word ((count - 1 - i) * bits)) := by
  induction count generalizing i with
  | zero => exact absurd inside (Nat.not_lt_zero i)
  | succ count ih =>
    rw [lowFields]
    cases i with
    | zero => rfl
    | succ i =>
      have place : count - 1 - i = count + 1 - 1 - (i + 1) := by omega
      rw [List.getElem?_cons_succ, ih (by omega), place]

private theorem getElem?_fullWords (pos : 0 < items) (bits : Nat) (words : List Word) (i : Nat) :
    (words.flatMap fun word => lowFields bits word items)[i]? =
      words[i / items]?.map fun word => field bits word ((items - 1 - i % items) * bits) := by
  induction words generalizing i with
  | nil => simp
  | cons word words ih =>
    rw [List.flatMap_cons]
    by_cases first : i < items
    · rw [List.getElem?_append_left (by rw [length_lowFields]; exact first),
        getElem?_lowFields word first, Nat.div_eq_of_lt first, Nat.mod_eq_of_lt first,
        List.getElem?_cons_zero, Option.map_some]
    · have later : items ≤ i := Nat.le_of_not_lt first
      rw [List.getElem?_append_right (by rw [length_lowFields]; exact later), length_lowFields, ih,
        Nat.div_eq_sub_div pos later, Nat.mod_eq_sub_mod later, List.getElem?_cons_succ]

theorem lt_of_lt_available {words i : Nat} (inside : i < available words items samples) :
    words ≠ 0 ∧ i < samples ∧ i < firstCount samples items + (words - 1) * items := by
  rw [available] at inside
  split at inside
  · exact absurd inside (Nat.not_lt_zero i)
  · rename_i some
    simp only [Bool.or_eq_true, decide_eq_true_eq, not_or] at some
    obtain ⟨least, most⟩ := Nat.lt_min.mp inside
    exact ⟨some.2, least, most⟩

theorem getElem?_unpack (valid : validItems items = true) {words : List Word} {i : Nat}
    (inside : i < available words.length items samples) :
    (unpack words items samples)[i]? = some (itemAt words items samples i) := by
  obtain ⟨pos, -⟩ := (validItems_iff items).mp valid
  obtain ⟨nonempty, sampled, stored⟩ := lt_of_lt_available inside
  rw [unpack_eq valid, List.getElem?_take, if_pos sampled]
  cases words with
  | nil => exact absurd rfl nonempty
  | cons word words =>
    rw [storedItems_cons valid, itemAt]
    by_cases first : i < firstCount samples items
    · rw [List.getElem?_append_left (by rw [length_lowFields]; exact first),
        getElem?_lowFields word first, if_pos first, List.getD_cons_zero]
    · have later : firstCount samples items ≤ i := Nat.le_of_not_lt first
      have held : (i - firstCount samples items) / items < words.length := by
        rw [List.length_cons, Nat.succ_sub_one] at stored
        rw [Nat.div_lt_iff_lt_mul pos]
        omega
      rw [List.getElem?_append_right (by rw [length_lowFields]; exact later), length_lowFields,
        getElem?_fullWords pos, if_neg first, Nat.add_comm 1, List.getD_cons_succ,
        List.getElem?_eq_getElem held, Option.map_some, List.getD_eq_getElem _ _ held]

def usedBits (samples items word : Nat) : Nat :=
  (if word = 0 then firstCount samples items else items) * fieldBits items

def AgreeOnUsedBits (samples items : Nat) (words words' : List Word) : Prop :=
  ∀ j < wordCount samples items,
    (words.getD j 0#64).toNat % 2 ^ usedBits samples items j =
      (words'.getD j 0#64).toNat % 2 ^ usedBits samples items j

instance (samples items : Nat) (words words' : List Word) :
    Decidable (AgreeOnUsedBits samples items words words') :=
  inferInstanceAs (Decidable (∀ _ < _, _))

private theorem field_congr {bits shift used : Nat} (narrow : bits ≤ 64) {word word' : Word}
    (inside : shift + bits ≤ used)
    (congruent : word.toNat % 2 ^ used = word'.toNat % 2 ^ used) :
    field bits word shift = field bits word' shift := by
  have divides : 2 ^ (shift + bits) ∣ 2 ^ used := Nat.pow_dvd_pow 2 inside
  have cut : ∀ w : Word,
      w.toNat / 2 ^ shift % 2 ^ bits = w.toNat % 2 ^ used % 2 ^ (shift + bits) / 2 ^ shift := by
    intro w
    rw [Nat.mod_mod_of_dvd _ divides, pow_add, Nat.mod_mul_right_div_self]
  rw [field_eq narrow, field_eq narrow, cut, cut, congruent]

private theorem field_end_le {bits count i : Nat} (inside : i < count) :
    (count - 1 - i) * bits + bits ≤ count * bits := by
  rw [← Nat.succ_mul]
  exact Nat.mul_le_mul_right bits (by omega)

private theorem itemAt_congr (valid : validItems items = true) {words words' : List Word}
    (agree : AgreeOnUsedBits samples items words words') {i : Nat} (inside : i < samples) :
    itemAt words items samples i = itemAt words' items samples i := by
  obtain ⟨pos, -⟩ := (validItems_iff items).mp valid
  have nonempty : 0 < samples := Nat.zero_lt_of_lt inside
  rw [itemAt, itemAt]
  by_cases first : i < firstCount samples items
  · rw [if_pos first, if_pos first]
    have read : 0 < wordCount samples items := by
      rw [wordCount_eq nonempty pos]
      exact Nat.succ_pos _
    exact field_congr (fieldBits_le items) (field_end_le first) (agree 0 read)
  · -- A later word is full, so the end of the field lies below the end of all its items.
    have rest := sub_firstCount items nonempty
    have before : (i - firstCount samples items) / items < (samples - 1) / items := by
      rw [Nat.div_lt_iff_lt_mul pos, Nat.mul_comm, ← rest]
      omega
    have read : 1 + (i - firstCount samples items) / items < wordCount samples items := by
      rw [wordCount_eq nonempty pos, Nat.add_comm]
      exact Nat.succ_lt_succ before
    have full : usedBits samples items (1 + (i - firstCount samples items) / items) =
        items * fieldBits items := by
      rw [usedBits, if_neg (Nat.ne_of_gt (Nat.add_pos_left Nat.one_pos _))]
    rw [if_neg first, if_neg first]
    refine field_congr (fieldBits_le items) ?_ (agree _ read)
    rw [full]
    exact field_end_le (Nat.mod_lt _ pos)

/-- Enough words that agree in the bits that samples use hold the same items, whatever their other
bits and their number. -/
theorem unpack_congr (valid : validItems items = true) {words words' : List Word}
    (enough : wordCount samples items ≤ words.length)
    (enough' : wordCount samples items ≤ words'.length)
    (agree : AgreeOnUsedBits samples items words words') :
    unpack words items samples = unpack words' items samples := by
  obtain ⟨pos, -⟩ := (validItems_iff items).mp valid
  have all := available_eq pos enough
  have all' := available_eq pos enough'
  apply List.ext_getElem?
  intro i
  by_cases inside : i < samples
  · rw [getElem?_unpack valid (by rw [all]; exact inside),
      getElem?_unpack valid (by rw [all']; exact inside), itemAt_congr valid agree inside]
  · have length := length_unpack valid words samples
    have length' := length_unpack valid words' samples
    rw [List.getElem?_eq_none (by omega), List.getElem?_eq_none (by omega)]

end Packing

end Boosting
