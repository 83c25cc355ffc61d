/- The fields of a word.
   A field is a digit of its word to the base `2 ^ bits`. Packing appends digits at the low end,
   so as long as all fields fit in a word, reading the low fields of a packed word gives its
   items back, and packing the low fields of a word gives back the bits that they take. -/

import Mathlib
import Boosting.Packing.Cursor
import Boosting.Packing.Encode

set_option autoImplicit false
set_option relaxedAutoImplicit false

namespace Boosting

namespace Packing

theorem validItems_iff (items : Nat) : validItems items = true ↔ 1 ≤ items ∧ items ≤ 64 := by
  simp only [validItems, Bool.and_eq_true, decide_eq_true_eq]
  exact Iff.rfl

theorem fieldBits_pos {items : Nat} (valid : validItems items = true) : 0 < fieldBits items := by
  obtain ⟨one, most⟩ := (validItems_iff items).mp valid
  exact Nat.div_pos most one

theorem items_mul_fieldBits_le (items : Nat) : items * fieldBits items ≤ 64 :=
  Nat.mul_div_le 64 items

theorem fieldBits_le (items : Nat) : fieldBits items ≤ 64 :=
  Nat.div_le_self 64 items

theorem getLsbD_lowMask {bits : Nat} (h : bits ≤ 64) (i : Nat) :
    (lowMask bits).getLsbD i = decide (i < bits) := by
  rw [lowMask, BitVec.getLsbD_ushiftRight, BitVec.getLsbD_allOnes, decide_eq_decide, wordBits]
  omega

theorem toNat_lowMask {bits : Nat} (h : bits ≤ 64) : (lowMask bits).toNat = 2 ^ bits - 1 := by
  have split : 2 ^ 64 = 2 ^ bits * 2 ^ (64 - bits) := by
    rw [← pow_add]
    congr 1
    omega
  have pos : 0 < 2 ^ (64 - bits) := Nat.two_pow_pos _
  rw [lowMask, BitVec.toNat_ushiftRight, BitVec.toNat_allOnes, Nat.shiftRight_eq_div_pow]
  change (2 ^ 64 - 1) / 2 ^ (64 - bits) = _
  rw [split, Nat.mul_comm, Nat.mul_sub_div 0 _ _ (by positivity)]
  simp

theorem field_eq {bits : Nat} (h : bits ≤ 64) (word : Word) (shift : Nat) :
    field bits word shift = word.toNat / 2 ^ shift % 2 ^ bits := by
  rw [field, BitVec.toNat_and, toNat_lowMask h, BitVec.toNat_ushiftRight,
    Nat.shiftRight_eq_div_pow, Nat.and_two_pow_sub_one_eq_mod]

private theorem field_le_lowMask (bits : Nat) (word : Word) (shift : Nat) :
    field bits word shift ≤ (lowMask bits).toNat := by
  rw [field, BitVec.toNat_and]
  exact Nat.and_le_right

private theorem field_ushiftRight (bits : Nat) (word : Word) (low shift : Nat) :
    field bits (word >>> low) shift = field bits word (low + shift) := by
  rw [field, field, BitVec.shiftRight_add]

/-- The lowest `count` fields of a word, the highest of them first. -/
def lowFields (bits : Nat) (word : Word) : Nat → List Nat
  | 0 => []
  | count + 1 => field bits word (count * bits) :: lowFields bits word count

@[simp] theorem length_lowFields (bits : Nat) (word : Word) (count : Nat) :
    (lowFields bits word count).length = count := by
  induction count with
  | zero => rfl
  | succ count ih => rw [lowFields, List.length_cons, ih]

theorem le_lowMask_of_mem_lowFields {bits : Nat} {word : Word} {count item : Nat}
    (member : item ∈ lowFields bits word count) : item ≤ (lowMask bits).toNat := by
  induction count with
  | zero => cases member
  | succ count ih =>
    rcases List.mem_cons.mp member with rfl | later
    · exact field_le_lowMask bits word _
    · exact ih later

private theorem lowFields_succ (bits : Nat) (word : Word) (count : Nat) :
    lowFields bits word (count + 1) =
      lowFields bits (word >>> bits) count ++ [field bits word 0] := by
  induction count with
  | zero => simp [lowFields]
  | succ count ih =>
    rw [lowFields, ih, lowFields, field_ushiftRight, List.cons_append, Nat.succ_mul, Nat.add_comm]

private theorem packWord_concat (bits : Nat) (items : List Nat) (item : Nat) :
    packWord bits (items ++ [item]) = packWord bits items <<< bits ||| BitVec.ofNat 64 item := by
  rw [packWord, List.foldl_append]
  rfl

/-- As long as the fields of a word suffice, packing appends a digit without loss. -/
private theorem toNat_packWord_concat {bits : Nat} {items : List Nat} {item : Nat}
    (small : (packWord bits items).toNat < 2 ^ (items.length * bits))
    (room : (items.length + 1) * bits ≤ 64) (fits : item < 2 ^ bits) :
    (packWord bits (items ++ [item])).toNat = (packWord bits items).toNat * 2 ^ bits + item := by
  have product : (packWord bits items).toNat * 2 ^ bits < 2 ^ 64 := by
    calc (packWord bits items).toNat * 2 ^ bits
      _ < 2 ^ (items.length * bits) * 2 ^ bits := Nat.mul_lt_mul_of_pos_right small (by positivity)
      _ = 2 ^ ((items.length + 1) * bits) := by rw [← pow_add, Nat.succ_mul]
      _ ≤ 2 ^ 64 := Nat.pow_le_pow_right (by norm_num) room
  have bitsLe : bits ≤ 64 := le_trans (Nat.le_mul_of_pos_left bits (Nat.succ_pos _)) room
  have itemSmall : item < 2 ^ 64 :=
    lt_of_lt_of_le fits (Nat.pow_le_pow_right (by norm_num) bitsLe)
  rw [packWord_concat, BitVec.toNat_or, BitVec.toNat_shiftLeft, BitVec.toNat_ofNat,
    Nat.mod_eq_of_lt itemSmall, Nat.shiftLeft_eq, Nat.mod_eq_of_lt product, ← Nat.shiftLeft_eq,
    ← Nat.shiftLeft_add_eq_or_of_lt fits, Nat.shiftLeft_eq]

private theorem toNat_packWord_lt {bits : Nat} {items : List Nat} (room : items.length * bits ≤ 64)
    (fits : ∀ item ∈ items, item < 2 ^ bits) :
    (packWord bits items).toNat < 2 ^ (items.length * bits) := by
  induction items using List.reverseRecOn with
  | nil => simp [packWord]
  | append_singleton items item ih =>
    rw [List.length_append, List.length_singleton] at room ⊢
    have earlier : items.length * bits ≤ 64 :=
      le_trans (Nat.mul_le_mul_right bits (Nat.le_succ _)) room
    have small := ih earlier fun x member => fits x (List.mem_append_left _ member)
    have last := fits item (by simp)
    rw [toNat_packWord_concat small room last, Nat.succ_mul, pow_add]
    calc (packWord bits items).toNat * 2 ^ bits + item
      _ < ((packWord bits items).toNat + 1) * 2 ^ bits := by rw [Nat.succ_mul]; omega
      _ ≤ 2 ^ (items.length * bits) * 2 ^ bits := Nat.mul_le_mul_right _ small

theorem lowFields_packWord {bits : Nat} {items : List Nat} (room : items.length * bits ≤ 64)
    (fits : ∀ item ∈ items, item < 2 ^ bits) :
    lowFields bits (packWord bits items) items.length = items := by
  induction items using List.reverseRecOn with
  | nil => rfl
  | append_singleton items item ih =>
    rw [List.length_append, List.length_singleton] at room ⊢
    have earlier : items.length * bits ≤ 64 :=
      le_trans (Nat.mul_le_mul_right bits (Nat.le_succ _)) room
    have earlierFits : ∀ x ∈ items, x < 2 ^ bits := fun x member =>
      fits x (List.mem_append_left _ member)
    have last := fits item (by simp)
    have bitsLe : bits ≤ 64 := le_trans (Nat.le_mul_of_pos_left bits (Nat.succ_pos _)) room
    have value := toNat_packWord_concat (toNat_packWord_lt earlier earlierFits) room last
    have rest : packWord bits (items ++ [item]) >>> bits = packWord bits items := by
      apply BitVec.eq_of_toNat_eq
      rw [BitVec.toNat_ushiftRight, value, Nat.shiftRight_eq_div_pow, Nat.add_comm,
        Nat.add_mul_div_right _ _ (Nat.two_pow_pos bits), Nat.div_eq_of_lt last, Nat.zero_add]
    have lowest : field bits (packWord bits (items ++ [item])) 0 = item := by
      rw [field_eq bitsLe, value, pow_zero, Nat.div_one, Nat.add_comm, Nat.add_mul_mod_self_right,
        Nat.mod_eq_of_lt last]
    rw [lowFields_succ, rest, lowest, ih earlier earlierFits]

private theorem toNat_packWord_lowFields {bits count : Nat} (room : count * bits ≤ 64)
    (word : Word) :
    (packWord bits (lowFields bits word count)).toNat = word.toNat % 2 ^ (count * bits) := by
  induction count generalizing word with
  | zero => simp [lowFields, packWord, Nat.mod_one]
  | succ count ih =>
    have earlier : count * bits ≤ 64 := le_trans (Nat.mul_le_mul_right bits (Nat.le_succ _)) room
    have bitsLe : bits ≤ 64 := le_trans (Nat.le_mul_of_pos_left bits (Nat.succ_pos _)) room
    have front := ih earlier (word >>> bits)
    have small : (packWord bits (lowFields bits (word >>> bits) count)).toNat <
        2 ^ ((lowFields bits (word >>> bits) count).length * bits) := by
      rw [front, length_lowFields]
      exact Nat.mod_lt _ (Nat.two_pow_pos _)
    have lowest : field bits word 0 = word.toNat % 2 ^ bits := by
      rw [field_eq bitsLe, pow_zero, Nat.div_one]
    have fits : field bits word 0 < 2 ^ bits := by
      rw [lowest]
      exact Nat.mod_lt _ (Nat.two_pow_pos _)
    rw [lowFields_succ, toNat_packWord_concat small (by rw [length_lowFields]; exact room) fits,
      front, lowest, BitVec.toNat_ushiftRight, Nat.shiftRight_eq_div_pow]
    calc word.toNat / 2 ^ bits % 2 ^ (count * bits) * 2 ^ bits + word.toNat % 2 ^ bits
      _ = word.toNat % 2 ^ bits + 2 ^ bits * (word.toNat / 2 ^ bits % 2 ^ (count * bits)) := by
        rw [Nat.mul_comm, Nat.add_comm]
      _ = word.toNat % (2 ^ bits * 2 ^ (count * bits)) := Nat.mod_mul.symm
      _ = word.toNat % 2 ^ ((count + 1) * bits) := by rw [← pow_add, Nat.succ_mul, Nat.add_comm]

theorem packWord_lowFields {bits count : Nat} (room : count * bits ≤ 64) (word : Word) :
    packWord bits (lowFields bits word count) = word &&& lowMask (count * bits) := by
  apply BitVec.eq_of_toNat_eq
  rw [toNat_packWord_lowFields room, BitVec.toNat_and, toNat_lowMask room,
    Nat.and_two_pow_sub_one_eq_mod]

end Packing

end Boosting
