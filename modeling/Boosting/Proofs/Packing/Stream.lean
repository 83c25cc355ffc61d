/- Reads of packed words, one after another.
   Every read takes the first pending item off, also where a word ends, and at the end it changes
   nothing. So what the read of each number yields is an entry of one list, and that entry is a
   field of one word. Whether it exists depends on the words and the samples alone, not on the
   reads before it. -/

import Boosting.Proofs.Packing.Positions

set_option autoImplicit false
set_option relaxedAutoImplicit false

namespace Boosting

namespace Packing

namespace Cursor

def after (c : Cursor) : Nat → Cursor
  | 0 => c
  | reads + 1 => (c.after reads).next.2

private theorem next_pending {c : Cursor} (aligned : c.Aligned) :
    c.next.1 = c.pending.head? ∧ c.next.2.pending = c.pending.tail ∧ c.next.2.Aligned := by
  rcases next_spec aligned with ⟨ended, stays⟩ | ⟨item, rest, reads, pending, restAligned⟩
  · rw [stays, ended]
    exact ⟨rfl, rfl, aligned⟩
  · rw [reads, pending]
    exact ⟨rfl, rfl, restAligned⟩

private theorem pending_after {c : Cursor} (aligned : c.Aligned) (reads : Nat) :
    (c.after reads).Aligned ∧ (c.after reads).pending = c.pending.drop reads := by
  induction reads with
  | zero => exact ⟨aligned, List.drop_zero.symm⟩
  | succ reads ih =>
    obtain ⟨alignedBefore, before⟩ := ih
    obtain ⟨-, left, alignedAfter⟩ := next_pending alignedBefore
    refine ⟨alignedAfter, ?_⟩
    rw [after, left, before, List.tail_drop]

private theorem next_after {c : Cursor} (aligned : c.Aligned) (reads : Nat) :
    (c.after reads).next.1 = c.pending[reads]? := by
  obtain ⟨alignedAfter, left⟩ := pending_after aligned reads
  rw [(next_pending alignedAfter).1, left, List.head?_drop]

private theorem next_after_of_length_le {c : Cursor} (aligned : c.Aligned) {reads : Nat}
    (ended : c.pending.length ≤ reads) : (c.after reads).next = (none, c.after reads) := by
  obtain ⟨alignedAfter, left⟩ := pending_after aligned reads
  rw [List.drop_of_length_le ended] at left
  rcases next_spec alignedAfter with ⟨-, stays⟩ | ⟨item, rest, -, pending, -⟩
  · exact stays
  · rw [left] at pending
    cases pending

end Cursor

variable {items samples : Nat} {words : List Word}

private theorem field_getD {j : Nat} {word : Word} (hasWord : words[j]? = some word)
    (items shift : Nat) :
    field (fieldBits items) (words.getD j 0#64) shift =
      word.toNat / 2 ^ shift % 2 ^ fieldBits items := by
  rw [List.getD_eq_getElem?_getD, hasWord, Option.getD_some, field_eq (fieldBits_le items)]

private theorem getElem?_unpack_of_first (valid : validItems items = true) {i : Nat}
    (inside : i < available words.length items samples) (early : i < firstCount samples items) :
    ∃ word, words[0]? = some word ∧ (unpack words items samples)[i]? =
      some (word.toNat / 2 ^ ((firstCount samples items - 1 - i) * fieldBits items) %
        2 ^ fieldBits items) := by
  obtain ⟨nonempty, -⟩ := lt_of_lt_available inside
  have present := List.getElem?_eq_getElem (Nat.pos_of_ne_zero nonempty)
  refine ⟨_, present, ?_⟩
  rw [getElem?_unpack valid inside, itemAt, if_pos early, field_getD present]

private theorem getElem?_unpack_of_later (valid : validItems items = true) {i : Nat}
    (inside : i < available words.length items samples) (late : firstCount samples items ≤ i) :
    ∃ word, words[1 + (i - firstCount samples items) / items]? = some word ∧
      (unpack words items samples)[i]? =
        some (word.toNat /
          2 ^ ((items - 1 - (i - firstCount samples items) % items) * fieldBits items) %
            2 ^ fieldBits items) := by
  obtain ⟨pos, -⟩ := (validItems_iff items).mp valid
  obtain ⟨nonempty, -, stored⟩ := lt_of_lt_available inside
  have before : (i - firstCount samples items) / items < words.length - 1 := by
    rw [Nat.div_lt_iff_lt_mul pos]
    omega
  have held : 1 + (i - firstCount samples items) / items < words.length := by omega
  have present := List.getElem?_eq_getElem held
  refine ⟨_, present, ?_⟩
  rw [getElem?_unpack valid inside, itemAt, if_neg (Nat.not_lt.mpr late), field_getD present]

/-- A cursor over any words yields as many items as they hold for the samples, and then nothing
however often it is read. The item of the read with number `i` is a field of the first word, counted
from its highest used field down, or of the full word that lies as many words further as whole words
of items come before. -/
theorem reads_are_fields_of_words (inside : 1 ≤ items ∧ items ≤ 64) (words : List Word)
    (samples : Nat) :
    let bits := 64 / items
    let first := (samples - 1) % items + 1
    let count :=
      if samples = 0 ∨ words = [] then 0 else min samples (first + (words.length - 1) * items)
    let cursor := Cursor.start words items samples
    (unpack words items samples).length = count ∧
      (∀ i, (cursor.after i).next.1 = (unpack words items samples)[i]?) ∧
      (∀ i, count ≤ i → (cursor.after i).next = (none, cursor.after i)) ∧
      (∀ i < count, i < first → ∃ word, words[0]? = some word ∧
        (cursor.after i).next.1 = some (word.toNat / 2 ^ ((first - 1 - i) * bits) % 2 ^ bits)) ∧
      ∀ i < count, first ≤ i → ∃ word, words[1 + (i - first) / items]? = some word ∧
        (cursor.after i).next.1 =
          some (word.toNat / 2 ^ ((items - 1 - (i - first) % items) * bits) % 2 ^ bits) := by
  intro bits first count cursor
  have valid := (validItems_iff items).mpr inside
  have aligned : cursor.Aligned := Cursor.aligned_start valid words samples
  have pending : cursor.pending = unpack words items samples :=
    (Cursor.items_eq_pending aligned).symm
  have held : available words.length items samples = count := by
    simp [available, count, first, firstCount]
  have length : (unpack words items samples).length = count := by
    rw [length_unpack valid, held]
  have reads : ∀ i, (cursor.after i).next.1 = (unpack words items samples)[i]? := by
    intro i
    rw [Cursor.next_after aligned, pending]
  refine ⟨length, reads, ?_, ?_, ?_⟩
  · intro i ended
    refine Cursor.next_after_of_length_le aligned ?_
    rw [pending, length]
    exact ended
  · intro i within early
    rw [← held] at within
    rw [reads]
    exact getElem?_unpack_of_first valid within early
  · intro i within late
    rw [← held] at within
    rw [reads]
    exact getElem?_unpack_of_later valid within late

theorem reads_are_fields_of_two_words :
    let words : List Word := [0xffffffffffe00005, 0x0000040000600001]
    let cursor := Cursor.start words 3 7
    (1 ≤ 3 ∧ 3 ≤ 64) ∧ (unpack words 3 7).length = 4 ∧
      (cursor.after 0).next.1 = some 5 ∧ (cursor.after 1).next.1 = some 1 ∧
      (cursor.after 2).next.1 = some 3 ∧ (cursor.after 3).next.1 = some 1 ∧
      (cursor.after 4).next = (none, cursor.after 4) ∧
      (cursor.after 9).next = (none, cursor.after 9) := by
  intro words cursor
  have inside : 1 ≤ 3 ∧ 3 ≤ 64 := by decide
  obtain ⟨length, -, ends, early, late⟩ := reads_are_fields_of_words inside words 7
  obtain ⟨_, present, first⟩ := early 0 (by decide) (by decide)
  obtain rfl := Option.some.inj present
  obtain ⟨_, present, second⟩ := late 1 (by decide) (by decide)
  obtain rfl := Option.some.inj present
  obtain ⟨_, present, third⟩ := late 2 (by decide) (by decide)
  obtain rfl := Option.some.inj present
  obtain ⟨_, present, fourth⟩ := late 3 (by decide) (by decide)
  obtain rfl := Option.some.inj present
  exact ⟨inside, length, first, second, third, fourth, ends 4 (by decide), ends 9 (by decide)⟩

end Packing

end Boosting
