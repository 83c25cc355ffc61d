/- What a cursor has still to read.
   `Cursor.pending` lists the items that a cursor has not read yet. Reading takes them off one by
   one from the front, and a cursor without pending items stays as it is. So every sequence of
   reads, however it is grouped, runs through the list that is pending at the start: the low
   fields of the words, cut to the number of samples. -/

import Boosting.Proofs.Packing.Fields

set_option autoImplicit false
set_option relaxedAutoImplicit false

namespace Boosting

namespace Packing

/-- The fields of words of which the first is read from `start` on and the others from `full` on. -/
def fieldsFrom (bits start full : Nat) : List Word → List Nat
  | [] => []
  | word :: words =>
    lowFields bits word (start / bits + 1) ++
      words.flatMap fun later => lowFields bits later (full / bits + 1)

private theorem fieldsFrom_cons (bits start full : Nat) (word : Word) (words : List Word) :
    fieldsFrom bits start full (word :: words) =
      lowFields bits word (start / bits + 1) ++ fieldsFrom bits full full words := by
  cases words <;> rfl

theorem length_fieldsFrom_cons (bits start full : Nat) (word : Word) (words : List Word) :
    (fieldsFrom bits start full (word :: words)).length =
      start / bits + 1 + words.length * (full / bits + 1) := by
  induction words generalizing start word with
  | nil => simp [fieldsFrom]
  | cons next words ih =>
    rw [fieldsFrom_cons, List.length_append, length_lowFields, ih, List.length_cons, Nat.succ_mul]
    omega

private theorem le_lowMask_of_mem_fieldsFrom {bits start full item : Nat} {words : List Word}
    (member : item ∈ fieldsFrom bits start full words) : item ≤ (lowMask bits).toNat := by
  induction words generalizing start with
  | nil => cases member
  | cons word words ih =>
    rw [fieldsFrom_cons, List.mem_append] at member
    rcases member with first | later
    · exact le_lowMask_of_mem_lowFields first
    · exact ih later

namespace Cursor

def stored (c : Cursor) : List Nat :=
  (if c.wordDone then [] else lowFields c.bits c.word (c.shift / c.bits + 1)) ++
    fieldsFrom c.bits c.nextStart c.fullStart c.words

/-- The items that a cursor has not read. -/
def pending (c : Cursor) : List Nat :=
  c.stored.take c.remaining

structure Aligned (c : Cursor) : Prop where
  pos : 0 < c.bits
  shift : c.bits ∣ c.shift
  nextStart : c.bits ∣ c.nextStart
  fullStart : c.bits ∣ c.fullStart

theorem length_pending_le (c : Cursor) : c.pending.length ≤ c.remaining := by
  rw [pending, List.length_take]
  exact Nat.min_le_left _ _

theorem aligned_start {items : Nat} (valid : validItems items = true) (words : List Word)
    (samples : Nat) : (start words items samples).Aligned :=
  ⟨fieldBits_pos valid, Nat.dvd_zero _, Nat.dvd_mul_left _ _, Nat.dvd_mul_left _ _⟩

private theorem stored_eq_nil_of_load?_eq_none {c : Cursor} (ended : c.load? = none) :
    c.stored = [] := by
  unfold load? at ended
  split at ended
  · rename_i done
    split at ended
    · rename_i noWords
      rw [stored, if_pos done, noWords]
      rfl
    · cases ended
  · cases ended

private theorem load?_spec {c loaded : Cursor} (aligned : c.Aligned)
    (load : c.load? = some loaded) :
    loaded.wordDone = false ∧ loaded.Aligned ∧ loaded.remaining = c.remaining ∧
      loaded.stored = c.stored := by
  unfold load? at load
  split at load
  · rename_i done
    split at load
    · cases load
    · rename_i word words more
      obtain rfl := Option.some.inj load
      refine ⟨rfl, ⟨aligned.pos, aligned.nextStart, aligned.fullStart, aligned.fullStart⟩, rfl, ?_⟩
      rw [stored, stored, if_pos done, if_neg Bool.false_ne_true, more, fieldsFrom_cons]
      rfl
  · rename_i going
    obtain rfl := Option.some.inj load
    exact ⟨Bool.eq_false_iff.mpr going, aligned, rfl, rfl⟩

private theorem stored_advance {c : Cursor} (aligned : c.Aligned) (going : c.wordDone = false) :
    c.advance.Aligned ∧ c.stored = field c.bits c.word c.shift :: c.advance.stored := by
  obtain ⟨fields, shift⟩ := aligned.shift
  rw [Nat.mul_comm] at shift
  have steps : c.shift / c.bits = fields := by rw [shift, Nat.mul_div_cancel _ aligned.pos]
  refine ⟨⟨aligned.pos, Nat.dvd_sub aligned.shift (Nat.dvd_refl _), aligned.nextStart,
    aligned.fullStart⟩, ?_⟩
  rw [stored, if_neg (Bool.eq_false_iff.mp going), steps, lowFields, List.cons_append, ← shift]
  congr 1
  cases fields with
  | zero =>
    have last : c.shift = 0 := by omega
    simp [advance, stored, last, lowFields]
  | succ fields =>
    have more : ¬ c.shift = 0 := by
      rw [shift]
      exact Nat.ne_of_gt (Nat.mul_pos (Nat.succ_pos fields) aligned.pos)
    have next : (c.shift - c.bits) / c.bits = fields := by
      rw [shift, Nat.succ_mul, Nat.add_sub_cancel, Nat.mul_div_cancel _ aligned.pos]
    simp [advance, stored, more, next]

/-- Reading takes the first pending item; without one the cursor stays. -/
theorem next_spec {c : Cursor} (aligned : c.Aligned) :
    (c.pending = [] ∧ c.next = (none, c)) ∨
      ∃ item after, c.next = (some item, after) ∧ c.pending = item :: after.pending ∧
        after.Aligned := by
  rw [next, pending]
  split
  · rename_i finished
    rw [finished]
    exact Or.inl ⟨rfl, rfl⟩
  · rename_i more
    split
    · rename_i ended
      rw [stored_eq_nil_of_load?_eq_none ended]
      exact Or.inl ⟨List.take_nil, rfl⟩
    · rename_i loaded load
      obtain ⟨going, loadedAligned, sameRemaining, sameStored⟩ := load?_spec aligned load
      obtain ⟨advancedAligned, advanced⟩ := stored_advance loadedAligned going
      refine Or.inr ⟨_, _, rfl, ?_, advancedAligned⟩
      obtain ⟨rest, remaining⟩ := Nat.exists_eq_succ_of_ne_zero more
      rw [← sameStored, advanced, remaining, List.take_succ_cons]
      congr 1
      rw [pending]
      congr 1
      simp only [advance, sameRemaining, remaining, Nat.succ_sub_one]

theorem takeUpTo_spec {c : Cursor} (aligned : c.Aligned) (count : Nat) :
    (c.takeUpTo count).1 = c.pending.take count ∧
      (c.takeUpTo count).2.pending = c.pending.drop count ∧
      (c.takeUpTo count).2.Aligned := by
  induction count generalizing c with
  | zero => exact ⟨rfl, rfl, aligned⟩
  | succ count ih =>
    rcases next_spec aligned with ⟨empty, stays⟩ | ⟨item, after, reads, pending, afterAligned⟩
    · rw [empty]
      simp only [takeUpTo, stays]
      exact ⟨rfl, empty, aligned⟩
    · obtain ⟨taken, left, leftAligned⟩ := ih afterAligned
      simp only [takeUpTo, reads, pending]
      exact ⟨congrArg (item :: ·) taken, left, leftAligned⟩

theorem next_takeUpTo {c : Cursor} (aligned : c.Aligned) {count : Nat}
    (enough : c.pending.length ≤ count) :
    (c.takeUpTo count).2.next = (none, (c.takeUpTo count).2) := by
  obtain ⟨-, left, leftAligned⟩ := takeUpTo_spec aligned count
  rw [List.drop_of_length_le enough] at left
  rcases next_spec leftAligned with ⟨-, stays⟩ | ⟨item, after, -, pending, -⟩
  · exact stays
  · rw [left] at pending
    cases pending

theorem items_eq_pending {c : Cursor} (aligned : c.Aligned) : c.items = c.pending := by
  rw [items, drain, (takeUpTo_spec aligned _).1]
  exact List.take_of_length_le (length_pending_le c)

end Cursor

/-- The items that packed words store, whatever the number of samples that are used. -/
def storedItems (words : List Word) (items samples : Nat) : List Nat :=
  let bits := fieldBits items
  fieldsFrom bits ((samples - 1) % items * bits) ((items - 1) * bits) words

theorem pending_start (words : List Word) (items samples : Nat) :
    (Cursor.start words items samples).pending = (storedItems words items samples).take samples :=
  rfl

theorem unpack_eq {items : Nat} (valid : validItems items = true) (words : List Word)
    (samples : Nat) :
    unpack words items samples = (storedItems words items samples).take samples := by
  rw [unpack, Cursor.items_eq_pending (Cursor.aligned_start valid words samples), pending_start]

theorem storedItems_cons {items : Nat} (valid : validItems items = true) (word : Word)
    (words : List Word) (samples : Nat) :
    storedItems (word :: words) items samples =
      lowFields (fieldBits items) word (firstCount samples items) ++
        words.flatMap fun later => lowFields (fieldBits items) later items := by
  have pos := fieldBits_pos valid
  obtain ⟨one, -⟩ := (validItems_iff items).mp valid
  have full : items - 1 + 1 = items := Nat.sub_add_cancel one
  simp only [storedItems, fieldsFrom, Nat.mul_div_cancel _ pos, full, firstCount]

theorem le_lowMask_of_mem_unpack {items : Nat} (valid : validItems items = true)
    {words : List Word} {samples item : Nat} (member : item ∈ unpack words items samples) :
    item ≤ (lowMask (fieldBits items)).toNat := by
  rw [unpack_eq valid] at member
  exact le_lowMask_of_mem_fieldsFrom (List.mem_of_mem_take member)

theorem length_storedItems_cons {items : Nat} (valid : validItems items = true) (word : Word)
    (words : List Word) (samples : Nat) :
    (storedItems (word :: words) items samples).length =
      firstCount samples items + words.length * items := by
  rw [storedItems_cons valid, List.length_append, length_lowFields, List.length_flatMap]
  simp

theorem length_unpack {items : Nat} (valid : validItems items = true) (words : List Word)
    (samples : Nat) :
    (unpack words items samples).length = available words.length items samples := by
  rw [unpack_eq valid, List.length_take]
  cases words with
  | nil => simp [available, storedItems, fieldsFrom]
  | cons word words =>
    rw [length_storedItems_cons valid]
    rcases Nat.eq_zero_or_pos samples with noSamples | nonempty
    · simp [available, noSamples]
    · simp [available, Nat.ne_of_gt nonempty]

end Packing

end Boosting
