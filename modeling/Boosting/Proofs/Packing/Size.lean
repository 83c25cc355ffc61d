/- How many items a cursor counts.
   A cursor counts the items that are left from its place in the current word, the words ahead of
   it and its samples. It takes every word ahead for a full one. From the first read on they are,
   and the count is exact. Before it, the next word may be partial, and if the words end before
   the samples do, the fields that this word leaves unused are counted as well. -/

import Boosting.Proofs.Packing.RoundTrip

set_option autoImplicit false
set_option relaxedAutoImplicit false

namespace Boosting

namespace Packing

private theorem length_fieldsFrom (bits full : Nat) (words : List Word) :
    (fieldsFrom bits full full words).length = words.length * (full / bits + 1) := by
  cases words with
  | nil => simp [fieldsFrom]
  | cons word words =>
    rw [length_fieldsFrom_cons, List.length_cons, Nat.succ_mul]
    omega

namespace Cursor

/-- The cursor after reads that skip these numbers of items, one read after another. -/
def skim (c : Cursor) (skips : List Nat) : Cursor :=
  skips.foldl (fun c skipped => (c.nth skipped).2) c

/-- Every word that has not been started is read from its highest field on. -/
def FullAhead (c : Cursor) : Prop :=
  c.nextStart = c.fullStart

private theorem size_of_fullAhead {c : Cursor} (full : c.FullAhead) :
    c.size = c.pending.length := by
  have ahead : (fieldsFrom c.bits c.nextStart c.fullStart c.words).length =
      c.words.length * (c.fullStart / c.bits + 1) := by
    rw [full, length_fieldsFrom]
  have current :
      (if c.wordDone then [] else lowFields c.bits c.word (c.shift / c.bits + 1)).length =
      if c.wordDone then 0 else c.shift / c.bits + 1 := by
    split <;> simp
  rw [size, pending, List.length_take, stored, List.length_append, ahead, current, Nat.add_comm]

private theorem fullAhead_next {c after : Cursor} {item : Nat}
    (started : c.wordDone = true ∨ c.FullAhead)
    (reads : c.next = (some item, after)) : after.FullAhead := by
  rw [next] at reads
  split at reads
  · simp at reads
  · cases load : c.load? with
    | none => simp [load] at reads
    | some loaded =>
      simp only [load, Prod.mk.injEq] at reads
      obtain ⟨-, rfl⟩ := reads
      rw [load?] at load
      split at load
      · cases words : c.words with
        | nil => simp [words] at load
        | cons word rest =>
          simp only [words, Option.some.injEq] at load
          subst load
          rfl
      · rename_i going
        obtain rfl := Option.some.inj load
        exact started.resolve_left going

private theorem nth_of_pending_eq_nil {c : Cursor} (aligned : c.Aligned) (ended : c.pending = [])
    (skipped : Nat) : c.nth skipped = (none, c) := by
  have stays : c.next = (none, c) := by
    rcases next_spec aligned with ⟨-, stays⟩ | ⟨item, after, -, more, -⟩
    · exact stays
    · simp [ended] at more
  cases skipped with
  | zero => exact stays
  | succ skipped => rw [nth, stays]

private theorem fullAhead_nth {c : Cursor} (aligned : c.Aligned) (full : c.FullAhead)
    (skipped : Nat) :
    (c.nth skipped).2.Aligned ∧ (c.nth skipped).2.FullAhead := by
  induction skipped generalizing c with
  | zero =>
    rcases next_spec aligned with ⟨-, stays⟩ | ⟨item, after, reads, -, afterAligned⟩
    · rw [nth, stays]
      exact ⟨aligned, full⟩
    · rw [nth, reads]
      exact ⟨afterAligned, fullAhead_next (Or.inr full) reads⟩
  | succ skipped ih =>
    rcases next_spec aligned with ⟨-, stays⟩ | ⟨item, after, reads, -, afterAligned⟩
    · rw [nth, stays]
      exact ⟨aligned, full⟩
    · rw [nth, reads]
      exact ih afterAligned (fullAhead_next (Or.inr full) reads)

private theorem fullAhead_nth_of_pending {c : Cursor} (aligned : c.Aligned)
    (done : c.wordDone = true) (nonempty : c.pending ≠ []) (skipped : Nat) :
    (c.nth skipped).2.Aligned ∧ (c.nth skipped).2.FullAhead := by
  rcases next_spec aligned with ⟨ended, -⟩ | ⟨item, after, reads, -, afterAligned⟩
  · exact absurd ended nonempty
  · have full := fullAhead_next (Or.inl done) reads
    cases skipped with
    | zero =>
      rw [nth, reads]
      exact ⟨afterAligned, full⟩
    | succ skipped =>
      rw [nth, reads]
      exact fullAhead_nth afterAligned full skipped

private theorem fullAhead_skim {c : Cursor} (aligned : c.Aligned) (full : c.FullAhead)
    (skips : List Nat) :
    (c.skim skips).Aligned ∧ (c.skim skips).FullAhead := by
  induction skips generalizing c with
  | nil => exact ⟨aligned, full⟩
  | cons skipped skips ih =>
    obtain ⟨alignedAfter, fullAfter⟩ := fullAhead_nth aligned full skipped
    exact ih alignedAfter fullAfter

private theorem skim_of_pending_eq_nil {c : Cursor} (aligned : c.Aligned) (ended : c.pending = [])
    (skips : List Nat) : c.skim skips = c := by
  induction skips with
  | nil => rfl
  | cons skipped skips ih =>
    rw [skim, List.foldl_cons, nth_of_pending_eq_nil aligned ended]
    exact ih

end Cursor

section Start

variable {items samples : Nat}

private theorem min_full_words (pos : 0 < items) (nonempty : 0 < samples) {words : Nat}
    (wordsPos : 0 < words) :
    min samples (words * items) =
      min samples (firstCount samples items + (words - 1) * items) +
        if words < wordCount samples items then items - firstCount samples items else 0 := by
  have least : firstCount samples items ≤ items := firstCount_le pos
  have rest := sub_firstCount items nonempty
  have most := firstCount_le_samples items nonempty
  have first : 0 < firstCount samples items := Nat.succ_pos _
  obtain ⟨later, rfl⟩ := Nat.exists_eq_succ_of_ne_zero (Nat.ne_of_gt wordsPos)
  rw [wordCount_eq nonempty pos, Nat.succ_sub_one, Nat.succ_mul]
  rw [Nat.mul_comm] at rest
  by_cases lacking : later.succ < (samples - 1) / items + 1
  · have short : later.succ * items ≤ (samples - 1) / items * items :=
      Nat.mul_le_mul_right items (by omega)
    rw [Nat.succ_mul] at short
    rw [if_pos lacking]
    omega
  · have long : (samples - 1) / items * items ≤ later * items :=
      Nat.mul_le_mul_right items (by omega)
    rw [if_neg lacking]
    omega

end Start

namespace Cursor

section

variable {items : Nat} (valid : validItems items = true) (words : List Word) (samples : Nat)

include valid

private theorem size_start :
    (start words items samples).size = min samples (words.length * items) := by
  have pos := fieldBits_pos valid
  obtain ⟨one, -⟩ := (validItems_iff items).mp valid
  have full : items - 1 + 1 = items := Nat.sub_add_cancel one
  simp only [size, start, Nat.mul_div_cancel _ pos, full, if_true, Nat.add_zero]

private theorem length_pending_start :
    (start words items samples).pending.length = available words.length items samples := by
  rw [← items_eq_pending (aligned_start valid words samples)]
  exact length_unpack valid words samples

private theorem pending_start_eq_nil_iff :
    (start words items samples).pending = [] ↔ words = [] ∨ samples = 0 := by
  have first : 0 < firstCount samples items := Nat.succ_pos _
  rw [← List.length_eq_zero_iff, ← List.length_eq_zero_iff, length_pending_start valid, available]
  split
  · rename_i empty
    simp only [Bool.or_eq_true, decide_eq_true_eq] at empty
    exact iff_of_true rfl empty.symm
  · rename_i some
    simp only [Bool.or_eq_true, decide_eq_true_eq, not_or] at some
    omega

/-- Before the first read the first word is taken for a full one. -/
private theorem size_fresh :
    (start words items samples).size = (start words items samples).pending.length +
      if words ≠ [] ∧ words.length < wordCount samples items then
        items - firstCount samples items
      else 0 := by
  obtain ⟨pos, -⟩ := (validItems_iff items).mp valid
  rw [size_start valid, length_pending_start valid, available]
  rcases Nat.eq_zero_or_pos samples with rfl | nonempty
  · simp [wordCount_zero pos]
  · cases words with
    | nil => simp
    | cons word words =>
      have wordsPos : 0 < (word :: words).length := Nat.succ_pos _
      rw [min_full_words pos nonempty wordsPos]
      simp [Nat.ne_of_gt nonempty]

private theorem size_skim_cons (skipped : Nat) (skips : List Nat) :
    ((start words items samples).skim (skipped :: skips)).Aligned ∧
      ((start words items samples).skim (skipped :: skips)).size =
        ((start words items samples).skim (skipped :: skips)).pending.length := by
  have aligned := aligned_start valid words samples
  by_cases ended : (start words items samples).pending = []
  · -- No read gets anywhere, so the count is that of the start, where nothing is left.
    rw [skim_of_pending_eq_nil aligned ended, ended, size_start valid]
    refine ⟨aligned, ?_⟩
    rcases (pending_start_eq_nil_iff valid words samples).mp ended with rfl | rfl <;> simp
  · obtain ⟨alignedFirst, fullFirst⟩ := fullAhead_nth_of_pending aligned rfl ended skipped
    obtain ⟨alignedAfter, fullAfter⟩ := fullAhead_skim alignedFirst fullFirst skips
    exact ⟨alignedAfter, size_of_fullAhead fullAfter⟩

end

/-- Whatever has been read, a cursor counts the items that it yields before it ends, except
before the first read of too few words: then it counts the fields that the first word does not
use as well. -/
theorem size_eq_length_items_add {items : Nat} (valid : validItems items = true)
    (words : List Word) (samples : Nat) (skips : List Nat) :
    let c := (start words items samples).skim skips
    c.drain.2.next = (none, c.drain.2) ∧
      c.size = c.items.length +
        if skips = [] ∧ words ≠ [] ∧ words.length < wordCount samples items then
          items - firstCount samples items
        else 0 := by
  intro c
  cases skips with
  | nil =>
    have aligned : c.Aligned := aligned_start valid words samples
    have fresh : c.size = c.pending.length + _ := size_fresh valid words samples
    refine ⟨next_takeUpTo aligned c.length_pending_le, ?_⟩
    rw [items_eq_pending aligned, fresh]
    simp
  | cons skipped skips =>
    obtain ⟨aligned, exactly⟩ : c.Aligned ∧ c.size = c.pending.length :=
      size_skim_cons valid words samples skipped skips
    refine ⟨next_takeUpTo aligned c.length_pending_le, ?_⟩
    rw [items_eq_pending aligned, exactly]
    simp

theorem size_eq_length_items_add_of_lone_word :
    let c := start [0b101] 3 4
    validItems 3 = true ∧ c.size = c.items.length + 2 ∧
      (c.skim [0]).size = (c.skim [0]).items.length := by
  intro c
  have valid : validItems 3 = true := by decide
  obtain ⟨-, fresh⟩ := size_eq_length_items_add valid [0b101] 4 []
  obtain ⟨-, started⟩ := size_eq_length_items_add valid [0b101] 4 [0]
  exact ⟨valid, fresh, started⟩

/-- So the count is not the number of items that are left in every state that a cursor can come
to. -/
theorem not_size_eq_length_items :
    ¬ ∀ (items : Nat) (words : List Word) (samples : Nat) (skips : List Nat),
      validItems items = true →
      ((start words items samples).skim skips).size =
        ((start words items samples).skim skips).items.length := by
  intro exactly
  have exact := exactly 3 [0b101] 4 [] (by decide)
  revert exact
  decide

end Cursor

end Packing

end Boosting
