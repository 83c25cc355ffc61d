/- Lists rewritten block by block.
   A loop that rewrites a list from the front leaves, at any time, the new elements up to its
   position and the old ones from there on: a splice. Each block is read from the old part and
   written at the position, so one step moves the position past the block. -/

import Boosting.Segments

set_option autoImplicit false
set_option relaxedAutoImplicit false

namespace Boosting

variable {α β γ : Type}

/-- The first `count` elements of a list, then those of another from there on. -/
def splice (count : Nat) (new old : List α) : List α :=
  new.take count ++ old.drop count

theorem splice_length {count : Nat} {new old : List α} (newLength : new.length = count)
    (oldLength : old.length = count) : splice count new old = new := by
  rw [splice, List.take_of_length_le (Nat.le_of_eq newLength),
    List.drop_of_length_le (Nat.le_of_eq oldLength), List.append_nil]

theorem excerpt_splice {start : Nat} {new : List α} (inside : start ≤ new.length) (size : Nat)
    (old : List α) : excerpt start size (splice start new old) = excerpt start size old := by
  have front : (new.take start).length = start := List.length_take_of_le inside
  rw [excerpt, excerpt, splice, List.drop_left' front]

theorem length_excerpt_eq_min (start size : Nat) (xs : List α) :
    (excerpt start size xs).length = min size (xs.length - start) := by
  rw [excerpt, List.length_take, List.length_drop]

theorem length_excerpt {start size : Nat} {xs : List α} (inside : start + size ≤ xs.length) :
    (excerpt start size xs).length = size := by
  rw [length_excerpt_eq_min]
  omega

theorem excerpt_inside {start : Nat} {xs : List α} (inside : start ≤ xs.length) (size : Nat) :
    start + (excerpt start size xs).length ≤ xs.length := by
  rw [length_excerpt_eq_min]
  omega

theorem getElem?_excerpt (start size : Nat) (xs : List α) (i : Nat) :
    (excerpt start size xs)[i]? = if i < size then xs[start + i]? else none := by
  rw [excerpt, List.getElem?_take, List.getElem?_drop]

theorem take_append_excerpt (start size : Nat) (xs : List α) :
    xs.take start ++ excerpt start size xs = xs.take (start + size) :=
  List.take_add.symm

theorem map_excerpt (f : α → β) (start size : Nat) (xs : List α) :
    (excerpt start size xs).map f = excerpt start size (xs.map f) := by
  rw [excerpt, excerpt, List.map_take, List.map_drop]

theorem overwrite_splice {start size : Nat} {new : List α} (inside : start + size ≤ new.length)
    (old : List α) :
    overwrite start (excerpt start size new) (splice start new old) =
      splice (start + size) new old := by
  have front : (new.take start).length = start := List.length_take_of_le (by omega)
  have past : (splice start new old).drop (start + size) = old.drop (start + size) := by
    rw [splice, ← List.drop_drop, List.drop_left' front, List.drop_drop]
  rw [overwrite, length_excerpt inside, past, splice, splice, List.take_left' front,
    take_append_excerpt]

theorem getElem?_eq_some_getD {xs : List α} {i : Nat} (inside : i < xs.length) (missing : α) :
    xs[i]? = some (xs.getD i missing) := by
  rw [List.getD_eq_getElem?_getD, List.getElem?_eq_getElem inside, Option.getD_some]

theorem excerpt_eq_map {start size : Nat} {xs : List α} (inside : start + size ≤ xs.length)
    (missing : α) :
    excerpt start size xs = (List.range' start size).map fun i => xs.getD i missing := by
  apply List.ext_getElem
  · rw [length_excerpt inside, List.length_map, List.length_range']
  · intro i first second
    have bound : start + i < xs.length := by
      rw [length_excerpt inside] at first
      omega
    simp only [excerpt, List.getElem_take, List.getElem_drop, List.getElem_map,
      List.getElem_range', Nat.one_mul]
    exact (List.getElem_eq_iff bound).mpr (getElem?_eq_some_getD bound missing)

theorem excerpt_map_range {start size count : Nat} (inside : start + size ≤ count) (f : Nat → α) :
    excerpt start size ((List.range count).map f) = (List.range' start size).map f := by
  apply List.ext_getElem
  · rw [length_excerpt, List.length_map, List.length_range']
    rw [List.length_map, List.length_range]
    exact inside
  · intro i first second
    simp [excerpt]

theorem zipWith_map_range' (start size : Nat) (combine : α → β → γ) (f : Nat → α) (g : Nat → β) :
    ((List.range' start size).map f).zipWith combine ((List.range' start size).map g) =
      (List.range' start size).map fun i => combine (f i) (g i) := by
  rw [List.zipWith_map, List.zipWith_self]

private theorem segmentsUpTo_nil (size count : Nat) :
    segmentsUpTo size count ([] : List α) = [] := by
  cases count <;> rfl

private theorem segmentsUpTo_one {size : Nat} (pos : 0 < size) {part : List α}
    (length : part.length = size) (count : Nat) : segmentsUpTo size (count + 1) part = [part] := by
  cases part with
  | nil => exact absurd length (Nat.ne_of_lt pos)
  | cons y part =>
    subst length
    rw [segmentsUpTo, List.take_length, List.drop_length, segmentsUpTo_nil]

private theorem segmentsUpTo_concat {size : Nat} (pos : 0 < size) {part : List α}
    (length : part.length = size) (more count : Nat) (xs : List α) (whole : size ∣ xs.length)
    (enough : xs.length ≤ count) :
    segmentsUpTo size (count + more + 1) (xs ++ part) = segmentsUpTo size count xs ++ [part] := by
  induction count generalizing xs with
  | zero =>
    obtain rfl := List.eq_nil_of_length_eq_zero (Nat.le_zero.mp enough)
    exact segmentsUpTo_one pos length _
  | succ count ih =>
    cases xs with
    | nil => exact segmentsUpTo_one pos length _
    | cons x xs =>
      have first : size ≤ (x :: xs).length := Nat.le_of_dvd (Nat.succ_pos _) whole
      have rest : size ∣ ((x :: xs).drop size).length := by
        rw [List.length_drop]
        exact Nat.dvd_sub whole (Nat.dvd_refl size)
      have fewer : ((x :: xs).drop size).length ≤ count := by
        rw [List.length_drop]
        omega
      have next := ih _ rest fewer
      rw [Nat.add_right_comm count 1 more, List.cons_append, segmentsUpTo, segmentsUpTo,
        ← List.cons_append, List.take_append_of_le_length first,
        List.drop_append_of_le_length first, next, List.cons_append]

theorem segments_concat {size : Nat} (pos : 0 < size) {xs part : List α} (whole : size ∣ xs.length)
    (length : part.length = size) : segments size (xs ++ part) = segments size xs ++ [part] := by
  obtain ⟨more, rest⟩ := Nat.exists_eq_succ_of_ne_zero (Nat.ne_of_gt pos)
  have joined : (xs ++ part).length = xs.length + more + 1 := by
    rw [List.length_append, length, rest]
    rfl
  rw [segments, joined]
  exact segmentsUpTo_concat pos length more _ xs whole (Nat.le_refl _)

end Boosting
