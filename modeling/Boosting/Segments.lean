/- Parts of lists.
   `segments n xs` cuts a list into consecutive segments of `n` elements; the last one holds what
   is left. A single part is read by `excerpt` and written by `overwrite`. -/

set_option autoImplicit false
set_option relaxedAutoImplicit false

namespace Boosting

variable {α : Type}

def segmentsUpTo (size : Nat) : Nat → List α → List (List α)
  | 0, _ => []
  | _, [] => []
  | count + 1, x :: xs => (x :: xs).take size :: segmentsUpTo size count ((x :: xs).drop size)

def segments (size : Nat) (xs : List α) : List (List α) :=
  segmentsUpTo size xs.length xs

/-- The `size` elements of a list from `start` on. -/
def excerpt (start size : Nat) (xs : List α) : List α :=
  (xs.drop start).take size

/-- The list with `piece` written over it from `start` on. -/
def overwrite (start : Nat) (piece whole : List α) : List α :=
  whole.take start ++ piece ++ whole.drop (start + piece.length)

private theorem flatten_segmentsUpTo {size : Nat} (pos : 0 < size) :
    ∀ (count : Nat) (xs : List α), xs.length ≤ count → (segmentsUpTo size count xs).flatten = xs
  | 0, [], _ => rfl
  | _ + 1, [], _ => rfl
  | count + 1, x :: xs, h => by
    have shorter : ((x :: xs).drop size).length ≤ count := by
      simp only [List.length_drop, List.length_cons] at h ⊢
      omega
    rw [segmentsUpTo, List.flatten_cons, flatten_segmentsUpTo pos count _ shorter,
      List.take_append_drop]

theorem flatten_segments {size : Nat} (pos : 0 < size) (xs : List α) :
    (segments size xs).flatten = xs :=
  flatten_segmentsUpTo pos _ _ (Nat.le_refl _)

private theorem segmentsUpTo_flatten {size : Nat} (pos : 0 < size) :
    ∀ (count : Nat) (parts : List (List α)), parts.flatten.length ≤ count →
      (∀ part ∈ parts, part.length = size) → segmentsUpTo size count parts.flatten = parts
  | 0, [], _, _ => rfl
  | _ + 1, [], _, _ => rfl
  | count, part :: parts, enough, equal => by
    obtain ⟨first, others⟩ := List.forall_mem_cons.mp equal
    rw [List.flatten_cons] at enough ⊢
    cases part with
    | nil => exact absurd first (Nat.ne_of_lt pos)
    | cons x xs =>
      cases count with
      | zero => cases enough
      | succ count =>
        have shorter : parts.flatten.length ≤ count := by
          rw [List.length_append, List.length_cons] at enough
          omega
        rw [List.cons_append, segmentsUpTo, ← List.cons_append, List.take_left' first,
          List.drop_left' first, segmentsUpTo_flatten pos count parts shorter others]

theorem segments_flatten {size : Nat} (pos : 0 < size) {parts : List (List α)}
    (equal : ∀ part ∈ parts, part.length = size) : segments size parts.flatten = parts :=
  segmentsUpTo_flatten pos _ _ (Nat.le_refl _) equal

private theorem length_of_mem_segmentsUpTo {size : Nat} {part : List α} :
    ∀ (count : Nat) (xs : List α), size ∣ xs.length → part ∈ segmentsUpTo size count xs →
      part.length = size
  | 0, _, _, member => by cases member
  | _ + 1, [], _, member => by cases member
  | count + 1, x :: xs, whole, member => by
    have enough : size ≤ (x :: xs).length := Nat.le_of_dvd (Nat.succ_pos _) whole
    rcases List.mem_cons.mp member with rfl | later
    · rw [List.length_take, Nat.min_eq_left enough]
    · refine length_of_mem_segmentsUpTo count _ ?_ later
      rw [List.length_drop]
      exact Nat.dvd_sub whole (Nat.dvd_refl size)

theorem length_of_mem_segments {size : Nat} {xs part : List α} (whole : size ∣ xs.length)
    (member : part ∈ segments size xs) : part.length = size :=
  length_of_mem_segmentsUpTo _ _ whole member

private theorem length_segmentsUpTo {size : Nat} (pos : 0 < size) :
    ∀ (count : Nat) (xs : List α), xs.length ≤ count →
      (segmentsUpTo size count xs).length = (xs.length + (size - 1)) / size
  | 0, [], _ => by
    have noSegment : (0 + (size - 1)) / size = 0 := Nat.div_eq_of_lt (by omega)
    exact noSegment.symm
  | _ + 1, [], _ => by
    have noSegment : (0 + (size - 1)) / size = 0 := Nat.div_eq_of_lt (by omega)
    exact noSegment.symm
  | count + 1, x :: xs, h => by
    have shorter : ((x :: xs).drop size).length ≤ count := by
      simp only [List.length_drop, List.length_cons] at h ⊢
      omega
    rw [segmentsUpTo, List.length_cons, length_segmentsUpTo pos count _ shorter, List.length_drop,
      ← Nat.add_div_right _ pos]
    rcases Nat.le_total size (x :: xs).length with full | partly
    · congr 1
      omega
    · rw [Nat.sub_eq_zero_of_le partly, Nat.zero_add]
      have one : (size - 1 + size) / size = 1 := Nat.div_eq_of_lt_le (by omega) (by omega)
      rw [one]
      refine (Nat.div_eq_of_lt_le ?_ ?_).symm <;> simp only [List.length_cons] at * <;> omega

theorem length_segments {size : Nat} (pos : 0 < size) (xs : List α) :
    (segments size xs).length = (xs.length + (size - 1)) / size :=
  length_segmentsUpTo pos _ _ (Nat.le_refl _)

end Boosting
