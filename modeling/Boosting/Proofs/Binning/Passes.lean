/- Passes find the reference bin.
   Every pass of a search starts with a window that brackets the number of reached cuts: the cuts
   before the window are reached and those after it are not. The middle of the last window lies
   next to that number. -/

import Boosting.Binning.Search
import Boosting.Proofs.Binning.Reference

set_option autoImplicit false
set_option relaxedAutoImplicit false

namespace Boosting

namespace Window

/-- The window lies inside `size` indices, and a boundary `count` between them is in it or at one of
its ends. -/
structure Brackets (w : Window) (count size : Nat) : Prop where
  inside : w.high < size
  lower : w.low ≤ count
  upper : count ≤ w.high + 1

theorem isInhabited_iff (w : Window) : w.isInhabited = true ↔ (w.low : Int) ≤ w.high := by
  simp [isInhabited]

theorem low_le_middle {w : Window} (inhabited : w.isInhabited = true) : w.low ≤ w.middle := by
  have ordered := w.isInhabited_iff.mp inhabited
  unfold middle
  omega

theorem middle_le_high {w : Window} (inhabited : w.isInhabited = true) :
    (w.middle : Int) ≤ w.high := by
  have ordered := w.isInhabited_iff.mp inhabited
  unfold middle
  omega

private theorem Brackets.narrow {w : Window} {count size : Nat} (brackets : w.Brackets count size)
    (inhabited : w.isInhabited = true) {above : Bool}
    (decides : above = true ↔ w.middle < count) : (w.narrow above).Brackets count size := by
  obtain ⟨inside, lower, upper⟩ := brackets
  have most := middle_le_high inhabited
  cases above with
  | true =>
    have below := decides.mp rfl
    exact ⟨inside, below, upper⟩
  | false =>
    have notBelow : ¬ w.middle < count := fun h => Bool.false_ne_true (decides.mpr h)
    refine ⟨?_, lower, ?_⟩ <;> simp only [Window.narrow, Bool.false_eq_true, if_false] <;> omega

end Window

theorem searchPasses_ne_nil (cuts : Array Double) (value : Double) (w : Window) :
    searchPasses cuts value w ≠ [] := by
  rw [searchPasses]
  split <;> exact List.cons_ne_nil _ _

theorem binFromPasses_cons (cuts : Array Double) (value : Double) (w : Window)
    {passes : List Window} (nonempty : passes ≠ []) :
    binFromPasses cuts value (w :: passes) = binFromPasses cuts value passes := by
  obtain ⟨next, rest, rfl⟩ := List.exists_cons_of_ne_nil nonempty
  simp only [binFromPasses, List.getLast?_cons_cons]

/-- Passes over a window that brackets the number of reached cuts end beside it. -/
private theorem binFromPasses_searchPasses {cuts : Array Double} {value : Double} {count : Nat}
    (decides : ∀ i < cuts.size, cutReached cuts value i = true ↔ i < count) (w : Window)
    (inhabited : w.isInhabited = true) (brackets : w.Brackets count cuts.size) :
    binFromPasses cuts value (searchPasses cuts value w) = count + 1 := by
  induction w using searchPasses.induct cuts value with
  | case1 w next more ih =>
    have most := Window.middle_le_high inhabited
    have atMiddle := decides w.middle (by have := brackets.inside; omega)
    rw [searchPasses]
    rw [if_pos more, binFromPasses_cons cuts value w (searchPasses_ne_nil cuts value _)]
    exact ih more (brackets.narrow inhabited atMiddle)
  | case2 w next done =>
    have least := Window.low_le_middle inhabited
    have most := Window.middle_le_high inhabited
    have atMiddle := decides w.middle (by have := brackets.inside; omega)
    obtain ⟨inside, lower, upper⟩ := brackets.narrow inhabited atMiddle
    rw [Window.isInhabited_iff] at done
    rw [searchPasses]
    rw [if_neg (by rw [Window.isInhabited_iff]; exact done)]
    simp only [binFromPasses, List.getLast?_singleton]
    -- The narrowed window is empty, so the boundary is its only end.
    cases reach : cutReached cuts value w.middle with
    | true =>
      simp only [next, reach, Window.narrow, if_true] at done lower upper ⊢
      omega
    | false =>
      simp only [next, reach, Window.narrow, Bool.false_eq_true, if_false] at done lower upper ⊢
      omega

private def whole (size : Nat) : Window :=
  ⟨0, (size - 1 : Nat)⟩

private theorem whole_middle (size : Nat) : (whole size).middle = (size - 1) / 2 := by
  simp [whole, Window.middle]

private theorem firstWindow_eq (cuts : Array Double) (value : Double) :
    firstWindow cuts value =
      (whole cuts.size).narrow (cutReached cuts value (whole cuts.size).middle) := by
  rw [whole_middle]
  rfl

theorem firstWindow_isInhabited {cuts : Array Double} (enough : searchMinCuts ≤ cuts.size)
    (value : Double) : (firstWindow cuts value).isInhabited = true := by
  have three : 3 ≤ cuts.size := enough
  rw [firstWindow_eq, Window.isInhabited_iff]
  cases cutReached cuts value (whole cuts.size).middle with
  | true =>
    rw [Window.narrow, if_pos rfl, whole_middle]
    simp only [whole]
    omega
  | false =>
    rw [Window.narrow, if_neg Bool.false_ne_true, whole_middle]
    simp only [whole]
    omega

private theorem firstWindow_brackets {cuts : Array Double} {value : Double} {count : Nat}
    (nonempty : 0 < cuts.size) (atMost : count ≤ cuts.size)
    (decides : ∀ i < cuts.size, cutReached cuts value i = true ↔ i < count) :
    (firstWindow cuts value).Brackets count cuts.size := by
  have inhabited : (whole cuts.size).isInhabited = true := by
    rw [Window.isInhabited_iff]
    exact Int.natCast_nonneg _
  have brackets : (whole cuts.size).Brackets count cuts.size := by
    constructor <;> simp only [whole] <;> omega
  rw [firstWindow_eq]
  refine brackets.narrow inhabited (decides _ ?_)
  rw [whole_middle]
  omega

private theorem cutReached_toArray {cuts : List Double} (valid : ValidCuts cuts) (value : Double)
    (i : Nat) (h : i < cuts.toArray.size) :
    cutReached cuts.toArray value i = true ↔ i < reached cuts value := by
  have inside : i < cuts.length := by simpa using h
  rw [cutReached, Array.getD_eq_getD_getElem?, List.getElem?_toArray,
    List.getElem?_eq_getElem inside, Option.getD_some]
  exact valid.lessEq_iff_lt_reached value i inside

theorem searchBin_toArray {cuts : List Double} (valid : ValidCuts cuts)
    (enough : searchMinCuts ≤ cuts.length) (value : Double) :
    searchBin cuts.toArray value = referenceBin value cuts := by
  cases missing : value.isNaN with
  | true => rw [searchBin, if_pos missing, referenceBin_of_isNaN missing]
  | false =>
    have decides := cutReached_toArray valid value
    have atMost := reached_le_length cuts value
    have size : cuts.toArray.size = cuts.length := List.size_toArray
    rw [← size] at enough atMost
    have nonempty : 0 < cuts.toArray.size := Nat.lt_of_lt_of_le (by decide) enough
    have inhabited := firstWindow_isInhabited enough value
    have brackets := firstWindow_brackets nonempty atMost decides
    rw [searchBin, if_neg (Bool.eq_false_iff.mp missing), searchWindows,
      binFromPasses_searchPasses decides _ inhabited brackets, referenceBin_of_number missing]

end Boosting
