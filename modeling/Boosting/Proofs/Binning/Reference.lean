/- Counting the cuts at or below a value.
   Valid cuts are sorted, so the cuts that do not exceed a value come before all others. The bin
   of a value, defined by counting, is therefore also a position: a cut is reached exactly if its
   index lies below the number of reached cuts. All searches rest on this. -/

import Boosting.Binning.Cuts
import Boosting.Proofs.Binary.Order

set_option autoImplicit false
set_option relaxedAutoImplicit false

namespace Boosting

private theorem countP_eq_zero_of_head {α : Type} {p : α → Bool} {x : α} {xs : List α}
    (downward : ∀ y ∈ xs, p y = true → p x = true) (fails : p x = false) : xs.countP p = 0 := by
  rw [List.countP_eq_zero]
  intro y member holds
  rw [downward y member holds] at fails
  cases fails

/-- A predicate that passes from later elements to earlier ones holds of an initial part, whose
length is its count. -/
private theorem getElem_iff_lt_countP {α : Type} {p : α → Bool} {xs : List α}
    (downward : xs.Pairwise fun x y => p y = true → p x = true) (i : Nat) (h : i < xs.length) :
    p xs[i] = true ↔ i < xs.countP p := by
  induction xs generalizing i with
  | nil => simp at h
  | cons x xs ih =>
    obtain ⟨head, tail⟩ := List.pairwise_cons.mp downward
    cases holds : p x with
    | false =>
      have noLater := countP_eq_zero_of_head head holds
      have fails : ∀ y ∈ x :: xs, ¬ p y = true := by
        rw [← List.countP_eq_zero, List.countP_cons, noLater, holds]
        rfl
      rw [List.countP_eq_zero.mpr fails]
      exact iff_of_false (fails _ (List.getElem_mem h)) (Nat.not_lt_zero i)
    | true =>
      rw [List.countP_cons_of_pos holds]
      cases i with
      | zero => simp [holds]
      | succ i =>
        have rest := ih tail i (by simpa using h)
        rw [List.getElem_cons_succ, rest]
        omega

def reached (cuts : List Double) (value : Double) : Nat :=
  cuts.countP fun cut => cut.lessEq value

theorem reached_le_length (cuts : List Double) (value : Double) :
    reached cuts value ≤ cuts.length :=
  List.countP_le_length

theorem referenceBin_of_isNaN {value : Double} (missing : value.isNaN = true)
    (cuts : List Double) : referenceBin value cuts = 0 := by
  rw [referenceBin, if_pos missing]

theorem referenceBin_of_number {value : Double} (number : value.isNaN = false)
    (cuts : List Double) : referenceBin value cuts = reached cuts value + 1 := by
  rw [referenceBin, if_neg (Bool.eq_false_iff.mp number), reached, Nat.add_comm]

theorem referenceBin_le (value : Double) (cuts : List Double) :
    referenceBin value cuts ≤ cuts.length + 1 := by
  cases missing : value.isNaN with
  | true => rw [referenceBin_of_isNaN missing]; exact Nat.zero_le _
  | false =>
    rw [referenceBin_of_number missing]
    exact Nat.succ_le_succ (reached_le_length cuts value)

theorem length_referenceBins (values cuts : List Double) :
    (referenceBins values cuts).length = values.length :=
  List.length_map _

theorem lt_of_mem_referenceBins {values cuts : List Double} {bin : Nat}
    (member : bin ∈ referenceBins values cuts) : bin < cuts.length + 2 := by
  obtain ⟨value, -, rfl⟩ := List.mem_map.mp member
  exact Nat.lt_succ_of_le (referenceBin_le value cuts)

namespace ValidCuts

variable {cuts : List Double}

private theorem downward (valid : ValidCuts cuts) (value : Double) :
    cuts.Pairwise fun a b => b.lessEq value = true → a.lessEq value = true :=
  valid.increasing.imp fun below atMost => Binary.lessEq_of_less_of_lessEq below atMost

theorem lessEq_iff_lt_reached (valid : ValidCuts cuts) (value : Double) (i : Nat)
    (h : i < cuts.length) : cuts[i].lessEq value = true ↔ i < reached cuts value :=
  getElem_iff_lt_countP (valid.downward value) i h

end ValidCuts

end Boosting
