/- Row-by-row storage.
   A matrix can be taken as its rows one after another exactly if each entry stands at its row
   times the number of columns, plus its column. The check by strides decides this for every
   layout and every shape: strides along an axis of length one do not matter, and an empty matrix
   has no entry to be misplaced. -/

import Mathlib.Tactic.ByContra
import Boosting.Binning.Columns

set_option autoImplicit false
set_option relaxedAutoImplicit false

namespace Boosting

namespace Layout

/-- Every entry stands where storage row by row has it. -/
def RowByRow (layout : Layout) (s : Shape) : Prop :=
  ∀ row < s.rows, ∀ column < s.columns, layout.position s row column = row * s.columns + column

instance (layout : Layout) (s : Shape) : Decidable (layout.RowByRow s) :=
  inferInstanceAs (Decidable (∀ _ < _, _))

private theorem position_rowMajor (s : Shape) (row column : Nat) :
    rowMajor.position s row column = row * s.columns + column := by
  simp only [position, origin, rowStride, columnStride]
  omega

private theorem position_columnMajor (s : Shape) (row column : Nat) :
    columnMajor.position s row column = row + column * s.rows := by
  simp only [position, origin, rowStride, columnStride]
  omega

private theorem position_reversedRows {s : Shape} {row : Nat} (inside : row < s.rows)
    (column : Nat) :
    reversedRows.position s row column = (s.rows - 1 - row) * s.columns + column := by
  obtain ⟨below, rows⟩ := Nat.exists_eq_add_of_lt inside
  have last : s.rows - 1 = row + below := by omega
  have rest : row + below - row = below := by omega
  simp only [position, origin, rowStride, columnStride, last, rest, Nat.add_mul, Int.mul_neg]
  omega

private theorem isContiguous_columnMajor_iff (s : Shape) :
    columnMajor.isContiguous s = true ↔
      s.rows = 0 ∨ s.columns = 0 ∨ s.rows = 1 ∨ s.columns = 1 := by
  simp only [isContiguous, Bool.or_eq_true, Bool.and_eq_true, decide_eq_true_eq]
  simp only [rowStride, columnStride]
  omega

private theorem isContiguous_reversedRows_iff (s : Shape) :
    reversedRows.isContiguous s = true ↔ s.rows = 0 ∨ s.columns = 0 ∨ s.rows = 1 := by
  simp only [isContiguous, Bool.or_eq_true, Bool.and_eq_true, decide_eq_true_eq]
  simp only [rowStride, columnStride, or_true, true_and]
  omega

private theorem rowByRow_columnMajor_iff (s : Shape) :
    columnMajor.RowByRow s ↔ s.rows = 0 ∨ s.columns = 0 ∨ s.rows = 1 ∨ s.columns = 1 := by
  constructor
  · intro placed
    by_contra large
    -- The first entry of the second row stands right behind the first entry of all.
    have second := placed 1 (by omega) 0 (by omega)
    rw [position_columnMajor] at second
    omega
  · intro small row inRows column inColumns
    rw [position_columnMajor]
    rcases small with noEntry | noEntry | one | one
    · omega
    · omega
    · obtain rfl : row = 0 := by omega
      simp [one]
    · obtain rfl : column = 0 := by omega
      simp [one]

private theorem rowByRow_reversedRows_iff (s : Shape) :
    reversedRows.RowByRow s ↔ s.rows = 0 ∨ s.columns = 0 ∨ s.rows = 1 := by
  constructor
  · intro placed
    by_contra large
    have pos : 0 < s.rows := by omega
    have first := placed 0 pos 0 (by omega)
    rw [position_reversedRows pos] at first
    have skipped : 0 < (s.rows - 1 - 0) * s.columns := Nat.mul_pos (by omega) (by omega)
    omega
  · intro small row inRows column inColumns
    rw [position_reversedRows inRows]
    rcases small with noEntry | noEntry | one
    · omega
    · omega
    · obtain rfl : row = 0 := by omega
      simp [one]

private theorem isContiguous_iff (layout : Layout) (s : Shape) :
    layout.isContiguous s = true ↔ layout.RowByRow s := by
  cases layout with
  | rowMajor =>
    refine iff_of_true ?_ ?_
    · simp [isContiguous, rowStride, columnStride]
    · intro row _ column _
      exact position_rowMajor s row column
  | columnMajor => rw [isContiguous_columnMajor_iff, rowByRow_columnMajor_iff]
  | reversedRows => rw [isContiguous_reversedRows_iff, rowByRow_reversedRows_iff]

end Layout

namespace Matrix

variable {α : Type} {m : Matrix α}

def get? (m : Matrix α) (row column : Nat) : Option α :=
  m.storage[m.layout.position m.shape row column]?

theorem get?_of_rowByRow (placed : m.layout.RowByRow m.shape) {row column : Nat}
    (inRows : row < m.shape.rows) (inColumns : column < m.shape.columns) :
    m.get? row column = m.storage[row * m.shape.columns + column]? := by
  rw [get?, placed row inRows column inColumns]

theorem flat?_eq_some (placed : m.layout.RowByRow m.shape) : m.flat? = some m.storage := by
  rw [flat?, (Layout.isContiguous_iff _ _).mpr placed, if_pos rfl]

theorem flat?_eq_none (misplaced : ¬ m.layout.RowByRow m.shape) : m.flat? = none := by
  have fails : m.layout.isContiguous m.shape = false := by
    rw [Bool.eq_false_iff]
    exact mt (Layout.isContiguous_iff _ _).mp misplaced
  rw [flat?, fails, if_neg Bool.false_ne_true]

end Matrix

end Boosting
