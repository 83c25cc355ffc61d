/- Binning a matrix of features.
   Each row of the matrix holds the samples of one feature and has cuts of its own. Rows are
   tasks over the flat storage, so both matrices must be stored row by row without gaps. -/

import Boosting.Binning.Tasks

set_option autoImplicit false
set_option relaxedAutoImplicit false

namespace Boosting

inductive Layout where
  | rowMajor
  | columnMajor
  /-- Row after row, the last row first. -/
  | reversedRows
deriving DecidableEq

namespace Layout

def origin (layout : Layout) (s : Shape) : Nat :=
  match layout with
  | reversedRows => (s.rows - 1) * s.columns
  | _ => 0

def rowStride (layout : Layout) (s : Shape) : Int :=
  match layout with
  | rowMajor => s.columns
  | columnMajor => 1
  | reversedRows => -(s.columns : Int)

def columnStride (layout : Layout) (s : Shape) : Int :=
  match layout with
  | columnMajor => s.rows
  | _ => 1

def position (layout : Layout) (s : Shape) (row column : Nat) : Nat :=
  ((layout.origin s : Int) + row * layout.rowStride s + column * layout.columnStride s).toNat

/-- Whether the storage order is row by row without gaps. The stride of an axis of length one does
not matter, and an empty matrix has no gaps. -/
def isContiguous (layout : Layout) (s : Shape) : Bool :=
  s.rows = 0 || s.columns = 0 ||
    ((s.columns = 1 || layout.columnStride s = 1) && (s.rows = 1 || layout.rowStride s = s.columns))

end Layout

structure Matrix (α : Type) where
  shape : Shape
  layout : Layout
  storage : List α

namespace Matrix

variable {α : Type}

def entry (m : Matrix α) (default : α) (row column : Nat) : α :=
  m.storage.getD (m.layout.position m.shape row column) default

def toRows (m : Matrix α) (default : α) : List (List α) :=
  (List.range m.shape.rows).map fun row =>
    (List.range m.shape.columns).map fun column => m.entry default row column

def filled (shape : Shape) (layout : Layout) (a : α) : Matrix α :=
  ⟨shape, layout, List.replicate (shape.rows * shape.columns) a⟩

/-- The matrix in a layout whose entries are given row by row. -/
def ofEntries (shape : Shape) (layout : Layout) (default : α) (entries : List α) : Matrix α :=
  let logical : Matrix α := ⟨shape, .rowMajor, entries⟩
  let stored : List α :=
    match layout with
    | .rowMajor => entries
    | .columnMajor =>
      ((List.range shape.columns).map fun column =>
        (List.range shape.rows).map fun row => logical.entry default row column).flatten
    | .reversedRows => (logical.toRows default).reverse.flatten
  ⟨shape, layout, stored⟩

/-- The storage, if it is row by row without gaps. -/
def flat? (m : Matrix α) : Option (List α) :=
  if m.layout.isContiguous m.shape then some m.storage else none

end Matrix

namespace Binning

/-- Checks the number of cuts of each set that is not empty, in order. -/
def checkCutSets (t : BinType) : List (List Double) → Except BinningError Unit
  | [] => .ok ()
  | cuts :: rest =>
    if cuts.isEmpty then
      checkCutSets t rest
    else
      match checkCutCount t cuts.length with
      | .error e => .error e
      | .ok _ => checkCutSets t rest

def checkColumns (t : BinType) (features bins : Shape) (cutSets : List (List Double)) :
    Except BinningError Unit :=
  if bins ≠ features then
    .error (.shapeMismatch features bins)
  else if cutSets.length ≠ features.rows then
    .error (.cutSetCount features.rows cutSets.length)
  else
    match checkCutSets t cutSets with
    | .error e => .error e
    | .ok () =>
      match checkSampleCount t features.columns with
      | .error e => .error e
      | .ok _ => .ok ()

def rowTasks (samples : Nat) (values : List Double) (cutSets : List (List Double)) : List Task :=
  ((segments samples values).zip cutSets).zipIdx.map
    (fun ((row, cuts), i) => ⟨i * samples, row, cuts⟩)

/-- Writes the bins of every feature over the matrix of cells, with the cuts of that feature. -/
def discretizeColumns (t : BinType) (features : Matrix Double) (cutSets : List (List Double))
    (bins : Matrix Int) (workers : Workers) (order : List Task → List Task) :
    BinningResult (Matrix Int) :=
  let reject (e : BinningError) : BinningResult (Matrix Int) := ⟨.error (.rejected e), bins⟩
  match checkColumns t features.shape bins.shape cutSets with
  | .error e => reject e
  | .ok () =>
    if features.shape.columns = 0 then
      ⟨.ok (), bins⟩
    else
      match features.flat?, bins.flat? with
      | none, _ => reject (.nonContiguous .feature)
      | _, none => reject (.nonContiguous .bin)
      | some values, some storage =>
        let tasks := rowTasks features.shape.columns values cutSets
        let done := dispatch t workers order tasks storage
        ⟨done.ending, { bins with storage := done.bins }⟩

end Binning

end Boosting
