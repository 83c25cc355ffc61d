/- The search on machine words.
   A search counts with machine words: indices are unsigned and the bounds of a window signed,
   because the upper one may become `-1`. Here every operation on words is checked for overflow,
   every read for the end of the cuts, and the passes are limited. Whatever the cuts hold, no
   check fails: the windows of a search stay inside the cuts and get narrower, so its passes are
   those of the search on plain integers. -/

import Boosting.Proofs.Binning.Cells
import Boosting.Proofs.Binning.Passes

set_option autoImplicit false
set_option relaxedAutoImplicit false

namespace Boosting

namespace BinType

def index : BinType := unsigned .w64

def bound : BinType := signed .w64

/-- The result of an operation, if the type holds it. -/
def exactly? (t : BinType) (i : Int) : Option Int :=
  if t.Holds i then some i else none

private theorem exactly?_of_holds {t : BinType} {i : Int} (holds : t.Holds i) :
    t.exactly? i = some i :=
  if_pos holds

private theorem index_holds {i : Int} (lower : 0 ≤ i) (upper : i ≤ 2 * bound.max) : index.Holds i :=
  ⟨lower, Int.le_trans upper (by decide)⟩

private theorem bound_holds {i : Int} (lower : -1 ≤ i) (upper : i ≤ bound.max) : bound.Holds i :=
  ⟨Int.le_trans (by decide) lower, upper⟩

end BinType

open BinType (index bound)

structure Bounds where
  low : Int
  high : Int
deriving DecidableEq

namespace Bounds

/-- What a pass finds: the middle of its window, whether the cut there is reached, and the bounds
that are left. -/
structure Pass where
  middle : Nat
  reached : Bool
  left : Bounds
deriving DecidableEq

variable (cuts : Array Double) (value : Double)

/-- The bounds after the comparison with the middle of all cuts. Both sides of the middle are
computed before it is known which is kept. -/
def first? : Option Bounds := do
  let last ← index.exactly? (cuts.size - 1)
  let middle := last / 2
  let cut ← cuts[middle.toNat]?
  let above ← bound.exactly? (bound.wrap middle + 1)
  let below ← bound.exactly? (bound.wrap middle - 1)
  some (if cut.lessEq value then ⟨above, bound.wrap last⟩ else ⟨0, below⟩)

def pass? (b : Bounds) : Option Pass := do
  let sum ← index.exactly? (index.wrap b.low + index.wrap b.high)
  let middle := sum / 2
  let cut ← cuts[middle.toNat]?
  if cut.lessEq value then
    let low ← bound.exactly? (bound.wrap middle + 1)
    some ⟨middle.toNat, true, ⟨low, b.high⟩⟩
  else
    let high ← bound.exactly? (bound.wrap middle - 1)
    some ⟨middle.toNat, false, ⟨b.low, high⟩⟩

def Pass.bin? (p : Pass) : Option Nat :=
  (index.exactly? (if p.reached then p.middle + 2 else p.middle + 1 : Nat)).map Int.toNat

/-- The bounds at the start of each pass, and the bin. More passes than the limit count as a
failure. -/
def passes? : Nat → Bounds → Option (List Bounds × Nat)
  | 0, _ => none
  | limit + 1, b => do
    let p ← pass? cuts value b
    if p.left.high < p.left.low then
      let bin ← p.bin?
      some ([b], bin)
    else
      let (later, bin) ← passes? limit p.left
      some (b :: later, bin)

def search? (limit : Nat) : Option (List Bounds × Nat) := do
  let first ← first? cuts value
  if value.isNaN then some ([], 0) else passes? cuts value limit first

end Bounds

namespace Window

def bounds (w : Window) : Bounds :=
  ⟨w.low, w.high⟩

/-- A window that holds an index and lies inside `size` of them. -/
structure Inside (w : Window) (size : Nat) : Prop where
  inhabited : (w.low : Int) ≤ w.high
  inside : w.high < size

def width (w : Window) : Int :=
  w.high - w.low

variable {w : Window} {size : Nat}

private theorem Inside.isInhabited (inside : w.Inside size) : w.isInhabited = true :=
  w.isInhabited_iff.mpr inside.inhabited

private theorem Inside.middle_lt (inside : w.Inside size) : w.middle < size := by
  have most := middle_le_high inside.isInhabited
  have inside := inside.inside
  omega

private theorem Inside.narrow (inside : w.Inside size) {above : Bool}
    (inhabited : (w.narrow above).isInhabited = true) :
    (w.narrow above).Inside size := by
  refine ⟨(isInhabited_iff _).mp inhabited, ?_⟩
  have most := middle_le_high inside.isInhabited
  have room := inside.inside
  cases above with
  | true => exact room
  | false =>
    simp only [Window.narrow, Bool.false_eq_true, if_false]
    omega

private theorem width_narrow_lt (inside : w.Inside size) (above : Bool) :
    (w.narrow above).width < w.width := by
  have least := low_le_middle inside.isInhabited
  have most := middle_le_high inside.isInhabited
  cases above with
  | true =>
    simp only [width, Window.narrow, if_true]
    omega
  | false =>
    simp only [width, Window.narrow, Bool.false_eq_true, if_false]
    omega

end Window

section Passes

variable {cuts : Array Double} {w : Window}

theorem inside_of_mem_searchPasses (value : Double) (inside : w.Inside cuts.size) :
    ∀ v ∈ searchPasses cuts value w, v.Inside cuts.size := by
  induction w using searchPasses.induct cuts value with
  | case1 w next more ih =>
    rw [searchPasses, if_pos more, List.forall_mem_cons]
    exact ⟨inside, ih (inside.narrow more)⟩
  | case2 w next done =>
    rw [searchPasses, if_neg done]
    simpa using inside

private theorem width_le_of_mem_searchPasses (value : Double) (inside : w.Inside cuts.size) :
    ∀ v ∈ searchPasses cuts value w, v.width ≤ w.width := by
  induction w using searchPasses.induct cuts value with
  | case1 w next more ih =>
    have shorter := Window.width_narrow_lt inside (cutReached cuts value w.middle)
    rw [searchPasses, if_pos more, List.forall_mem_cons]
    refine ⟨Int.le_refl _, fun v member => ?_⟩
    exact Int.le_trans (ih (inside.narrow more) v member) (Int.le_of_lt shorter)
  | case2 w next done =>
    rw [searchPasses, if_neg done]
    simp

theorem searchPasses_pairwise (value : Double) (inside : w.Inside cuts.size) :
    (searchPasses cuts value w).Pairwise fun v later => later.width < v.width := by
  induction w using searchPasses.induct cuts value with
  | case1 w next more ih =>
    have shorter := Window.width_narrow_lt inside (cutReached cuts value w.middle)
    rw [searchPasses, if_pos more, List.pairwise_cons]
    refine ⟨fun later member => ?_, ih (inside.narrow more)⟩
    exact Int.lt_of_le_of_lt (width_le_of_mem_searchPasses value (inside.narrow more) later member)
      shorter
  | case2 w next done =>
    rw [searchPasses, if_neg done]
    exact List.pairwise_singleton _ _

private theorem binFromPasses_between (value : Double) {passes : List Window}
    (nonempty : passes ≠ []) (inside : ∀ v ∈ passes, v.Inside cuts.size) :
    1 ≤ binFromPasses cuts value passes ∧ binFromPasses cuts value passes ≤ cuts.size + 1 := by
  have last := List.getLast?_eq_some_getLast nonempty
  have room := (inside _ (List.getLast_mem nonempty)).middle_lt
  simp only [binFromPasses, last]
  split <;> omega

theorem firstWindow_inside (enough : searchMinCuts ≤ cuts.size) (value : Double) :
    (firstWindow cuts value).Inside cuts.size := by
  have three : 3 ≤ cuts.size := enough
  refine ⟨(Window.isInhabited_iff _).mp (firstWindow_isInhabited enough value), ?_⟩
  simp only [firstWindow, Window.narrow, Window.middle]
  split <;> simp only <;> omega

theorem searchBin_between (enough : searchMinCuts ≤ cuts.size) {value : Double}
    (number : value.isNaN = false) :
    1 ≤ searchBin cuts value ∧ searchBin cuts value ≤ cuts.size + 1 := by
  rw [searchBin, if_neg (Bool.eq_false_iff.mp number)]
  exact binFromPasses_between value (searchPasses_ne_nil cuts value _)
    (inside_of_mem_searchPasses value (firstWindow_inside enough value))

end Passes

namespace Bounds

variable {cuts : Array Double}

private theorem cutReached_of_lt (value : Double) {i : Nat} (inside : i < cuts.size) :
    cutReached cuts value i = cuts[i].lessEq value := by
  rw [cutReached, Array.getD_eq_getD_getElem?, Array.getElem?_eq_getElem inside, Option.getD_some]

private theorem Pass.bin?_eq_some {p : Pass} (small : p.middle < bound.max) :
    p.bin? = some (if p.reached then p.middle + 2 else p.middle + 1) := by
  have word : index.Holds ((if p.reached then p.middle + 2 else p.middle + 1 : Nat) : Int) := by
    refine BinType.index_holds (Int.natCast_nonneg _) ?_
    split <;> omega
  rw [Pass.bin?, BinType.exactly?_of_holds word, Option.map_some, Int.toNat_natCast]

variable (fits : cuts.size ≤ bound.max)

include fits

private theorem first?_eq_some (enough : searchMinCuts ≤ cuts.size) (value : Double) :
    first? cuts value = some (firstWindow cuts value).bounds := by
  have three : 3 ≤ cuts.size := enough
  have room : (cuts.size - 1) / 2 < cuts.size := by omega
  have last : index.exactly? ((cuts.size : Int) - 1) = some ((cuts.size - 1 : Nat) : Int) := by
    rw [BinType.exactly?_of_holds (BinType.index_holds (by omega) (by omega)), Option.some_inj]
    omega
  have middle : (((cuts.size - 1 : Nat) : Int) / 2) = ((cuts.size - 1) / 2 : Nat) := by omega
  have word : bound.wrap ((cuts.size - 1) / 2 : Nat) = ((cuts.size - 1) / 2 : Nat) :=
    BinType.wrap_of_holds (BinType.bound_holds (by omega) (by omega))
  have lastWord : bound.wrap (cuts.size - 1 : Nat) = (cuts.size - 1 : Nat) :=
    BinType.wrap_of_holds (BinType.bound_holds (by omega) (by omega))
  have found := Array.getElem?_eq_getElem room
  have above := BinType.exactly?_of_holds (i := ((cuts.size - 1) / 2 : Nat) + 1)
    (BinType.bound_holds (by omega) (by omega))
  have below := BinType.exactly?_of_holds (i := ((cuts.size - 1) / 2 : Nat) - 1)
    (BinType.bound_holds (by omega) (by omega))
  rw [firstWindow]
  simp only [cutReached_of_lt value room, first?, last, middle, word, lastWord, found, above, below,
    Option.bind_eq_bind, Option.bind_some, Int.toNat_natCast]
  have half : (⟨0, (cuts.size - 1 : Nat)⟩ : Window).middle = (cuts.size - 1) / 2 := by
    simp [Window.middle]
  cases cuts[(cuts.size - 1) / 2].lessEq value <;> simp [Window.narrow, Window.bounds, half]

private theorem pass?_eq_some {w : Window} (inside : w.Inside cuts.size) (value : Double) :
    pass? cuts value w.bounds =
      some ⟨w.middle, cutReached cuts value w.middle,
        (w.narrow (cutReached cuts value w.middle)).bounds⟩ := by
  have room := inside.middle_lt
  obtain ⟨inhabited, high⟩ := inside
  have lowWord : index.wrap w.low = w.low :=
    BinType.wrap_of_holds (BinType.index_holds (by omega) (by omega))
  have highWord : index.wrap w.high = w.high :=
    BinType.wrap_of_holds (BinType.index_holds (by omega) (by omega))
  have sum := BinType.exactly?_of_holds (i := w.low + w.high)
    (BinType.index_holds (by omega) (by omega))
  have middle : ((w.low + w.high) / 2 : Int) = w.middle := by
    unfold Window.middle
    omega
  have word : bound.wrap w.middle = w.middle :=
    BinType.wrap_of_holds (BinType.bound_holds (by omega) (by omega))
  have found := Array.getElem?_eq_getElem room
  have above :=
    BinType.exactly?_of_holds (i := w.middle + 1) (BinType.bound_holds (by omega) (by omega))
  have below :=
    BinType.exactly?_of_holds (i := w.middle - 1) (BinType.bound_holds (by omega) (by omega))
  simp only [cutReached_of_lt value room, pass?, Window.bounds, lowWord, highWord, sum, middle,
    word, found, above, below, Option.bind_eq_bind, Option.bind_some, Int.toNat_natCast]
  cases cuts[w.middle].lessEq value <;> rfl

private theorem passes?_eq_some {w : Window} (inside : w.Inside cuts.size) (value : Double)
    {limit : Nat} (enough : w.width < limit) :
    passes? cuts value limit w.bounds =
      some ((searchPasses cuts value w).map Window.bounds,
        binFromPasses cuts value (searchPasses cuts value w)) := by
  have ordered := inside.inhabited
  induction w using searchPasses.induct cuts value generalizing limit with
  | case1 w next more ih =>
    cases limit with
    | zero =>
      unfold Window.width at enough
      omega
    | succ limit =>
      have shorter : next.width < w.width := Window.width_narrow_lt inside _
      have inhabited := (Window.isInhabited_iff _).mp more
      have left : next.width < limit := by omega
      have rest := ih (inside.narrow more) left inhabited
      have ordered : ¬ next.bounds.high < next.bounds.low := Int.not_lt.mpr inhabited
      rw [searchPasses, if_pos more,
        binFromPasses_cons cuts value w (searchPasses_ne_nil cuts value _)]
      simp only [passes?, pass?_eq_some fits inside, Option.bind_eq_bind, Option.bind_some,
        List.map_cons]
      rw [if_neg ordered, rest, Option.bind_some]
  | case2 w next done =>
    cases limit with
    | zero =>
      unfold Window.width at enough
      omega
    | succ limit =>
      have room := inside.middle_lt
      have crossed : next.bounds.high < next.bounds.low := by
        rw [Window.isInhabited_iff] at done
        exact Int.not_le.mp done
      rw [searchPasses, if_neg done]
      simp only [passes?, pass?_eq_some fits inside, Option.bind_eq_bind, Option.bind_some]
      rw [if_pos crossed, Pass.bin?_eq_some (by simp only; omega), Option.bind_some]
      rfl

/-- On cuts that words can count a search runs to its end: all its words hold, all its reads are
inside, and its passes are those of the search on plain integers. -/
theorem search?_eq_some (enough : searchMinCuts ≤ cuts.size) (value : Double) {limit : Nat}
    (room : cuts.size ≤ limit) :
    search? cuts value limit =
      some (if value.isNaN then [] else (searchWindows cuts value).map Window.bounds,
        searchBin cuts value) := by
  have inside := firstWindow_inside enough value
  have short : (firstWindow cuts value).width < limit := by
    have high := inside.inside
    unfold Window.width
    omega
  simp only [search?, first?_eq_some fits enough, Option.bind_eq_bind, Option.bind_some]
  cases missing : value.isNaN with
  | true => simp [searchBin, missing]
  | false =>
    simp only [searchBin, missing, Bool.false_eq_true, if_false]
    exact passes?_eq_some fits inside value short

end Bounds

end Boosting
