/- Buffers filled by a lane function.
   A buffer is filled register by register and then sample by sample. As loops over two buffers
   these are reads and writes that could go past an end; none does, and what they leave is given
   position by position: each position that both buffers have holds the function of its own
   source value, on the lanes that handle the position, and the others are as they were. -/

import Boosting.Lanes.Blocks
import Boosting.Proofs.Update.Blocks

set_option autoImplicit false
set_option relaxedAutoImplicit false

namespace Boosting

variable {α : Type}

def excerpt? (start size : Nat) (xs : List α) : Option (List α) :=
  if start + size ≤ xs.length then some (excerpt start size xs) else none

def overwrite? (start : Nat) (piece whole : List α) : Option (List α) :=
  if start + piece.length ≤ whole.length then some (overwrite start piece whole) else none

private theorem excerpt?_eq_some {start size : Nat} {xs : List α}
    (inside : start + size ≤ xs.length) :
    excerpt? start size xs = some (excerpt start size xs) :=
  if_pos inside

private theorem overwrite?_eq_some {start : Nat} {piece whole : List α}
    (inside : start + piece.length ≤ whole.length) :
    overwrite? start piece whole = some (overwrite start piece whole) :=
  if_pos inside

private theorem length_splice {count : Nat} {new old : List α} (lengths : new.length = old.length)
    (inside : count ≤ old.length) : (splice count new old).length = old.length := by
  rw [splice, List.length_append, List.length_take, List.length_drop]
  omega

namespace Lanes

variable (fn : Lanes → Single → Single) (src dst : List Single)

def shared (src dst : List Single) : Nat :=
  min src.length dst.length

def registered (count : Nat) : Nat :=
  count - count % 8

def handling (count i : Nat) : Lanes :=
  if i < registered count then packed else scalar

/-- Reads the register from `start` on, and writes the function of its values over the
destination. -/
def fillRegister? (start : Nat) (dst : List Single) : Option (List Single) := do
  let register ← widest.load? (← excerpt? start widest.width src)
  let stored ← widest.store? (register.map (fn widest)) (← excerpt? start widest.width dst)
  overwrite? start stored dst

def fillRegisters? : (blocks start : Nat) → List Single → Option (List Single)
  | 0, _, dst => some dst
  | blocks + 1, start, dst => do
    fillRegisters? blocks (start + widest.width) (← fillRegister? fn src start dst)

def fillSingle? (start : Nat) (dst : List Single) : Option (List Single) := do
  overwrite? start [fn scalar (← src[start]?)] dst

def fillSingles? : (count start : Nat) → List Single → Option (List Single)
  | 0, _, dst => some dst
  | count + 1, start, dst => do
    fillSingles? count (start + 1) (← fillSingle? fn src start dst)

/-- The destination after both loops, unless an access goes past the end of a buffer. -/
def fill? (src dst : List Single) : Option (List Single) := do
  let count := shared src dst
  let body := registered count
  let front ← fillRegisters? fn src (body / widest.width) 0 dst
  fillSingles? fn src (count - body) body front

private theorem length_fillScalar : (fillScalar fn src dst).length = dst.length := by
  induction src generalizing dst with
  | nil => rfl
  | cons x src ih =>
    cases dst with
    | nil => rfl
    | cons y dst => simp [fillScalar, ih]

private theorem getElem?_fillScalar (i : Nat) :
    (fillScalar fn src dst)[i]? =
      if i < shared src dst then src[i]?.map (fn scalar) else dst[i]? := by
  induction src generalizing dst i with
  | nil => simp [fillScalar, shared]
  | cons x src ih =>
    cases dst with
    | nil => simp [fillScalar, shared]
    | cons y dst =>
      cases i with
      | zero => simp [fillScalar, shared]
      | succ i =>
        have both : i + 1 < shared (x :: src) (y :: dst) ↔ i < shared src dst := by
          simp only [shared, List.length_cons]
          omega
        simp only [fillScalar, List.getElem?_cons_succ, ih, both]

private theorem length_fillBlocks {blocks : Nat} (inside : blocks * 8 ≤ shared src dst) :
    (fillBlocks fn blocks src dst).length = dst.length := by
  induction blocks generalizing src dst with
  | zero => exact length_fillScalar fn src dst
  | succ blocks ih =>
    simp only [shared] at inside ih
    rw [fillBlocks, List.length_append, List.length_map, List.length_take,
      show widest.width = 8 from rfl, ih, List.length_drop]
    · omega
    · simp only [List.length_drop]
      omega

private theorem getElem?_fillBlocks {blocks : Nat} (inside : blocks * 8 ≤ shared src dst)
    (i : Nat) :
    (fillBlocks fn blocks src dst)[i]? =
      if i < shared src dst then src[i]?.map (fn (if i < blocks * 8 then packed else scalar))
      else dst[i]? := by
  induction blocks generalizing src dst i with
  | zero =>
    rw [Nat.zero_mul, if_neg (Nat.not_lt_zero i)]
    exact getElem?_fillScalar fn src dst i
  | succ blocks ih =>
    have full : 8 ≤ src.length := by simp only [shared] at inside; omega
    have front : ((src.take 8).map (fn packed)).length = 8 := by simp [full]
    show ((src.take 8).map (fn packed) ++ fillBlocks fn blocks (src.drop 8) (dst.drop 8))[i]? = _
    by_cases first : i < 8
    · have both : i < shared src dst := by omega
      rw [List.getElem?_append_left (by rw [front]; exact first), List.getElem?_map,
        List.getElem?_take_of_lt first, if_pos both, if_pos (by omega)]
    · obtain ⟨j, rfl⟩ := Nat.exists_eq_add_of_le (Nat.le_of_not_lt first)
      have rest : shared (src.drop 8) (dst.drop 8) = shared src dst - 8 := by
        simp only [shared, List.length_drop]
        omega
      have past : 8 + j - 8 = j := by omega
      rw [List.getElem?_append_right (by rw [front]; omega), front, past, ih, rest,
        List.getElem?_drop, List.getElem?_drop]
      · have counted : j < shared src dst - 8 ↔ 8 + j < shared src dst := by omega
        have packed_iff : j < blocks * 8 ↔ 8 + j < (blocks + 1) * 8 := by omega
        simp only [counted, packed_iff]
      · rw [rest]
        omega

private theorem length_fill : (fill fn src dst).length = dst.length :=
  length_fillBlocks fn src dst (Nat.div_mul_le_self _ _)

private theorem getElem?_fill (i : Nat) :
    (fill fn src dst)[i]? =
      if i < shared src dst then src[i]?.map (fn (handling (shared src dst) i)) else dst[i]? := by
  have body : shared src dst / 8 * 8 = registered (shared src dst) := by
    rw [registered]
    omega
  have held := getElem?_fillBlocks fn src dst (Nat.div_mul_le_self (shared src dst) 8) i
  rw [body] at held
  exact held

private theorem fillRegister?_eq_some {start : Nat} (inSource : start + widest.width ≤ src.length)
    (inDestination : start + widest.width ≤ dst.length) :
    fillRegister? fn src start dst =
      some (overwrite start ((excerpt start widest.width src).map (fn widest)) dst) := by
  have register : (excerpt start widest.width src).length = widest.width := length_excerpt inSource
  have place : (excerpt start widest.width dst).length = widest.width :=
    length_excerpt inDestination
  have results : ((excerpt start widest.width src).map (fn widest)).length = widest.width := by
    rw [List.length_map, register]
  have loaded :
      widest.load? (excerpt start widest.width src) = some (excerpt start widest.width src) := by
    rw [load?, register, if_neg (Nat.lt_irrefl _), List.take_of_length_le (Nat.le_of_eq register)]
  have stored : ∀ piece, widest.store? piece (excerpt start widest.width dst) = some piece := by
    intro piece
    rw [store?, place, if_neg (Nat.lt_irrefl _), List.drop_of_length_le (Nat.le_of_eq place),
      List.append_nil]
  simp only [fillRegister?, excerpt?_eq_some inSource, excerpt?_eq_some inDestination, loaded,
    stored, Option.bind_eq_bind, Option.bind_some]
  exact overwrite?_eq_some (by rw [results]; exact inDestination)

private theorem fillSingle?_eq_some {start : Nat} (inSource : start < src.length)
    (inDestination : start < dst.length) :
    fillSingle? fn src start dst =
      some (overwrite start ((excerpt start 1 src).map (fn scalar)) dst) := by
  have value : excerpt start 1 src = [src[start]] := by
    rw [excerpt, List.drop_eq_getElem_cons inSource, List.take_succ_cons, List.take_zero]
  simp only [fillSingle?, List.getElem?_eq_getElem inSource, Option.bind_eq_bind, Option.bind_some,
    value]
  exact overwrite?_eq_some inDestination

section Loops

variable {fn src dst}

private theorem excerpt_fill {start size : Nat} (inside : start + size ≤ shared src dst) {k : Lanes}
    (alike : ∀ i, start ≤ i → i < start + size → handling (shared src dst) i = k) :
    (excerpt start size src).map (fn k) = excerpt start size (fill fn src dst) := by
  apply List.ext_getElem?
  intro i
  rw [List.getElem?_map, getElem?_excerpt, getElem?_excerpt]
  split
  · rename_i early
    rw [getElem?_fill, if_pos (by omega), alike _ (by omega) (by omega)]
  · rfl

private theorem overwrite_filled {start size : Nat} (inside : start + size ≤ shared src dst)
    {k : Lanes} (alike : ∀ i, start ≤ i → i < start + size → handling (shared src dst) i = k) :
    overwrite start ((excerpt start size src).map (fn k)) (splice start (fill fn src dst) dst) =
      splice (start + size) (fill fn src dst) dst := by
  have reached : start + size ≤ (fill fn src dst).length := by
    rw [length_fill]
    exact Nat.le_trans inside (Nat.min_le_right _ _)
  rw [excerpt_fill inside alike, overwrite_splice reached]

private theorem length_filled {start : Nat} (inside : start ≤ shared src dst) :
    (splice start (fill fn src dst) dst).length = dst.length :=
  length_splice (length_fill fn src dst) (Nat.le_trans inside (Nat.min_le_right _ _))

private theorem fillRegisters?_splice (fn : Lanes → Single → Single) {blocks start : Nat}
    (inside : start + blocks * widest.width ≤ registered (shared src dst)) :
    fillRegisters? fn src blocks start (splice start (fill fn src dst) dst) =
      some (splice (start + blocks * widest.width) (fill fn src dst) dst) := by
  have body : registered (shared src dst) ≤ shared src dst := Nat.sub_le _ _
  have inSource : shared src dst ≤ src.length := Nat.min_le_left _ _
  have inDestination : shared src dst ≤ dst.length := Nat.min_le_right _ _
  induction blocks generalizing start with
  | zero => simp [fillRegisters?]
  | succ blocks ih =>
    have next : start + widest.width + blocks * widest.width =
        start + (blocks + 1) * widest.width := by
      rw [Nat.succ_mul]
      omega
    have one : start + widest.width ≤ registered (shared src dst) := by omega
    have handled : ∀ i, start ≤ i → i < start + widest.width →
        handling (shared src dst) i = widest := by
      intro i _ before
      exact if_pos (by omega)
    rw [fillRegisters?, fillRegister?_eq_some, overwrite_filled (by omega) handled]
    · show fillRegisters? fn src blocks (start + widest.width) _ = _
      rw [ih (by omega), next]
    · omega
    · rw [length_filled (by omega)]
      omega

private theorem fillSingles?_splice (fn : Lanes → Single → Single) {count start : Nat}
    (after : registered (shared src dst) ≤ start) (inside : start + count ≤ shared src dst) :
    fillSingles? fn src count start (splice start (fill fn src dst) dst) =
      some (splice (start + count) (fill fn src dst) dst) := by
  have inSource : shared src dst ≤ src.length := Nat.min_le_left _ _
  have inDestination : shared src dst ≤ dst.length := Nat.min_le_right _ _
  induction count generalizing start with
  | zero => rfl
  | succ count ih =>
    have next : start + 1 + count = start + (count + 1) := by omega
    have handled : ∀ i, start ≤ i → i < start + 1 → handling (shared src dst) i = scalar := by
      intro i _ _
      exact if_neg (by omega)
    rw [fillSingles?, fillSingle?_eq_some, overwrite_filled (by omega) handled]
    · show fillSingles? fn src count (start + 1) _ = _
      rw [ih (by omega) (by omega), next]
    · omega
    · rw [length_filled (by omega)]
      omega

end Loops

private theorem splice_shared :
    splice (shared src dst) (fill fn src dst) dst = fill fn src dst := by
  have kept : (fill fn src dst).drop (shared src dst) = dst.drop (shared src dst) := by
    apply List.ext_getElem?
    intro i
    rw [List.getElem?_drop, List.getElem?_drop, getElem?_fill, if_neg (by omega)]
  rw [splice, ← kept, List.take_append_drop]

private theorem fill?_eq_some : fill? fn src dst = some (fill fn src dst) := by
  have body : registered (shared src dst) ≤ shared src dst := Nat.sub_le _ _
  have whole : 0 + registered (shared src dst) / widest.width * widest.width =
      registered (shared src dst) := by
    simp only [registered, show widest.width = 8 from rfl]
    omega
  have rest : registered (shared src dst) + (shared src dst - registered (shared src dst)) =
      shared src dst := by omega
  have front := fillRegisters?_splice fn (Nat.le_of_eq whole)
  have tail := fillSingles?_splice fn (Nat.le_refl (registered (shared src dst)))
    (Nat.le_of_eq rest)
  rw [whole] at front
  rw [rest, splice_shared] at tail
  have untouched : splice 0 (fill fn src dst) dst = dst := rfl
  rw [untouched] at front
  simp only [fill?, front, Option.bind_eq_bind, Option.bind_some, tail]

/-- What filling a buffer by a lane function comes to, for a given way to fill it. -/
structure Fills (fn : Lanes → Single → Single) (filled : List Single → List Single → List Single)
    (src dst : List Single) : Prop where
  /-- No access goes past an end. -/
  inside : fill? fn src dst = some (filled src dst)
  length : (filled src dst).length = dst.length
  /-- A position that both buffers have gets the function of its own value. -/
  set : ∀ i < min src.length dst.length, ∃ x, src[i]? = some x ∧
    (filled src dst)[i]? =
      some (fn (if i < min src.length dst.length - min src.length dst.length % 8 then packed
        else scalar) x)
  kept : ∀ i, min src.length dst.length ≤ i → (filled src dst)[i]? = dst[i]?
  /-- What a position gets does not depend on the values at other positions. -/
  alone : ∀ (src' : List Single) (i : Nat), src'.length = src.length → src'[i]? = src[i]? →
    (filled src' dst)[i]? = (filled src dst)[i]?

private theorem fills_fill : Fills fn (fill fn) src dst where
  inside := fill?_eq_some fn src dst
  length := length_fill fn src dst
  set := by
    intro i both
    have inSource : i < src.length := Nat.lt_of_lt_of_le both (Nat.min_le_left _ _)
    refine ⟨src[i], List.getElem?_eq_getElem inSource, ?_⟩
    rw [getElem?_fill, shared, if_pos both, List.getElem?_eq_getElem inSource, Option.map_some,
      handling, registered]
  kept := by
    intro i past
    rw [getElem?_fill, shared, if_neg (Nat.not_lt.mpr past)]
  alone := by
    intro src' i lengths value
    rw [getElem?_fill, getElem?_fill, value, shared, shared, lengths]

/-- The exponential and the logarithm over buffers of any two lengths: every access is inside, a
position that both buffers have gets the function of its own value, on eight lanes as far as the
positions fill registers and one by one from there on, and no other position changes. -/
theorem buffers_fill_by_position :
    Fills exp fillExp src dst ∧ Fills log fillLog src dst :=
  ⟨fills_fill exp src dst, fills_fill log src dst⟩

end Lanes

end Boosting
