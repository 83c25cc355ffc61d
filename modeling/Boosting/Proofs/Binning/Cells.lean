/- Cells keep the bins they have room for.
   A bin not above the largest value of a type is stored without loss: the cell is a value of the
   type, and the bin is read back from it. -/

import Boosting.Binning.BinType

set_option autoImplicit false
set_option relaxedAutoImplicit false

namespace Boosting

namespace Width

private theorem count_pos (w : Width) : 0 < w.count := by
  cases w <;> decide

private theorem two_mul_half_count (w : Width) : 2 * (w.count / 2) = w.count := by
  cases w <;> rfl

private theorem count_le (w : Width) : w.count ≤ w64.count := by
  cases w <;> decide

private theorem bytes_le (w : Width) : w.bytes ≤ 8 := by
  cases w <;> decide

end Width

namespace BinType

def least : BinType → Int
  | unsigned _ => 0
  | signed w => -((w.count / 2 : Nat) : Int)

def Holds (t : BinType) (cell : Int) : Prop :=
  t.least ≤ cell ∧ cell ≤ t.max

instance (t : BinType) (cell : Int) : Decidable (t.Holds cell) :=
  inferInstanceAs (Decidable (_ ∧ _))

theorem bytes_le (t : BinType) : t.bytes ≤ 8 := by
  cases t <;> exact Width.bytes_le _

theorem max_pos (t : BinType) : 0 < t.max := by
  cases t with
  | unsigned w => cases w <;> decide
  | signed w => cases w <;> decide

theorem max_lt_count (t : BinType) : t.max < Width.w64.count := by
  cases t with
  | unsigned w =>
    have pos := w.count_pos
    have le := w.count_le
    simp only [max]
    omega
  | signed w =>
    have pos := w.count_pos
    have le := w.count_le
    simp only [max]
    omega

theorem wrap_of_holds {t : BinType} {cell : Int} (holds : t.Holds cell) : t.wrap cell = cell := by
  obtain ⟨lower, upper⟩ := holds
  cases t with
  | unsigned w =>
    have pos := w.count_pos
    simp only [least, max] at lower upper
    exact Int.emod_eq_of_lt lower (by omega)
  | signed w =>
    have pos := w.count_pos
    have half := w.two_mul_half_count
    simp only [least, max] at lower upper
    exact Int.bmod_eq_of_le (by omega) (by omega)

private theorem holds_natCast {t : BinType} {bin : Nat} (room : bin ≤ t.max) : t.Holds bin := by
  refine ⟨?_, Int.ofNat_le.mpr room⟩
  cases t <;> simp only [least] <;> omega

theorem ofBin_eq {t : BinType} {bin : Nat} (room : bin ≤ t.max) : t.ofBin bin = bin :=
  wrap_of_holds (holds_natCast room)

theorem holds_ofBin {t : BinType} {bin : Nat} (room : bin ≤ t.max) : t.Holds (t.ofBin bin) := by
  rw [ofBin_eq room]
  exact holds_natCast room

theorem binOfCell_ofBin {t : BinType} {bin : Nat} (room : bin ≤ t.max) :
    binOfCell (t.ofBin bin) = bin := by
  have small := t.max_lt_count
  rw [ofBin_eq room, binOfCell, Int.emod_eq_of_lt (by omega) (by omega), Int.toNat_natCast]

end BinType

end Boosting
