/- Losses and their configurations.
   A configuration names its loss in full: the constants of a pseudo-Huber loss are not written,
   and reading derives them from the scale again. Every loss that can be made therefore comes
   back from its configuration unchanged. A scale is rejected for one of three causes, and the
   two overflows are those of its exact square and inverse, because no scale has a square or an
   inverse in the last gap of doubles before the single format overflows. -/

import Boosting.Loss.Config
import Boosting.Proofs.Binary.Overflow
import Boosting.Proofs.Loss.Scales

set_option autoImplicit false
set_option relaxedAutoImplicit false

namespace Boosting

open Binary Format

private theorem Binary.isFinite_eq_false_iff {f : Format} (x : Binary f) :
    x.isFinite = false ↔ x.isNaN = true ∨ x.isInfinite = true := by
  cases x with
  | nan => exact iff_of_true rfl (.inl rfl)
  | signed negative magnitude =>
    have inside := magnitude.isLt
    simp only [isFinite, isNaN, isInfinite, decide_eq_false_iff_not, Bool.false_eq_true, false_or,
      beq_iff_eq]
    omega

namespace PseudoHuber

section Overflows

variable {delta : Double}

private theorem size_square_gap (below : delta.size ^ 2 < 2 ^ 128 - 2 ^ 103) :
    delta.size ^ 2 ≤ 2 ^ 128 - 2 ^ 103 - 2 ^ 75 := by
  have nonneg := delta.size_nonneg
  rcases le_or_gt delta.size (9007199120523262 * 2 ^ (11 : Int)) with within | above
  · have square := mul_le_mul within within nonneg (by positivity)
    norm_num at square ⊢
    linarith
  · have next := succ_le_size (m := 9007199120523262) (by decide) (by decide) (by decide) above
    have square := mul_le_mul next next (by positivity) nonneg
    norm_num at square below
    linarith

private theorem inverse_size_gap (positive : 0 < delta.size)
    (below : 1 / delta.size < 2 ^ 128 - 2 ^ 103) :
    1 / delta.size ≤ 2 ^ 128 - 2 ^ 103 - 2 ^ 75 := by
  rw [div_lt_iff₀ positive] at below
  rw [div_le_iff₀ positive]
  have above : 4503599761588228 * 2 ^ (-180 : Int) < delta.size := by
    refine lt_of_not_ge fun within => ?_
    norm_num at below within
    linarith
  have next := succ_le_size (m := 4503599761588228) (by decide) (by decide) (by decide) above
  norm_num at next ⊢
  linarith

private theorem isFinite_squareOf_iff (finite : delta.isFinite = true) :
    (squareOf delta).isFinite = true ↔ delta.value ^ 2 < 2 ^ 128 - 2 ^ 103 := by
  have known : |delta.size ^ 2| = delta.size ^ 2 := abs_of_nonneg (sq_nonneg _)
  have decided := isFinite_convert_iff (rounds_square finite) (known.symm ▸ size_square_gap)
  rwa [known, ← abs_value, sq_abs] at decided

private theorem isFinite_inverseOf_iff (finite : delta.isFinite = true)
    (nonzero : ¬ delta.isZero = true) :
    (inverseOf delta).isFinite = true ↔ 1 / |delta.value| < 2 ^ 128 - 2 ^ 103 := by
  have positive : 0 < delta.size :=
    (two_zpow_pos _).trans_le (least_le_size double_infinityCode_pos nonzero)
  have known := abs_inverse delta
  have decided := isFinite_convert_iff (rounds_inverse finite nonzero)
    (known.symm ▸ inverse_size_gap positive)
  rwa [known, ← abs_value] at decided

end Overflows

/-- Why a scale makes no loss: the first that applies of three causes. -/
inductive Rejected (delta : Double) : DeltaError → Prop
  | invalid (useless : delta.isZero = true ∨ delta.isNaN = true ∨ delta.isInfinite = true) :
    Rejected delta (.invalid delta)
  | squareOverflow (finite : delta.isFinite = true) (nonzero : delta.isZero = false)
    (square : (squareOf delta).isFinite = false) : Rejected delta (.squareOverflow delta)
  | inverseOverflow (finite : delta.isFinite = true) (nonzero : delta.isZero = false)
    (square : (squareOf delta).isFinite = true) (inverse : (inverseOf delta).isFinite = false) :
    Rejected delta (.inverseOverflow delta)

private theorem Rejected.ofDelta_eq {delta : Double} {e : DeltaError}
    (rejected : Rejected delta e) :
    ofDelta delta = .error e := by
  cases rejected with
  | invalid useless =>
    have unusable : (delta.isZero || !delta.isFinite) = true := by
      rw [← isFinite_eq_false_iff] at useless
      rcases useless with zeros | large
      · rw [zeros, Bool.true_or]
      · rw [large, Bool.not_false, Bool.or_true]
    rw [ofDelta, if_pos unusable]
  | squareOverflow finite nonzero square => simp [ofDelta, finite, nonzero, square]
  | inverseOverflow finite nonzero square inverse =>
    simp [ofDelta, finite, nonzero, square, inverse]

private theorem rejected_or_accepted (delta : Double) :
    (∃ e, Rejected delta e) ∨ ofDelta delta = .ok ⟨delta, inverseOf delta, squareOf delta⟩ := by
  cases nonzero : delta.isZero with
  | true => exact .inl ⟨_, .invalid (.inl nonzero)⟩
  | false =>
    cases finite : delta.isFinite with
    | false => exact .inl ⟨_, .invalid (.inr ((isFinite_eq_false_iff delta).mp finite))⟩
    | true =>
      cases square : (squareOf delta).isFinite with
      | false => exact .inl ⟨_, .squareOverflow finite nonzero square⟩
      | true =>
        cases inverse : (inverseOf delta).isFinite with
        | false => exact .inl ⟨_, .inverseOverflow finite nonzero square inverse⟩
        | true => exact .inr (ofDelta_eq_ok_iff.mpr ⟨nonzero, finite, square, inverse, rfl⟩)

private theorem ofDelta_eq_error_iff {delta : Double} {e : DeltaError} :
    ofDelta delta = .error e ↔ Rejected delta e := by
  refine ⟨fun failed => ?_, Rejected.ofDelta_eq⟩
  rcases rejected_or_accepted delta with ⟨cause, rejected⟩ | accepted
  · have errors := rejected.ofDelta_eq.symm.trans failed
    cases errors
    exact rejected
  · rw [failed] at accepted
    cases accepted

end PseudoHuber

namespace Loss

/-- The losses that the constructors give and those that configurations name. -/
inductive Obtainable : Loss → Prop
  | squared : Obtainable squared
  | logistic : Obtainable logistic
  | pseudoHuber {delta : Double} {h : PseudoHuber} (given : PseudoHuber.ofDelta delta = .ok h) :
    Obtainable (pseudoHuber h)
  | ofDelta {delta : Double} {l : Loss} (given : ofDelta delta = .ok l) : Obtainable l
  | ofClasses {classes : Nat} {l : Loss} (given : ofClasses classes = .ok l) : Obtainable l
  | ofConfig {c : LossConfig} {l : Loss} (given : ofConfig c = .ok l) : Obtainable l

private theorem ofDelta_of_ok {delta : Double} {h : PseudoHuber}
    (given : PseudoHuber.ofDelta delta = .ok h) :
    ofDelta delta = .ok (.pseudoHuber h) := by
  rw [ofDelta, given]

private theorem ofDelta_eq_ok_iff {delta : Double} {l : Loss} :
    ofDelta delta = .ok l ↔ ∃ h, PseudoHuber.ofDelta delta = .ok h ∧ l = .pseudoHuber h := by
  constructor
  · intro given
    cases made : PseudoHuber.ofDelta delta with
    | ok h =>
      rw [ofDelta_of_ok made] at given
      cases given
      exact ⟨h, rfl, rfl⟩
    | error e =>
      rw [ofDelta, made] at given
      cases given
  · rintro ⟨h, made, rfl⟩
    exact ofDelta_of_ok made

private theorem ofDelta_eq_error_iff {delta : Double} {e : LossError} :
    ofDelta delta = .error e ↔ ∃ cause, e = .delta cause ∧ PseudoHuber.Rejected delta cause := by
  simp only [← PseudoHuber.ofDelta_eq_error_iff]
  cases made : PseudoHuber.ofDelta delta with
  | ok h => simp [ofDelta_of_ok made]
  | error cause =>
    have failed : ofDelta delta = .error (.delta cause) := by rw [ofDelta, made]
    rw [failed]
    simp [eq_comm]

private theorem ofClasses_eq_ok_iff {classes : Nat} {l : Loss} :
    ofClasses classes = .ok l ↔ classes = binaryClasses ∧ l = .logistic := by
  rw [ofClasses]
  split
  · simp_all [eq_comm]
  · simp_all

private theorem ofConfig_toConfig_of_ok {delta : Double} {h : PseudoHuber}
    (given : PseudoHuber.ofDelta delta = .ok h) :
    ofConfig (toConfig (.pseudoHuber h)) = .ok (.pseudoHuber h) := by
  obtain ⟨-, -, -, -, rfl⟩ := PseudoHuber.ofDelta_eq_ok_iff.mp given
  exact ofDelta_of_ok given

private theorem toConfig_of_ofConfig {c : LossConfig} {l : Loss} (given : ofConfig c = .ok l) :
    l.toConfig = c := by
  cases c with
  | squared =>
    cases given
    rfl
  | pseudoHuber delta =>
    obtain ⟨h, made, rfl⟩ := ofDelta_eq_ok_iff.mp given
    obtain ⟨-, -, -, -, rfl⟩ := PseudoHuber.ofDelta_eq_ok_iff.mp made
    rfl
  | logistic classes =>
    obtain ⟨rfl, rfl⟩ := ofClasses_eq_ok_iff.mp given
    rfl

private theorem Obtainable.ofConfig_toConfig {l : Loss} (obtainable : l.Obtainable) :
    Loss.ofConfig l.toConfig = .ok l := by
  cases obtainable with
  | squared => rfl
  | logistic => rfl
  | pseudoHuber given => exact ofConfig_toConfig_of_ok given
  | ofDelta given =>
    obtain ⟨h, made, rfl⟩ := ofDelta_eq_ok_iff.mp given
    exact ofConfig_toConfig_of_ok made
  | ofClasses given =>
    obtain ⟨-, rfl⟩ := ofClasses_eq_ok_iff.mp given
    rfl
  | ofConfig given => rw [toConfig_of_ofConfig given, given]

/-- A loss has the configuration it was made from, and every loss that can be made is made again
from its configuration, constants included. A scale is rejected exactly for the first of three
causes that applies: it is zero or no finite number, its square overflows, or its inverse does; the
exact square and the exact inverse tell which of these overflow. -/
theorem configurations_round_trip :
    (∀ (c : LossConfig) (l : Loss), ofConfig c = .ok l → l.toConfig = c) ∧
      (∀ l : Loss, l.Obtainable → ofConfig l.toConfig = .ok l) ∧
      ∀ delta : Double,
        (∀ e : LossError, ofConfig (.pseudoHuber delta) = .error e ↔
          ∃ cause, e = .delta cause ∧ PseudoHuber.Rejected delta cause) ∧
        (delta.isFinite = true → delta.isZero = false →
          ((PseudoHuber.squareOf delta).isFinite = true ↔ delta.value ^ 2 < 2 ^ 128 - 2 ^ 103) ∧
          ((PseudoHuber.inverseOf delta).isFinite = true ↔
            1 / |delta.value| < 2 ^ 128 - 2 ^ 103)) := by
  refine ⟨fun c l => toConfig_of_ofConfig, fun l => Obtainable.ofConfig_toConfig,
    fun delta => ⟨fun e => ?_, ?_⟩⟩
  · exact ofDelta_eq_error_iff
  · intro finite nonzero
    exact ⟨PseudoHuber.isFinite_squareOf_iff finite,
      PseudoHuber.isFinite_inverseOf_iff finite (ne_true_of_eq_false nonzero)⟩

theorem configurations_round_trip_of_three_scales :
    let halved : Loss := .pseudoHuber ⟨-0.5, -2, 0.25⟩
    ofConfig (.pseudoHuber (-0.5)) = .ok halved ∧ halved.toConfig = .pseudoHuber (-0.5) ∧
      ofConfig halved.toConfig = .ok halved ∧
      ofConfig (.pseudoHuber 1e30) = .error (.delta (.squareOverflow 1e30)) ∧
      ofConfig (.pseudoHuber 1e-40) = .error (.delta (.inverseOverflow 1e-40)) := by
  intro halved
  have accepted : ofConfig (.pseudoHuber (-0.5)) = .ok halved := by decide +kernel
  obtain ⟨back, again, scales⟩ := configurations_round_trip
  have large := (scales 1e30).1 (.delta (.squareOverflow 1e30))
  have small := (scales 1e-40).1 (.delta (.inverseOverflow 1e-40))
  refine ⟨accepted, back _ _ accepted, again _ (.ofConfig accepted), large.mpr ⟨_, rfl, ?_⟩,
    small.mpr ⟨_, rfl, ?_⟩⟩
  · exact .squareOverflow (by decide +kernel) (by decide +kernel) (by decide +kernel)
  · exact .inverseOverflow (by decide +kernel) (by decide +kernel) (by decide +kernel)
      (by decide +kernel)

end Loss

end Boosting
