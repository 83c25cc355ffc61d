/- Powers of two and ten.
   The powers that formats, fields and grids are measured in. They are functions of their own, so
   that their meaning does not hang on which instances of exponentiation are in scope. -/

set_option autoImplicit false
set_option relaxedAutoImplicit false

namespace Boosting

def twoPow (n : Nat) : Nat :=
  1 <<< n

def tenPow (n : Nat) : Nat :=
  Nat.pow 10 n

theorem twoPow_zero : twoPow 0 = 1 := rfl

theorem twoPow_succ (n : Nat) : twoPow (n + 1) = 2 * twoPow n := by
  simp only [twoPow, Nat.shiftLeft_succ]

theorem twoPow_pos : ∀ n : Nat, 0 < twoPow n
  | 0 => by decide
  | n + 1 => by
    have shorter := twoPow_pos n
    rw [twoPow_succ]
    omega

end Boosting
