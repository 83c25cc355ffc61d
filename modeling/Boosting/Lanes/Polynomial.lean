/- Polynomials in few dependent steps.
   Polynomials of degree five and eight whose terms are paired up and joined by powers of the
   argument. The order of the operations fixes every rounding. -/

import Boosting.Lanes.Basic

set_option autoImplicit false
set_option relaxedAutoImplicit false

namespace Boosting

structure Quintic where
  c0 : Single
  c1 : Single
  c2 : Single
  c3 : Single
  c4 : Single
  c5 : Single

structure Octic where
  c0 : Single
  c1 : Single
  c2 : Single
  c3 : Single
  c4 : Single
  c5 : Single
  c6 : Single
  c7 : Single
  c8 : Single

namespace Quintic

def ofList? : List Single → Option Quintic
  | [c0, c1, c2, c3, c4, c5] => some ⟨c0, c1, c2, c3, c4, c5⟩
  | _ => none

def eval (p : Quintic) (k : Lanes) (x : Single) : Single :=
  let x2 := x * x
  let x4 := x2 * x2
  let low := k.fma x p.c1 p.c0
  let middle := k.fma x p.c3 p.c2
  let high := k.fma x p.c5 p.c4
  k.fma middle x2 (k.fma high x4 low)

end Quintic

namespace Octic

def ofList? : List Single → Option Octic
  | [c0, c1, c2, c3, c4, c5, c6, c7, c8] => some ⟨c0, c1, c2, c3, c4, c5, c6, c7, c8⟩
  | _ => none

def eval (p : Octic) (k : Lanes) (x : Single) : Single :=
  let x2 := x * x
  let x4 := x2 * x2
  let x8 := x4 * x4
  let p01 := k.fma x p.c1 p.c0
  let p23 := k.fma x p.c3 p.c2
  let p45 := k.fma x p.c5 p.c4
  let p67 := k.fma x p.c7 p.c6
  let upper := k.fma p67 x2 p45
  let lower := k.fma p23 x2 (p01 + p.c8 * x8)
  k.fma upper x4 lower

end Octic

end Boosting
