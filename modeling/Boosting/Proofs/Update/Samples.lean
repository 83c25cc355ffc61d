/- The samples of a general update.
   Each sample has a value of its own after an update: it depends on its score, its target, its
   weight, its update and the lanes that handle it. The metric adds up the terms of the samples,
   those of full registers through the sums of the registers. A step of an update handles a
   register, or a sample past the last register. -/

import Boosting.Proofs.Update.Blocks
import Boosting.Proofs.Update.Drawing

set_option autoImplicit false
set_option relaxedAutoImplicit false

namespace Boosting

structure MovedSample where
  score : Single
  gradient : Single
  hessian : Single
  term : Single

/-- What a metric adds up: the sums of full registers, then the terms that fill none. -/
def addends (terms : List Single) : List Single :=
  let body := terms.length - terms.length % Lanes.widest.width
  (segments Lanes.widest.width (terms.take body)).map Lanes.widest.sum ++ terms.drop body

/-- Numbers added up from zero on, one after another, in the wider format. -/
def total (numbers : List Single) : Double :=
  (numbers.map fun number => number.convert).foldl (· + ·) (.zero false)

theorem total_concat (numbers : List Single) (number : Single) :
    total (numbers ++ [number]) = total numbers + number.convert := by
  simp only [total, List.map_append, List.map_cons, List.map_nil, List.foldl_append,
    List.foldl_cons, List.foldl_nil]

private theorem addends_register {terms register : List Single}
    (whole : Lanes.widest.width ∣ terms.length) (full : register.length = Lanes.widest.width) :
    addends (terms ++ register) = addends terms ++ [Lanes.widest.sum register] := by
  have before : terms.length % Lanes.widest.width = 0 := Nat.mod_eq_zero_of_dvd whole
  have after : (terms ++ register).length % Lanes.widest.width = 0 := by
    rw [List.length_append, full, Nat.add_mod_right, before]
  simp only [addends, before, after, Nat.sub_zero, List.take_length, List.drop_length,
    List.append_nil]
  rw [segments_concat (by decide) whole full, List.map_append, List.map_cons, List.map_nil]

private theorem addends_single {terms : List Single} (term : Single)
    (short : terms.length % Lanes.widest.width + 1 < Lanes.widest.width) :
    addends (terms ++ [term]) = addends terms ++ [term] := by
  have front : (terms ++ [term]).length - (terms ++ [term]).length % Lanes.widest.width =
      terms.length - terms.length % Lanes.widest.width := by
    rw [List.length_append, List.length_singleton]
    simp only [show Lanes.widest.width = 8 from rfl] at short ⊢
    omega
  have inside : terms.length - terms.length % Lanes.widest.width ≤ terms.length := Nat.sub_le _ _
  simp only [addends, front]
  rw [List.take_append_of_le_length inside, List.drop_append_of_le_length inside, List.append_assoc]

namespace Loss

def moved (loss : Loss) (k : Lanes) (score target : Single) (weight : Option Single) :
    MovedSample :=
  let term := loss.metric k score target
  { score
    gradient := loss.gradient k score target
    hessian := (loss.gradientHessian k score target).2
    term := (weight.map (term * ·)).getD term }

theorem fst_gradientHessian (loss : Loss) (k : Lanes) (score target : Single) :
    (loss.gradientHessian k score target).1 = loss.gradient k score target := by
  cases loss <;> rfl

end Loss

namespace GeneralBuffers

def lanes (b : GeneralBuffers) (i : Nat) : Lanes :=
  if i < b.body then .widest else .scalar

def movedSample (b : GeneralBuffers) (loss : Loss) (updates : List Single) (i : Nat) :
    MovedSample :=
  loss.moved (b.lanes i) (b.scores.getD i default + updates.getD i default)
    (b.targets.getD i default) b.weights[i]?

def movedSamples (b : GeneralBuffers) (loss : Loss) (updates : List Single) : List MovedSample :=
  (List.range b.samples).map (b.movedSample loss updates)

@[simp] theorem length_movedSamples (b : GeneralBuffers) (loss : Loss) (updates : List Single) :
    (b.movedSamples loss updates).length = b.samples := by
  rw [movedSamples, List.length_map, List.length_range]

theorem getElem?_movedSamples {b : GeneralBuffers} (loss : Loss) (updates : List Single) {i : Nat}
    (inside : i < b.samples) :
    (b.movedSamples loss updates)[i]? = some (b.movedSample loss updates i) := by
  rw [movedSamples, List.getElem?_map, List.getElem?_range inside, Option.map_some]

/-- Buffers of one length; those of hessians and weights may be empty. -/
structure Fits (b : GeneralBuffers) : Prop where
  scores : b.scores.length = b.samples
  targets : b.targets.length = b.samples
  hessians : b.hessians ≠ [] → b.hessians.length = b.samples
  weights : b.weights ≠ [] → b.weights.length = b.samples

theorem Fits.getElem?_scores {b : GeneralBuffers} (fits : b.Fits) {i : Nat}
    (inside : i < b.samples) :
    b.scores[i]? = some (b.scores.getD i default) :=
  getElem?_eq_some_getD (Nat.lt_of_lt_of_eq inside fits.scores.symm) default

theorem Fits.getElem?_targets {b : GeneralBuffers} (fits : b.Fits) {i : Nat}
    (inside : i < b.samples) :
    b.targets[i]? = some (b.targets.getD i default) :=
  getElem?_eq_some_getD (Nat.lt_of_lt_of_eq inside fits.targets.symm) default

structure Handles (b : GeneralBuffers) (k : Lanes) (start : Nat) : Prop where
  inside : start + k.width ≤ b.samples
  lanes : ∀ i, start ≤ i → i < start + k.width → b.lanes i = k
  addends : ∀ terms : List Single, terms.length = b.samples →
    addends (terms.take (start + k.width)) =
      addends (terms.take start) ++ [k.sum (excerpt start k.width terms)]

variable {b : GeneralBuffers}

theorem body_le (b : GeneralBuffers) : b.body ≤ b.samples :=
  Nat.sub_le _ _

theorem handles_register {start : Nat} (whole : Lanes.widest.width ∣ start)
    (inside : start + Lanes.widest.width ≤ b.body) : b.Handles .widest start := by
  have within := Nat.le_trans inside b.body_le
  refine ⟨within, ?_, ?_⟩
  · intro i _ before
    exact if_pos (Nat.lt_of_lt_of_le before inside)
  · intro terms length
    have front : (terms.take start).length = start := List.length_take_of_le (by omega)
    rw [← take_append_excerpt]
    refine addends_register ?_ (length_excerpt (by omega))
    rw [front]
    exact whole

theorem handles_single {start : Nat} (past : b.body ≤ start) (inside : start < b.samples) :
    b.Handles .scalar start := by
  refine ⟨inside, ?_, ?_⟩
  · intro i first _
    exact if_neg (Nat.not_lt.mpr (Nat.le_trans past first))
  · intro terms length
    have front : (terms.take start).length = start := List.length_take_of_le (by omega)
    have one : (excerpt start 1 terms).length = 1 := length_excerpt (by omega)
    obtain ⟨term, alone⟩ := List.length_eq_one_iff.mp one
    have width : Lanes.scalar.width = 1 := rfl
    rw [← take_append_excerpt, width, alone]
    refine addends_single term ?_
    rw [front]
    have bound := Nat.mod_lt b.samples (show 0 < Lanes.widest.width by decide)
    simp only [body, show Lanes.widest.width = 8 from rfl] at past bound ⊢
    omega

end GeneralBuffers

end Boosting
