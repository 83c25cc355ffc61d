/- Lookups in the tensor.
   An update with every lookup of a cell checked: one outside the tensor is a failure. No update
   fails that way. Validation leaves only bins that are indices of cells, and nothing is looked
   up before it. -/

import Boosting.Proofs.Update.Drawing

set_option autoImplicit false
set_option relaxedAutoImplicit false

namespace Boosting

namespace UpdateSupply

/-- The next update, unless its bin is not the index of a cell. -/
def next? : UpdateSupply → Option (Option Single × UpdateSupply)
  | constant update 0 => some (none, constant update 0)
  | constant update (left + 1) => some (some update, constant update left)
  | selected tensor bins =>
    match bins.next with
    | (none, after) => some (none, selected tensor after)
    | (some bin, after) => do some (some (← tensor[bin]?), selected tensor after)

def fill? : List Single → UpdateSupply → Option (List Single × UpdateSupply)
  | [], supply => some ([], supply)
  | slot :: slots, supply => do
    match ← supply.next? with
    | (none, after) => some (slot :: slots, after)
    | (some update, after) =>
      let (filled, last) ← fill? slots after
      some (update :: filled, last)

def Inside : UpdateSupply → Prop
  | constant _ _ => True
  | selected tensor bins => bins.Aligned ∧ ∀ bin ∈ bins.pending, bin < tensor.length

variable {supply : UpdateSupply}

private theorem exists_next (inside : supply.Inside) : ∃ drawn after,
    supply.next = (drawn, after) ∧ supply.next? = some (drawn, after) ∧ after.Inside := by
  cases supply with
  | constant update left => cases left <;> exact ⟨_, _, rfl, rfl, trivial⟩
  | selected tensor bins =>
    obtain ⟨aligned, cells⟩ := inside
    rcases Packing.Cursor.next_spec aligned with ⟨-, stays⟩ | ⟨bin, after, reads, pending, left⟩
    · refine ⟨none, selected tensor bins, ?_, ?_, aligned, cells⟩
      · rw [next, stays]
      · rw [next?, stays]
    · rw [pending, List.forall_mem_cons] at cells
      obtain ⟨first, later⟩ := cells
      have cell := List.getElem?_eq_getElem first
      refine ⟨some tensor[bin], selected tensor after, ?_, ?_, left, later⟩
      · simp only [next, reads, List.getD_eq_getElem?_getD, cell, Option.getD_some]
      · simp only [next?, reads, cell, Option.bind_eq_bind, Option.bind_some]

private theorem fill?_eq_some (inside : supply.Inside) (slots : List Single) :
    fill? slots supply = some (fill slots supply) ∧ (fill slots supply).2.Inside := by
  induction slots generalizing supply with
  | nil => exact ⟨rfl, inside⟩
  | cons slot slots ih =>
    obtain ⟨drawn, after, draws, checked, later⟩ := exists_next inside
    rw [fill?, fill, draws, checked]
    cases drawn with
    | none => exact ⟨rfl, later⟩
    | some update =>
      obtain ⟨filled, rest⟩ := ih later
      refine ⟨?_, rest⟩
      simp only [Option.bind_eq_bind, Option.bind_some, filled]

end UpdateSupply

def BinSource.supply? (source : BinSource) (tensor : List Single) (samples : Nat) :
    Option UpdateSupply :=
  match source with
  | scalar => do some (.constant (← tensor[0]?) samples)
  | packed words items => some (.selected tensor (.start words items samples))

private theorem BinSource.supply?_eq_some {source : BinSource} {tensor : List Single}
    {samples : Nat} (covers : source.Covers samples tensor.length) (nonempty : tensor ≠ []) :
    source.supply? tensor samples = some (source.supply tensor samples) ∧
      (source.supply tensor samples).Inside := by
  cases source with
  | scalar =>
    obtain ⟨cell, cells, rfl⟩ := List.exists_cons_of_ne_nil nonempty
    exact ⟨rfl, trivial⟩
  | packed words items =>
    have valid := (Packing.validItems_iff items).mpr covers.1
    have aligned := Packing.Cursor.aligned_start valid words samples
    refine ⟨rfl, aligned, ?_⟩
    rw [← Packing.Cursor.items_eq_pending aligned]
    exact covers.2.2

namespace SquaredMove

def run? (metric : Bool) (supply : UpdateSupply) (gradients scores weights : List Single)
    (sum : Double) : Option SquaredMove :=
  match gradients with
  | [] => some ⟨[], scores, sum⟩
  | gradient :: gradients => do
    match ← supply.next? with
    | (none, _) => some ⟨gradient :: gradients, scores, sum⟩
    | (some update, supply) =>
      let moved := gradient + update
      let rest ← run? metric supply gradients scores.tail weights.tail
        (addTerm metric weights moved sum)
      some
        { gradients := moved :: rest.gradients
          scores := (scores.head?.map (· + update)).toList ++ rest.scores
          sum := rest.sum }

private theorem run?_eq_some {supply : UpdateSupply} (inside : supply.Inside) (metric : Bool)
    (gradients scores weights : List Single) (sum : Double) :
    run? metric supply gradients scores weights sum =
      some (run metric supply gradients scores weights sum) := by
  induction gradients generalizing supply scores weights sum with
  | nil => rfl
  | cons gradient gradients ih =>
    obtain ⟨drawn, after, draws, checked, later⟩ := UpdateSupply.exists_next inside
    rw [run?, run, draws, checked]
    cases drawn with
    | none => rfl
    | some update => simp only [Option.bind_eq_bind, Option.bind_some, ih later]

end SquaredMove

namespace GeneralMove

variable (loss : Loss) (wanted : Wanted)

def registers? : Nat → Nat → GeneralMove → Option GeneralMove
  | 0, _, m => some m
  | count + 1, start, m => do
    let (slots, supply) ← m.supply.fill? m.slots
    registers? count (start + Lanes.widest.width)
      ({ m with supply, slots }.advance .widest loss wanted slots start)

def singles? : Nat → Nat → GeneralMove → Option GeneralMove
  | 0, _, m => some m
  | count + 1, start, m => do
    match ← m.supply.next? with
    | (none, supply) => some { m with supply }
    | (some update, supply) =>
      singles? count (start + 1)
        ({ m with supply }.advance .scalar loss wanted [update] start)

def run? (metric : Bool) (supply : UpdateSupply) (b : GeneralBuffers) : Option GeneralMove := do
  let wanted := b.wanted metric
  let body ← registers? loss wanted (b.body / Lanes.widest.width) 0 (initial supply b)
  singles? loss wanted (b.samples - b.body) b.body body

private theorem registers?_eq_some (count start : Nat) {m : GeneralMove}
    (inside : m.supply.Inside) :
    registers? loss wanted count start m = some (registers loss wanted count start m) ∧
      (registers loss wanted count start m).supply.Inside := by
  induction count generalizing start m with
  | zero => exact ⟨rfl, inside⟩
  | succ count ih =>
    obtain ⟨checked, later⟩ := UpdateSupply.fill?_eq_some inside m.slots
    rw [registers?, registers, checked]
    exact ih _ later

private theorem singles?_eq_some (count start : Nat) {m : GeneralMove}
    (inside : m.supply.Inside) :
    singles? loss wanted count start m = some (singles loss wanted count start m) := by
  induction count generalizing start m with
  | zero => rfl
  | succ count ih =>
    obtain ⟨drawn, after, draws, checked, later⟩ := UpdateSupply.exists_next inside
    rw [singles?, singles, draws, checked]
    cases drawn with
    | none => rfl
    | some update => exact ih _ later

private theorem run?_eq_some {supply : UpdateSupply} (inside : supply.Inside) (metric : Bool)
    (b : GeneralBuffers) : run? loss metric supply b = some (run loss metric supply b) := by
  obtain ⟨body, later⟩ := registers?_eq_some loss (b.wanted metric)
    (b.body / Lanes.widest.width) 0 (m := initial supply b) inside
  rw [run?, run]
  simp only [Option.bind_eq_bind, Option.bind_some, body]
  exact singles?_eq_some loss _ _ _ later

end GeneralMove

namespace Batch

def moveSquared? (b : Batch) : Option UpdateResult :=
  if b.buffers.hessians.isSome then
    some (b.reject (.hessianUnsupported .squared))
  else do
    let supply ← b.source.supply? b.tensor b.samples
    let move ← SquaredMove.run? b.metric supply b.buffers.gradients (b.buffers.scores.getD [])
      (b.weights.getD []) (.zero false)
    some ⟨.ok (b.reported move.sum),
      { b.buffers with
        gradients := move.gradients
        scores := b.buffers.scores.map fun _ => move.scores }⟩

def moveGeneral? (b : Batch) (loss : Loss) : Option UpdateResult :=
  if b.buffers.hessians.isSome && !loss.hasHessian then
    some (b.reject (.hessianUnsupported loss))
  else
    match b.buffers.scores, b.targets with
    | none, _ => some (b.reject (.missingScores loss))
    | _, none => some (b.reject (.missingTargets loss))
    | some scores, some targets => do
      let supply ← b.source.supply? b.tensor b.samples
      let move ← GeneralMove.run? loss b.metric supply (b.generalBuffers scores targets)
      some ⟨.ok (b.reported move.metric),
        { gradients := move.buffers.gradients
          hessians := b.buffers.hessians.map fun _ => move.buffers.hessians
          scores := some move.buffers.scores }⟩

def applyWith? (b : Batch) (loss : Loss) (move? : Batch → Option UpdateResult) :
    Option (Noted UpdateResult) :=
  match b.validate with
  | .error e =>
    let rejected := b.reject e
    some ⟨rejection rejected, rejected⟩
  | .ok () =>
    let entered := Notice.updateEntered loss.name b.samples
    if b.samples = 0 then
      some ⟨[entered], ⟨.ok (b.reported (.zero false)), b.buffers⟩⟩
    else do
      let moved ← move? b
      match moved.ending with
      | .error _ => some ⟨entered :: rejection moved, moved⟩
      | .ok _ => some ⟨[entered, .updateExited loss.name], moved⟩

/-- An update by any path, unless it looks for a cell outside the tensor. -/
def applyBy? (b : Batch) (path : UpdatePath) (loss : Loss) : Option (Noted UpdateResult) :=
  if path.needsScores loss then
    b.applyWith? loss (·.moveGeneral? loss)
  else
    b.applyWith? .squared moveSquared?

variable {b : Batch} {loss : Loss}

private theorem moveSquared?_eq_some (covers : b.source.Covers b.samples b.tensor.length)
    (nonempty : b.tensor ≠ []) : b.moveSquared? = some b.moveSquared := by
  obtain ⟨supplied, inside⟩ := BinSource.supply?_eq_some covers nonempty
  rw [moveSquared?, moveSquared, supplied]
  split
  · rfl
  · simp only [Option.bind_eq_bind, Option.bind_some, SquaredMove.run?_eq_some inside]
    rfl

private theorem moveGeneral?_eq_some (covers : b.source.Covers b.samples b.tensor.length)
    (nonempty : b.tensor ≠ []) : b.moveGeneral? loss = some (b.moveGeneral loss) := by
  obtain ⟨supplied, inside⟩ := BinSource.supply?_eq_some covers nonempty
  rw [moveGeneral?, moveGeneral, supplied]
  split
  · rfl
  · cases b.buffers.scores with
    | none => rfl
    | some scores =>
      cases b.targets with
      | none => rfl
      | some targets =>
        simp only [Option.bind_eq_bind, Option.bind_some, GeneralMove.run?_eq_some loss inside]
        rfl

private theorem applyWith?_eq_some {move? : Batch → Option UpdateResult}
    {move : Batch → UpdateResult}
    (moves : b.validate = .ok () → b.samples ≠ 0 → move? b = some (move b)) :
    b.applyWith? loss move? = some (b.applyWith loss move) := by
  rw [applyWith?, applyWith]
  cases valid : b.validate with
  | error e => rfl
  | ok _ =>
    by_cases empty : b.samples = 0
    · simp only [if_pos empty]
    · simp only [if_neg empty, moves valid empty, Option.bind_eq_bind, Option.bind_some]
      cases (move b).ending <;> rfl

private theorem applyBy?_eq_some (b : Batch) (path : UpdatePath) (loss : Loss) :
    b.applyBy? path loss = some (b.applyBy path loss) := by
  rcases squared_or_general path loss with ⟨needsScores, -, isSquared⟩ | ⟨needsScores, -, isGeneral⟩
  · rw [applyBy?, needsScores, isSquared, if_neg Bool.false_ne_true]
    refine applyWith?_eq_some fun valid nonempty => ?_
    obtain ⟨tensor, covers⟩ := covers_of_validate valid nonempty
    exact moveSquared?_eq_some covers tensor
  · rw [applyBy?, needsScores, isGeneral, if_pos rfl]
    refine applyWith?_eq_some fun valid nonempty => ?_
    obtain ⟨tensor, covers⟩ := covers_of_validate valid nonempty
    exact moveGeneral?_eq_some covers tensor

/-- An update is applied exactly if the batch is acceptable, and then the updates that it draws are
the cells of its bins, one for each sample. No update looks for a cell outside the tensor. One that
is not applied ends with the error of its first failing check, which names the largest bin if bins
are the reason, and nothing is written. -/
theorem applyBy_ok_iff_acceptable (b : Batch) (path : UpdatePath) (loss : Loss) :
    ((∃ metric, (b.applyBy path loss).result.ending = .ok metric) ↔
        b.Acceptable (path.lossOf loss) (path.needsScores loss)) ∧
      b.applyBy? path loss = some (b.applyBy path loss) ∧
      (∀ metric, (b.applyBy path loss).result.ending = .ok metric →
        (b.source.bins b.samples).length = b.samples ∧
          (∀ bin ∈ b.source.bins b.samples, bin < b.tensor.length) ∧
          b.supply.pending.map some = (b.source.bins b.samples).map fun bin => b.tensor[bin]?) ∧
      (∀ e, (b.applyBy path loss).result.ending = .error e →
        firstFailure (b.checks (path.lossOf loss) (path.needsScores loss)) = some e ∧
          (b.applyBy path loss).result.buffers = b.buffers) ∧
      ∀ bin cells, (b.applyBy path loss).result.ending = .error (.binOutOfRange bin cells) →
        cells = b.tensor.length ∧ cells ≤ bin ∧ (b.source.bins b.samples).max? = some bin := by
  have checked := applyBy?_eq_some b path loss
  rcases b.accepted_or_rejected path loss with ⟨acceptable, metric, ending⟩ | ⟨e, failure, rejected⟩
  · obtain ⟨length, cells⟩ := acceptable.bins_lt
    rw [ending]
    exact ⟨iff_of_true ⟨_, rfl⟩ acceptable, checked,
      fun _ _ => ⟨length, cells, pending_cells acceptable⟩, by simp, by simp⟩
  · have unacceptable : ¬ b.Acceptable (path.lossOf loss) (path.needsScores loss) := by
      rw [← checks_hold_iff, ← firstFailure_eq_none_iff, failure]
      exact Option.some_ne_none e
    rw [rejected]
    refine ⟨iff_of_false (by simp [reject]) unacceptable, checked, by simp [reject], ?_, ?_⟩
    · intro e' ended
      obtain rfl := Except.error.inj ended
      exact ⟨failure, rfl⟩
    · intro bin cells ended
      obtain rfl := Except.error.inj ended
      exact largest_of_firstFailure failure

end Batch

end Boosting
