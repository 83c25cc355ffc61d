/- Layouts of the same bins.
   Two sources of the same bins may differ in the number of items to a word, in unused bits and
   in surplus words, or be packed and scalar. Validation reads nothing of a source but its bins,
   and their supplies yield the same updates, one after another, so an update cannot tell them
   apart. -/

import Boosting.Proofs.Packing.Positions
import Boosting.Proofs.Update.Drawing

set_option autoImplicit false
set_option relaxedAutoImplicit false

namespace Boosting

namespace BinSource

variable {samples : Nat}

private theorem validate_of_readable {source : BinSource} (readable : source.Readable samples)
    {cells : Nat} (pos : 0 < cells) :
    source.validate samples cells =
      if (source.bins samples).all fun bin => bin < cells then .ok ()
      else .error (.binOutOfRange ((source.bins samples).max?.getD 0) cells) := by
  cases source with
  | scalar =>
    have inside : ((BinSource.scalar.bins samples).all fun bin => bin < cells) = true := by
      rw [List.all_eq_true]
      intro bin member
      rw [List.eq_of_mem_replicate member]
      exact decide_eq_true pos
    rw [if_pos inside, validate]
  | packed words items =>
    obtain ⟨possible, enough⟩ := readable
    have valid := (Packing.validItems_iff items).mpr possible
    have long : ¬ words.length < Packing.wordCount samples items := Nat.not_lt.mpr enough
    rw [validate, valid, Bool.not_true, if_neg Bool.false_ne_true, if_neg long]
    exact Batch.scan_eq valid words samples cells

end BinSource

namespace UpdateSupply

/-- Supplies that hold the same updates, in whatever layout. -/
structure Alike (s t : UpdateSupply) : Prop where
  left : s.Aligned
  right : t.Aligned
  pending : s.pending = t.pending

variable {s t : UpdateSupply}

private theorem Alike.next (alike : s.Alike t) :
    (s.next = (none, s) ∧ t.next = (none, t)) ∨
      ∃ update s' t', s.next = (some update, s') ∧ t.next = (some update, t') ∧ s'.Alike t' := by
  have updates := alike.pending
  rcases next_spec alike.left with ⟨empty, stays⟩ | ⟨update, s', draws, pending, aligned⟩
  · rcases next_spec alike.right with ⟨-, stays'⟩ | ⟨update', t', -, pending', -⟩
    · exact Or.inl ⟨stays, stays'⟩
    · rw [empty, pending'] at updates
      cases updates
  · rcases next_spec alike.right with ⟨empty', -⟩ | ⟨update', t', draws', pending', aligned'⟩
    · rw [pending, empty'] at updates
      cases updates
    · rw [pending, pending'] at updates
      obtain ⟨rfl, rest⟩ := List.cons.inj updates
      exact Or.inr ⟨update, s', t', draws, draws', aligned, aligned', rest⟩

private theorem Alike.fill (alike : s.Alike t) (slots : List Single) :
    (fill slots s).1 = (fill slots t).1 ∧ (fill slots s).2.Alike (fill slots t).2 := by
  induction slots generalizing s t with
  | nil => exact ⟨rfl, alike⟩
  | cons slot slots ih =>
    rcases alike.next with ⟨stays, stays'⟩ | ⟨update, s', t', draws, draws', after⟩
    · simp only [UpdateSupply.fill, stays, stays', true_and]
      exact alike
    · obtain ⟨filled, left⟩ := ih after
      simp only [UpdateSupply.fill, draws, draws', filled, true_and]
      exact left

end UpdateSupply

private theorem SquaredMove.run_alike {s t : UpdateSupply} (alike : s.Alike t) (metric : Bool)
    (gradients scores weights : List Single) (sum : Double) :
    run metric s gradients scores weights sum = run metric t gradients scores weights sum := by
  induction gradients generalizing s t scores weights sum with
  | nil => rfl
  | cons gradient gradients ih =>
    rcases alike.next with ⟨stays, stays'⟩ | ⟨update, s', t', draws, draws', after⟩
    · simp only [run, stays, stays']
    · simp only [run, draws, draws', ih after]

namespace GeneralMove

structure Alike (m n : GeneralMove) : Prop where
  supply : m.supply.Alike n.supply
  slots : m.slots = n.slots
  buffers : m.buffers = n.buffers
  metric : m.metric = n.metric

variable {m n : GeneralMove} (loss : Loss) (wanted : Wanted)

private theorem Alike.advance (alike : m.Alike n) (k : Lanes) (updates : List Single)
    (start : Nat) :
    (m.advance k loss wanted updates start).Alike (n.advance k loss wanted updates start) := by
  refine ⟨alike.supply, alike.slots, ?_, ?_⟩
  · simp only [GeneralMove.advance, alike.buffers]
  · simp only [GeneralMove.advance, alike.buffers, alike.metric]

private theorem Alike.registers (alike : m.Alike n) (count start : Nat) :
    (GeneralMove.registers loss wanted count start m).Alike
      (GeneralMove.registers loss wanted count start n) := by
  induction count generalizing start m n with
  | zero => exact alike
  | succ count ih =>
    -- What a fill leaves in the slots depends on the pending updates only, also where they run out.
    have drawn := alike.supply.fill m.slots
    rw [GeneralMove.registers, GeneralMove.registers, ← alike.slots]
    generalize UpdateSupply.fill m.slots m.supply = first at drawn ⊢
    generalize UpdateSupply.fill m.slots n.supply = second at drawn ⊢
    obtain ⟨slots, left⟩ := first
    obtain ⟨slots', left'⟩ := second
    obtain ⟨rfl, after⟩ := drawn
    have filled : Alike { m with supply := left, slots } { n with supply := left', slots } :=
      ⟨after, rfl, alike.buffers, alike.metric⟩
    exact ih (filled.advance loss wanted .widest slots start) _

private theorem Alike.singles (alike : m.Alike n) (count start : Nat) :
    (GeneralMove.singles loss wanted count start m).Alike
      (GeneralMove.singles loss wanted count start n) := by
  induction count generalizing start m n with
  | zero => exact alike
  | succ count ih =>
    rcases alike.supply.next with ⟨stays, stays'⟩ | ⟨update, left, left', draws, draws', after⟩
    · simp only [GeneralMove.singles, stays, stays']
      exact ⟨alike.supply, alike.slots, alike.buffers, alike.metric⟩
    · have drawn : Alike { m with supply := left } { n with supply := left' } :=
        ⟨after, alike.slots, alike.buffers, alike.metric⟩
      simp only [GeneralMove.singles, draws, draws']
      exact ih (drawn.advance loss wanted .scalar [update] start) _

private theorem run_alike {s t : UpdateSupply} (alike : s.Alike t) (metric : Bool)
    (b : GeneralBuffers) :
    (run loss metric s b).Alike (run loss metric t b) := by
  have start : (initial s b).Alike (initial t b) := ⟨alike, rfl, rfl, rfl⟩
  exact (start.registers loss _ _ _).singles loss _ _ _

end GeneralMove

namespace Batch

/-- Batches that differ only in the source of their bins, and read the same bins from it. -/
structure SameBins (a b : Batch) : Prop where
  left : a.source.Readable a.samples
  right : b.source.Readable b.samples
  bins : a.source.bins a.samples = b.source.bins b.samples
  tensor : a.tensor = b.tensor
  buffers : a.buffers = b.buffers
  targets : a.targets = b.targets
  weights : a.weights = b.weights
  metric : a.metric = b.metric

namespace SameBins

variable {a b : Batch}

private theorem samples (sameBins : a.SameBins b) : a.samples = b.samples := by
  rw [Batch.samples, Batch.samples, sameBins.buffers]

private theorem reject (sameBins : a.SameBins b) (e : UpdateError) : a.reject e = b.reject e := by
  rw [Batch.reject, Batch.reject, sameBins.buffers]

private theorem reported (sameBins : a.SameBins b) (metric : Double) :
    a.reported metric = b.reported metric := by
  rw [Batch.reported, Batch.reported, sameBins.metric]

private theorem supply (sameBins : a.SameBins b) : a.supply.Alike b.supply := by
  obtain ⟨aligned, pending⟩ := BinSource.supply_spec sameBins.left a.tensor
  obtain ⟨aligned', pending'⟩ := BinSource.supply_spec sameBins.right b.tensor
  refine ⟨aligned, aligned', ?_⟩
  rw [Batch.supply, Batch.supply, pending, pending', sameBins.bins, sameBins.tensor]

private theorem validate (sameBins : a.SameBins b) : a.validate = b.validate := by
  have lengths : a.optionalBuffers = b.optionalBuffers := by
    rw [optionalBuffers, optionalBuffers, sameBins.buffers, sameBins.targets, sameBins.weights]
  rw [Batch.validate, Batch.validate, sameBins.samples, lengths, sameBins.tensor]
  cases empty : b.tensor.isEmpty with
  | true => rfl
  | false =>
    have pos : 0 < b.tensor.length := by
      rw [List.length_pos_iff]
      exact List.isEmpty_eq_false_iff.mp empty
    -- A layout whose fields cannot exceed the tensor is not scanned, but a scan would find nothing.
    have left := sameBins.left
    have bins := sameBins.bins
    rw [sameBins.samples] at left bins
    rw [BinSource.validate_of_readable left pos, BinSource.validate_of_readable sameBins.right pos,
      bins]

private theorem moveSquared (sameBins : a.SameBins b) : a.moveSquared = b.moveSquared := by
  rw [Batch.moveSquared, Batch.moveSquared, SquaredMove.run_alike sameBins.supply]
  simp only [sameBins.buffers, sameBins.weights, sameBins.metric, sameBins.reject,
    sameBins.reported]

private theorem moveGeneral (sameBins : a.SameBins b) (loss : Loss) :
    a.moveGeneral loss = b.moveGeneral loss := by
  have buffers : a.generalBuffers = b.generalBuffers := by
    funext scores targets
    rw [generalBuffers, generalBuffers, sameBins.buffers, sameBins.weights]
  simp only [Batch.moveGeneral, sameBins.buffers, sameBins.targets, sameBins.metric,
    sameBins.reject, sameBins.reported, buffers]
  split
  · rfl
  · cases b.buffers.scores with
    | none => rfl
    | some scores =>
      cases b.targets with
      | none => rfl
      | some targets =>
        have move :=
          GeneralMove.run_alike loss sameBins.supply b.metric (b.generalBuffers scores targets)
        simp only [move.buffers, move.metric]

private theorem applyWith (sameBins : a.SameBins b) (loss : Loss) (move : Batch → UpdateResult)
    (moves : move a = move b) : a.applyWith loss move = b.applyWith loss move := by
  rw [Batch.applyWith, Batch.applyWith, sameBins.validate, moves]
  simp only [sameBins.samples, sameBins.reject, sameBins.reported, sameBins.buffers]

private theorem applyBy (sameBins : a.SameBins b) (path : UpdatePath) (loss : Loss) :
    a.applyBy path loss = b.applyBy path loss := by
  have squared : a.applySquared = b.applySquared :=
    sameBins.applyWith _ Batch.moveSquared sameBins.moveSquared
  have general : ∀ loss : Loss, a.applyGeneral loss = b.applyGeneral loss := fun loss =>
    sameBins.applyWith loss (·.moveGeneral loss) (sameBins.moveGeneral loss)
  rcases squared_or_general path loss with ⟨-, -, isSquared⟩ | ⟨-, -, isGeneral⟩
  · rw [isSquared, isSquared]
    exact squared
  · rw [isGeneral, isGeneral]
    exact general loss

end SameBins

private theorem bins_scalar_of_zero {words : List Word} {items samples : Nat}
    (readable : (BinSource.packed words items).Readable samples)
    (zero : ∀ bin ∈ Packing.unpack words items samples, bin = 0) :
    (BinSource.packed words items).bins samples = BinSource.scalar.bins samples := by
  obtain ⟨possible, enough⟩ := readable
  have length := Packing.length_unpack ((Packing.validItems_iff items).mpr possible) words samples
  rw [Packing.available_eq possible.1 enough] at length
  have zeros := List.eq_replicate_of_mem zero
  rw [length] at zeros
  exact zeros

/-- Packed bins of whatever layout lead to the same result, notices and buffers if they hold the
same bins; packed zeros are as good as a scalar source; and unused bits and surplus words are as
good as none. -/
theorem updates_ignore_layout (b : Batch) (path : UpdatePath) (loss : Loss) :
    (∀ words items words' items', (BinSource.packed words items).Readable b.samples →
      (BinSource.packed words' items').Readable b.samples →
      Packing.unpack words items b.samples = Packing.unpack words' items' b.samples →
        ({ b with source := .packed words items } : Batch).applyBy path loss =
          ({ b with source := .packed words' items' } : Batch).applyBy path loss) ∧
    (∀ words items, (BinSource.packed words items).Readable b.samples →
      (∀ bin ∈ Packing.unpack words items b.samples, bin = 0) →
        ({ b with source := .packed words items } : Batch).applyBy path loss =
          ({ b with source := .scalar } : Batch).applyBy path loss) ∧
    ∀ words words' items, (BinSource.packed words items).Readable b.samples →
      (BinSource.packed words' items).Readable b.samples →
      Packing.AgreeOnUsedBits b.samples items words words' →
        ({ b with source := .packed words items } : Batch).applyBy path loss =
          ({ b with source := .packed words' items } : Batch).applyBy path loss := by
  have equal : ∀ s t : BinSource, s.Readable b.samples → t.Readable b.samples →
      s.bins b.samples = t.bins b.samples →
        ({ b with source := s } : Batch).applyBy path loss =
          ({ b with source := t } : Batch).applyBy path loss := by
    intro s t left right bins
    have sameBins : ({ b with source := s } : Batch).SameBins { b with source := t } :=
      ⟨left, right, bins, rfl, rfl, rfl, rfl, rfl⟩
    exact sameBins.applyBy path loss
  refine ⟨?_, ?_, ?_⟩
  · intro words items words' items' left right bins
    exact equal _ _ left right bins
  · intro words items left zero
    exact equal _ _ left trivial (bins_scalar_of_zero left zero)
  · intro words words' items left right agree
    have valid := (Packing.validItems_iff items).mpr left.1
    exact equal _ _ left right (Packing.unpack_congr valid left.2 right.2 agree)

theorem updates_ignore_layout_of_five_samples :
    let b : Batch :=
      { source := .scalar
        tensor := [1, 2]
        buffers :=
          { gradients := List.replicate 5 0
            hessians := none
            scores := some (List.replicate 5 1) }
        targets := some (List.replicate 5 1)
        weights := none
        metric := true }
    let narrow : BinSource := .packed [0b10110] 64
    let wide : BinSource := .packed [1, 0x100010000] 4
    let noisy : BinSource := .packed [0xabcd0000ffff0001, 0x100010000, 0xdead] 4
    let zeros : BinSource := .packed [0xffffffffffffffe0] 64
    narrow.Readable 5 ∧ wide.Readable 5 ∧ noisy.Readable 5 ∧ zeros.Readable 5 ∧
      narrow.bins 5 = noisy.bins 5 ∧ (∀ bin ∈ zeros.bins 5, bin = 0) ∧
      Packing.AgreeOnUsedBits 5 4 [1, 0x100010000] [0xabcd0000ffff0001, 0x100010000, 0xdead] ∧
      ({ b with source := narrow } : Batch).applyBy .ofLoss .logistic =
        ({ b with source := noisy } : Batch).applyBy .ofLoss .logistic ∧
      ({ b with source := zeros } : Batch).applyBy .ofLoss .logistic =
        ({ b with source := .scalar } : Batch).applyBy .ofLoss .logistic ∧
      ({ b with source := wide } : Batch).applyBy .ofLoss .logistic =
        ({ b with source := noisy } : Batch).applyBy .ofLoss .logistic := by
  intro b narrow wide noisy zeros
  have readNarrow : narrow.Readable 5 := ⟨by decide, by decide⟩
  have readWide : wide.Readable 5 := ⟨by decide, by decide⟩
  have readNoisy : noisy.Readable 5 := ⟨by decide, by decide⟩
  have readZeros : zeros.Readable 5 := ⟨by decide, by decide⟩
  have sameBins : narrow.bins 5 = noisy.bins 5 := by decide
  have allZero : ∀ bin ∈ zeros.bins 5, bin = 0 := by decide
  have agree : Packing.AgreeOnUsedBits 5 4 [1, 0x100010000]
      [0xabcd0000ffff0001, 0x100010000, 0xdead] := by decide
  obtain ⟨ofBins, ofZeros, ofUsed⟩ := updates_ignore_layout b .ofLoss .logistic
  exact ⟨readNarrow, readWide, readNoisy, readZeros, sameBins, allZero, agree,
    ofBins _ _ _ _ readNarrow readNoisy sameBins, ofZeros _ _ readZeros allZero,
    ofUsed _ _ _ readWide readNoisy agree⟩

end Batch

end Boosting
