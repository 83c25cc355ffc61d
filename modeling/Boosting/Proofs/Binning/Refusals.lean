/- Which requests by counts are refused.
   The causes to refuse a request form one list in the order of the checks, and the first that is
   given decides the error. A count of no samples, or of no cuts, ends the list early. A cause
   rests on the counts, on which buffers are there and on their lengths, so a refused request has
   written nothing; any other one writes the reference bins over as many cells as it has samples. -/

import Boosting.Binning.Raw
import Boosting.Proofs.Binning.Division
import Boosting.Proofs.Journal

set_option autoImplicit false
set_option relaxedAutoImplicit false

namespace Boosting

namespace Binning

/-- A cause to refuse a request, and whether the request gives it. -/
structure Cause where
  given : Bool
  error : BinningError

def firstCause (causes : List Cause) : Option BinningError :=
  (causes.find? fun cause => cause.given).map Cause.error

/-- A result that is refused for the first cause that is given. -/
def judge {α : Type} (causes : List Cause) (a : α) : Except BinningError α :=
  match firstCause causes with
  | some e => .error e
  | none => .ok a

section Causes

variable {α : Type}

theorem judge_cons (cause : Cause) (causes : List Cause) (a : α) :
    judge (cause :: causes) a = if cause.given then .error cause.error else judge causes a := by
  unfold judge firstCause
  cases given : cause.given <;> simp [given]

theorem judge_bind {β : Type} {first later : List Cause} {a : α} {b : β}
    {next : α → Except BinningError β} (continues : next a = judge later b) :
    judge first a >>= next = judge (first ++ later) b := by
  induction first with
  | nil => exact continues
  | cons cause first ih =>
    rw [List.cons_append, judge_cons, judge_cons, ← ih]
    cases cause.given <;> rfl

private theorem exists_of_firstCause {causes : List Cause} {e : BinningError}
    (first : firstCause causes = some e) :
    ∃ cause ∈ causes, cause.given = true ∧ cause.error = e := by
  obtain ⟨cause, found, error⟩ := Option.map_eq_some_iff.mp first
  have given := List.find?_some found
  exact ⟨cause, List.mem_of_find?_eq_some found, given, error⟩

theorem judge_map {β : Type} (causes : List Cause) (a : α) (f : α → β) :
    (judge causes a >>= fun x => pure (f x)) = judge causes (f a) := by
  unfold judge
  cases firstCause causes <;> rfl

private theorem judge_single_bind {β : Type} {cause : Cause} {later : List Cause} {a : α} {b : β}
    {next : α → Except BinningError β} (continues : next a = judge later b) :
    judge [cause] a >>= next = judge (cause :: later) b :=
  judge_bind continues

theorem firstCause_eq_none_iff (causes : List Cause) :
    firstCause causes = none ↔ ∀ cause ∈ causes, cause.given = false := by
  rw [firstCause, Option.map_eq_none_iff, List.find?_eq_none]
  simp

theorem firstCause_append (causes later : List Cause) :
    firstCause (causes ++ later) = (firstCause causes).or (firstCause later) := by
  rw [firstCause, List.find?_append, firstCause, firstCause, Option.map_or]

end Causes

namespace RawRequest

variable (t : BinType) (r : RawRequest)

def sampleCauses : List Cause :=
  [⟨r.countSamples < 0, .negativeSampleCount r.countSamples⟩,
    ⟨addressSpace ≤ r.countSamples * 8, .sampleBufferOverflow r.countSamples.toNat 8⟩]

def bufferCauses : List Cause :=
  let n := r.countSamples.toNat
  let values := (r.values.getD []).length
  let bins := (r.bins.getD []).length
  [⟨r.values.isNone, .missingFeatureValues⟩,
    ⟨r.bins.isNone, .missingOutput⟩,
    ⟨values < n, .bufferTooShort .featureValues values n⟩,
    ⟨bins < n, .bufferTooShort .binsOut bins n⟩]

def cutCauses : List Cause :=
  let n := r.countCuts.toNat
  let cuts := (r.cuts.getD []).length
  ⟨r.countCuts < 0, .negativeCutCount r.countCuts⟩ ::
    if 0 < r.countCuts then
      [⟨r.cuts.isNone, .missingCuts r.countCuts⟩,
        ⟨t.max ≤ n, .noRoomForMissingBin r.countCuts⟩,
        ⟨addressSpace ≤ n * 8, .cutBufferOverflow n⟩,
        ⟨cuts < n, .bufferTooShort .cuts cuts n⟩]
    else []

def causes : List Cause :=
  r.sampleCauses ++ if 0 < r.countSamples then r.bufferCauses ++ r.cutCauses t else []

def leadingCuts : List Double :=
  (r.cuts.getD []).take r.countCuts.toNat

def job : RawJob :=
  ⟨(r.values.getD []).take r.countSamples.toNat, r.leadingCuts, r.bins.getD []⟩

end RawRequest

/-- The cells take no more bytes than the values, so their size is not what overflows. -/
theorem checkSampleCount_of_word (t : BinType) {n : Nat} (word : n < addressSpace / 2) :
    checkSampleCount t n =
      judge [⟨addressSpace ≤ n * 8, .sampleBufferOverflow n 8⟩] n := by
  by_cases large : addressSpace ≤ n * 8
  · have size := addressSpace_eq
    rw [judge_cons, checkSampleCount, if_neg (by omega)]
    simp only [Int.toNat_natCast]
    rw [if_neg (by omega)]
    simp [large]
  · rw [judge_cons, checkSampleCount_natCast t (by omega)]
    simp [large, judge, firstCause]

private theorem checkSampleCount_eq (t : BinType) (r : RawRequest)
    (word : r.countSamples < addressSpace / 2) :
    checkSampleCount t r.countSamples = judge r.sampleCauses r.countSamples.toNat := by
  rw [RawRequest.sampleCauses, judge_cons]
  by_cases negative : r.countSamples < 0
  · simp [checkSampleCount, negative]
  · obtain ⟨n, count⟩ := Int.eq_ofNat_of_zero_le (Int.not_lt.mp negative)
    rw [count] at word ⊢
    have sign : ¬ (n : Int) < 0 := by omega
    have tests : decide ((addressSpace : Int) ≤ n * 8) = decide (addressSpace ≤ n * 8) := by
      rw [decide_eq_decide]
      omega
    rw [checkSampleCount_of_word t (by omega), tests]
    simp [sign]

private theorem checkCutCount_eq (t : BinType) (count : Int) :
    checkCutCount t count =
      judge [⟨t.max ≤ count.toNat, .noRoomForMissingBin count⟩,
        ⟨addressSpace ≤ count.toNat * 8, .cutBufferOverflow count.toNat⟩] count.toNat := by
  have size := addressSpace_eq
  have room := t.max_lt_count
  have words : addressSpace = Width.w64.count := rfl
  rw [checkCutCount, judge_cons, judge_cons]
  by_cases full : t.max ≤ count.toNat
  · simp [full]
  · by_cases large : addressSpace ≤ count.toNat * 8
    · have unfit : ¬ count.toNat ≥ addressSpace := by omega
      simp [full, unfit, large]
    · rw [if_neg full, if_neg (by omega), if_neg (by omega), if_neg (by omega), if_neg (by omega),
        if_neg (by omega)]
      simp [full, large, judge, firstCause]

private theorem leading_eq {α : Type} (buffer : BinningBuffer) (required : Nat) (xs : List α) :
    leading buffer required xs =
      judge [⟨xs.length < required, .bufferTooShort buffer xs.length required⟩]
        (xs.take required) := by
  rw [leading, judge_cons]
  by_cases short : xs.length < required <;> simp [short, judge, firstCause]

private theorem present_eq {α : Type} (missing : BinningError) (buffer : Option (List α)) :
    present missing buffer = judge [⟨buffer.isNone, missing⟩] (buffer.getD []) := by
  cases buffer <;> rfl

namespace RawRequest

variable (t : BinType) (r : RawRequest)

private theorem usedCuts_eq : r.usedCuts t = judge (r.cutCauses t) r.leadingCuts := by
  rw [usedCuts, cutCauses, judge_cons]
  by_cases negative : r.countCuts < 0
  · simp only [negative, if_true, decide_true]
    rfl
  · by_cases noCuts : r.countCuts = 0
    · simp only [noCuts, Int.lt_irrefl, decide_false, Bool.false_eq_true, if_false, if_true,
        leadingCuts, Int.toNat_zero, List.take_zero]
      rfl
    · have pos : 0 < r.countCuts := by omega
      simp only [negative, noCuts, pos, decide_false, Bool.false_eq_true, if_false, if_true]
      rw [present_eq]
      refine judge_single_bind ?_
      rw [checkCutCount_eq]
      exact judge_bind (leading_eq .cuts r.countCuts.toNat _)

theorem check_eq (word : r.countSamples < addressSpace / 2) :
    r.check t = judge (r.causes t) (if r.countSamples.toNat = 0 then none else some r.job) := by
  rw [check, causes, checkSampleCount_eq t r word]
  refine judge_bind ?_
  by_cases empty : r.countSamples.toNat = 0
  · rw [if_pos empty, if_pos empty, if_neg (by omega)]
    rfl
  · rw [if_neg empty, if_neg empty, if_pos (by omega), present_eq, present_eq]
    refine judge_single_bind ?_
    refine judge_single_bind ?_
    rw [leading_eq]
    refine judge_single_bind ?_
    rw [leading_eq]
    refine judge_single_bind ?_
    rw [usedCuts_eq]
    exact judge_map _ _ _

variable {t r}

theorem run_of_cause {e : BinningError} (word : r.countSamples < addressSpace / 2)
    (refused : firstCause (r.causes t) = some e) : r.run t = ⟨.error (.rejected e), r.bins⟩ := by
  rw [run, check_eq t r word, judge, refused]
  rfl

theorem countSamples_nonneg (accepted : firstCause (r.causes t) = none) : 0 ≤ r.countSamples := by
  have noCause := (firstCause_eq_none_iff _).mp accepted
  have first := noCause _ (List.mem_append_left _ List.mem_cons_self)
  simpa using first

theorem run_of_accepted (accepted : firstCause (r.causes t) = none)
    (word : r.countSamples < addressSpace / 2) (pos : 0 < r.countSamples)
    (valid : ValidCuts r.leadingCuts) :
    r.run t = ⟨.ok (), Option.some (referenceCells t r.job.values r.leadingCuts ++
      r.job.bins.drop r.job.values.length)⟩ := by
  have nonempty : r.countSamples.toNat ≠ 0 := by omega
  have cells := cells_eq valid t r.job.values
  rw [run, check_eq t r word, judge, accepted, if_neg nonempty]
  simp only [job] at cells ⊢
  rw [cells]
  simp only [BinningResult.settle, length_referenceCells]

structure Supported (t : BinType) (r : RawRequest) (values : List Double) (before : List Int) :
    Prop where
  hasValues : r.values = some values
  hasBins : r.bins = some before
  enough : r.countSamples.toNat ≤ values.length
  space : r.countSamples.toNat ≤ before.length
  room : r.leadingCuts.length < t.max

theorem exists_supported (accepted : firstCause (r.causes t) = none) (pos : 0 < r.countSamples) :
    ∃ values before, r.Supported t values before := by
  have noCause := (firstCause_eq_none_iff _).mp accepted
  rw [causes, if_pos pos, List.forall_mem_append, List.forall_mem_append] at noCause
  obtain ⟨-, buffers, cuts⟩ := noCause
  simp only [bufferCauses, List.forall_mem_cons, Option.isNone_eq_false_iff,
    decide_eq_false_iff_not, Nat.not_lt] at buffers
  obtain ⟨hasValues, hasBins, enough, space, -⟩ := buffers
  obtain ⟨values, isValues⟩ := Option.isSome_iff_exists.mp hasValues
  obtain ⟨before, isBins⟩ := Option.isSome_iff_exists.mp hasBins
  rw [isValues, Option.getD_some] at enough
  rw [isBins, Option.getD_some] at space
  refine ⟨values, before, isValues, isBins, enough, space, ?_⟩
  have taken : r.leadingCuts.length ≤ r.countCuts.toNat := List.length_take_le _ _
  by_cases someCuts : 0 < r.countCuts
  · rw [cutCauses, if_pos someCuts] at cuts
    simp only [List.forall_mem_cons, decide_eq_false_iff_not, Nat.not_le] at cuts
    obtain ⟨-, -, room, -⟩ := cuts
    exact Nat.lt_of_le_of_lt taken room
  · have pos := t.max_pos
    omega

/-- The front of the cells holds the reference bins of the values beside them, the rest is as
before. -/
structure Overwritten (t : BinType) (r : RawRequest) (values : List Double)
    (before after : List Int) :
    Prop where
  length : after.length = before.length
  front : ∀ i : Nat, i < r.countSamples → ∃ value cell, values[i]? = some value ∧
    after[i]? = some cell ∧ t.Holds cell ∧ binOfCell cell = referenceBin value r.leadingCuts
  rest : ∀ i : Nat, r.countSamples ≤ i → after[i]? = before[i]?

theorem Supported.overwritten {values : List Double} {before : List Int}
    (supported : r.Supported t values before) :
    r.Overwritten t values before (referenceCells t r.job.values r.leadingCuts ++
      r.job.bins.drop r.job.values.length) := by
  obtain ⟨hasValues, hasBins, enough, space, room⟩ := supported
  simp only [job, hasValues, hasBins, Option.getD_some]
  have front : (values.take r.countSamples.toNat).length = r.countSamples.toNat :=
    List.length_take_of_le enough
  have written := length_referenceCells t (values.take r.countSamples.toNat) r.leadingCuts
  rw [front] at written ⊢
  refine ⟨?_, ?_, ?_⟩
  · rw [List.length_append, written, List.length_drop]
    omega
  · intro i inside
    have below : i < r.countSamples.toNat := by omega
    have value : (values.take r.countSamples.toNat)[i]? = values[i]? :=
      List.getElem?_take_of_lt below
    have valueAt := getElem?_eq_some_getD (Nat.lt_of_lt_of_le below enough) (default : Double)
    rw [List.getElem?_append_left (by omega), referenceCells, referenceBins, List.getElem?_map,
      List.getElem?_map, value, valueAt]
    have least := Nat.le_trans (referenceBin_le (values.getD i default) r.leadingCuts) room
    exact ⟨_, _, rfl, rfl, BinType.holds_ofBin least, BinType.binOfCell_ofBin least⟩
  · intro i past
    rw [List.getElem?_append_right (by omega), List.getElem?_drop, written]
    congr 1
    omega

theorem run_of_empty (empty : r.countSamples = 0) : r.run t = ⟨.ok (), r.bins⟩ := by
  have word : r.countSamples < addressSpace / 2 := by
    rw [empty]
    decide
  have noCause : firstCause (r.causes t) = none := by
    rw [causes, sampleCauses, empty]
    rfl
  rw [run, check_eq t r word, judge, noCause, empty]
  rfl

end RawRequest

/-- An error of a check that the checks before it leave nothing to find: the second of the two for
room in the cell type, and those that only a count beyond the machine word could fail. -/
def spareError (t : BinType) : BinningError → Bool
  | .sampleCountTooLarge _ => true
  | .sampleBufferOverflow _ elementBytes => elementBytes ≠ 8
  | .noRoomForMissingBin cuts => cuts.toNat < t.max
  | .cutCountTooLarge _ => true
  | .searchIndexOverflow _ => true
  | .searchMidpointOverflow _ => true
  | .lengthMismatch _ _ => true
  | .unsupportedRegime _ _ => true
  | .shapeMismatch _ _ => true
  | .cutSetCount _ _ => true
  | .nonContiguous _ => true
  | _ => false

private theorem spareError_of_mem_causes {t : BinType} {r : RawRequest} {cause : Cause}
    (member : cause ∈ r.causes t) (given : cause.given = true) :
    spareError t cause.error = false := by
  rw [RawRequest.causes, List.mem_append] at member
  rcases member with inSamples | member
  · simp only [RawRequest.sampleCauses, List.mem_cons, List.not_mem_nil, or_false] at inSamples
    rcases inSamples with rfl | rfl <;> rfl
  · split at member
    · rw [List.mem_append] at member
      rcases member with inBuffers | inCuts
      · simp only [RawRequest.bufferCauses, List.mem_cons, List.not_mem_nil, or_false] at inBuffers
        rcases inBuffers with rfl | rfl | rfl | rfl <;> rfl
      · rw [RawRequest.cutCauses, List.mem_cons] at inCuts
        rcases inCuts with rfl | inCuts
        · rfl
        · split at inCuts
          · simp only [List.mem_cons, List.not_mem_nil, or_false] at inCuts
            rcases inCuts with rfl | rfl | rfl | rfl
            · rfl
            · simpa [spareError] using given
            · rfl
            · rfl
          · cases inCuts
    · cases member

/-- A call that fails with an error: it writes one line at `ERROR` level and no cell. -/
structure Refused (r : RawRequest) (e : BinningError)
    (call : Noted (BinningResult (Option (List Int)))) : Prop where
  status : rawStatus? call.result = some .failure
  ending : call.result.ending = .error (.rejected e)
  logged : ∀ j : Journal,
    j.errorLines call.notices = [⟨.error, .failure s!"discretize rejected: {e.message}"⟩]
  bins : call.result.bins = r.bins

/-- A call that succeeds: it writes no line at `ERROR` level and as many cells as there are
samples. -/
structure Answered (t : BinType) (r : RawRequest)
    (call : Noted (BinningResult (Option (List Int)))) : Prop where
  status : rawStatus? call.result = some .success
  logged : ∀ j : Journal, j.errorLines call.notices = []
  idle : r.countSamples = 0 → call.result.bins = r.bins
  written : 0 < r.countSamples → ∃ values before after, r.values = some values ∧
    r.bins = some before ∧ call.result.bins = some after ∧ r.Overwritten t values before after

private theorem Refused.error_eq {r : RawRequest} {e e' : BinningError}
    {call : Noted (BinningResult (Option (List Int)))} (refused : Refused r e call)
    (ending : call.result.ending = .error (.rejected e')) : e = e' := by
  have endings := refused.ending.symm.trans ending
  simpa using endings

private theorem Refused.not_answered {t : BinType} {r : RawRequest} {e : BinningError}
    {call : Noted (BinningResult (Option (List Int)))} (refused : Refused r e call) :
    ¬ Answered t r call := by
  intro answered
  have statuses := refused.status.symm.trans answered.status
  simp at statuses

private theorem discretizeRaw_refused {t : BinType} {r : RawRequest} {e : BinningError}
    (word : r.countSamples < addressSpace / 2) (first : firstCause (r.causes t) = some e) :
    Refused r e (discretizeRaw t r) := by
  rw [discretizeRaw, RawRequest.run_of_cause word first]
  refine ⟨rfl, rfl, fun j => ?_, rfl⟩
  rw [Journal.errorLines_eq]
  rfl

private theorem answered_of_run {t : BinType} {r : RawRequest} {after : Option (List Int)}
    (run : r.run t = ⟨.ok (), after⟩) (idle : r.countSamples = 0 → after = r.bins)
    (written : 0 < r.countSamples → ∃ values before cells, r.values = some values ∧
      r.bins = some before ∧ after = some cells ∧ r.Overwritten t values before cells) :
    Answered t r (discretizeRaw t r) := by
  rw [discretizeRaw, run]
  refine ⟨rfl, fun j => ?_, idle, written⟩
  rw [Journal.errorLines_eq]
  rfl

private theorem discretizeRaw_idle {t : BinType} {r : RawRequest} (empty : r.countSamples = 0) :
    Answered t r (discretizeRaw t r) ∧ (discretizeRaw t r).result.bins = r.bins := by
  have run := RawRequest.run_of_empty (t := t) empty
  refine ⟨answered_of_run run (fun _ => rfl) fun pos => ?_, congrArg BinningResult.bins run⟩
  omega

private theorem discretizeRaw_answered {t : BinType} {r : RawRequest}
    (word : r.countSamples < addressSpace / 2) (accepted : firstCause (r.causes t) = none)
    (valid : 0 < r.countSamples → ValidCuts r.leadingCuts) :
    Answered t r (discretizeRaw t r) := by
  have nonneg := RawRequest.countSamples_nonneg accepted
  by_cases empty : r.countSamples = 0
  · exact (discretizeRaw_idle empty).1
  · have pos : 0 < r.countSamples := by omega
    obtain ⟨values, before, supported⟩ := RawRequest.exists_supported accepted pos
    refine answered_of_run (RawRequest.run_of_accepted accepted word pos (valid pos)) ?_ ?_
    · intro zero
      exact absurd zero empty
    · intro _
      exact ⟨values, before, _, supported.hasValues, supported.hasBins, rfl, supported.overwritten⟩

/-- A request by counts, the first of which fits a signed machine word, is refused exactly for the
first cause that it gives, and answered exactly if it gives none. The cuts have to be valid only
where an answer uses them. No check but those behind the causes ever fails, and a count of no
samples is answered whatever else the request holds. -/
theorem discretizeRaw_refused_or_answered (t : BinType) (r : RawRequest)
    (word : r.countSamples < addressSpace / 2)
    (valid : firstCause (r.causes t) = none → 0 < r.countSamples → ValidCuts r.leadingCuts) :
    ((∃ e, Refused r e (discretizeRaw t r)) ↔ ∃ cause ∈ r.causes t, cause.given = true) ∧
      (∀ e, Refused r e (discretizeRaw t r) ↔ firstCause (r.causes t) = some e) ∧
      (Answered t r (discretizeRaw t r) ↔ ∀ cause ∈ r.causes t, cause.given = false) ∧
      (∀ e, (discretizeRaw t r).result.ending = .error (.rejected e) → spareError t e = false) ∧
      ∀ other : RawRequest, other.countSamples = 0 →
        Answered t other (discretizeRaw t other) ∧
          (discretizeRaw t other).result.bins = other.bins := by
  have noCause := firstCause_eq_none_iff (r.causes t)
  cases first : firstCause (r.causes t) with
  | some e =>
    obtain ⟨cause, member, given, error⟩ := exists_of_firstCause first
    have refused := discretizeRaw_refused word first
    refine ⟨iff_of_true ⟨e, refused⟩ ⟨cause, member, given⟩, ?_, ?_, ?_,
      fun other => discretizeRaw_idle⟩
    · intro e'
      constructor
      · intro other
        rw [refused.error_eq other.ending]
      · intro given
        rw [← Option.some.inj given]
        exact refused
    · refine iff_of_false refused.not_answered fun accepted => ?_
      rw [noCause.mpr accepted] at first
      cases first
    · intro e' ending
      rw [← refused.error_eq ending, ← error]
      exact spareError_of_mem_causes member given
  | none =>
    have accepted := noCause.mp first
    have answered := discretizeRaw_answered word first (valid first)
    refine ⟨iff_of_false ?_ ?_, ?_, iff_of_true answered accepted, ?_,
      fun other => discretizeRaw_idle⟩
    · rintro ⟨e, refused⟩
      exact refused.not_answered answered
    · rintro ⟨cause, member, given⟩
      rw [accepted cause member] at given
      cases given
    · intro e
      exact iff_of_false (fun refused => refused.not_answered answered) nofun
    · intro e ending
      have status := answered.status
      rw [rawStatus?, ending] at status
      cases status

theorem discretizeRaw_refused_or_answered_on_two_samples :
    let t : BinType := .signed .w8
    let r : RawRequest := ⟨2, some [.nan, 1, 5], 2, some [0, 1, .nan], some [7, 7, 7, 7]⟩
    let idle : RawRequest := { r with countSamples := 0, countCuts := -1, cuts := none }
    let crowded : RawRequest := { r with countCuts := 127 }
    let short : RawRequest := { crowded with bins := some [7] }
    r.countSamples < addressSpace / 2 ∧ ValidCuts r.leadingCuts ∧
      Answered t r (discretizeRaw t r) ∧ (discretizeRaw t r).result.bins = some [0, 3, 7, 7] ∧
      Answered t idle (discretizeRaw t idle) ∧
      Refused crowded (.noRoomForMissingBin 127) (discretizeRaw t crowded) ∧
      Refused short (.bufferTooShort .binsOut 1 2) (discretizeRaw t short) := by
  intro t r idle crowded short
  have word : r.countSamples < addressSpace / 2 := by decide
  have valid : ValidCuts r.leadingCuts := ⟨by decide, by decide⟩
  obtain ⟨-, -, answers, -, idles⟩ :=
    discretizeRaw_refused_or_answered t r word fun _ _ => valid
  obtain ⟨-, refusesCrowded, -⟩ :=
    discretizeRaw_refused_or_answered t crowded word fun accepted => absurd accepted (by decide)
  obtain ⟨-, refusesShort, -⟩ :=
    discretizeRaw_refused_or_answered t short word fun accepted => absurd accepted (by decide)
  exact ⟨word, valid, answers.mpr (by decide), by decide +kernel, (idles idle rfl).1,
    (refusesCrowded _).mpr (by decide), (refusesShort _).mpr (by decide)⟩

end Binning

end Boosting
