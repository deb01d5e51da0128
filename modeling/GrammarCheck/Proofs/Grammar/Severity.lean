import GrammarCheck.Proofs.Source.BlankLine
import GrammarCheck.Report

/-! Which faults are fatal. Whatever is wrong with a text is, and nothing of what is wrong with a
grammar that could be read. -/

namespace GrammarCheck

/-- Where the text is malformed there is no grammar to examine. -/
theorem Fault.isFatal_of_isMalformed {fault : Fault} (h : fault.IsMalformed) :
    fault.isFatal = true := by
  cases fault <;> first | rfl | exact h.elim

namespace Grammar

variable {g : Grammar} {d : Defect}

/-- A step is rejected for how the text is written, or its edits are for what a name means. -/
theorem malformed_or_conflict_of_mem_take {endLine : Nat} {step : Step}
    (h : d ∈ (g.take endLine step).2) : d.cause.IsMalformed ∨ ∃ c, d.cause = .conflict c := by
  unfold take at h
  split at h
  case h_1 expected found =>
    rw [List.mem_singleton.1 h]
    exact .inl (isMalformed_rejection g endLine expected found)
  case h_2 =>
    split at h
    case h_1 => cases h
    case h_2 => exact .inr (exists_conflict_of_refusalDefect? (Option.mem_toList.1 h))

/-- All that reading finds wrong is malformed text or a conflict of kinds. -/
theorem malformed_or_conflict_of_mem_takeAll {endLine : Nat} {steps : List Step}
    (h : d ∈ (g.takeAll endLine steps).2) : d.cause.IsMalformed ∨ ∃ c, d.cause = .conflict c := by
  induction steps generalizing g with
  | nil => cases h
  | cons step steps ih =>
      rcases List.mem_append.1 h with hNow | hLater
      · exact malformed_or_conflict_of_mem_take hNow
      · exact ih hLater

/-- A text that is refused is refused for its defects. -/
theorem malformed_or_conflict_of_ofText {file : FileName} {text : List Char}
    {defects : List Defect} (h : ofText file text = .error defects) :
    defects ≠ [] ∧ ∀ d ∈ defects, d.cause.IsMalformed ∨ ∃ c, d.cause = .conflict c := by
  rw [ofText, ofStream_eq] at h
  simp only at h
  split at h
  case isTrue => cases h
  case isFalse hSome =>
    cases h
    exact ⟨hSome, fun d hMem => malformed_or_conflict_of_mem_takeAll hMem⟩

theorem isFatal_of_ofText {file : FileName} {text : List Char} {defects : List Defect}
    (h : ofText file text = .error defects) : ∀ d ∈ defects, d.cause.isFatal = true := by
  intro d hMem
  rcases (malformed_or_conflict_of_ofText h).2 d hMem with hMalformed | ⟨c, hCause⟩
  · exact Fault.isFatal_of_isMalformed hMalformed
  · rw [hCause]
    rfl

/-- A defect of the start symbol leaves a grammar that can be examined. -/
theorem not_isFatal_of_mem_startDefects (h : d ∈ g.startDefects) : d.cause.isFatal = false := by
  unfold startDefects at h
  split at h
  case h_1 =>
    rw [List.mem_singleton.1 h]
    rfl
  case h_2 =>
    rcases List.mem_append.1 h with hUndefined | hExtra
    · split at hUndefined
      case h_1 =>
        split at hUndefined
        case isTrue => cases hUndefined
        case isFalse =>
          rw [List.mem_singleton.1 hUndefined]
          rfl
      case h_2 => cases hUndefined
    · obtain ⟨extra, -, rfl⟩ := List.mem_map.1 hExtra
      rfl

/-- Nothing that the examination of a grammar finds is fatal. -/
theorem not_isFatal_of_mem_report (h : d ∈ g.report.defects) : d.cause.isFatal = false := by
  rcases List.mem_append.1 h with hNames | hUnproductive
  · rcases List.mem_append.1 hNames with hStart | hUndefined
    · exact not_isFatal_of_mem_startDefects hStart
    · obtain ⟨⟨id, s⟩, -, hSome⟩ := List.mem_filterMap.1 hUndefined
      obtain ⟨-, hDefect⟩ := Option.ite_none_right_eq_some.1 hSome
      cases hDefect
      rfl
  · obtain ⟨⟨id, s⟩, -, hSome⟩ := List.mem_filterMap.1 hUnproductive
    obtain ⟨-, hDefect⟩ := Option.ite_none_left_eq_some.1 hSome
    cases hDefect
    rfl

end Grammar

end GrammarCheck
