import GrammarCheck.Proofs.Step.Course

/-! What is rejected in reading. From each place where a construct can begin, nothing is rejected or
one thing: the lexeme that a fragment cannot go on with. -/

namespace GrammarCheck

namespace Step

/-- What a step rejects, with what it waited for. Without a lexeme it is the end of the text. -/
def rejected? : Step → Option (Expectation × Option Lexeme)
  | .reject expected found => some (expected, found)
  | _ => none

def rejected (steps : List Step) : List (Expectation × Option Lexeme) := steps.filterMap rejected?

theorem rejected_append (steps others : List Step) :
    rejected (steps ++ others) = rejected steps ++ rejected others :=
  List.filterMap_append

theorem rejected_reject (expected : Expectation) (found : Option Lexeme) (steps : List Step) :
    rejected (.reject expected found :: steps) = (expected, found) :: rejected steps := rfl

theorem rejected_shift (l : Lexeme) (steps : List Step) :
    rejected (.shift l :: steps) = rejected steps := rfl

theorem rejected_shifts (lexemes : List Lexeme) : rejected (lexemes.map .shift) = [] := by
  rw [rejected, List.filterMap_map, List.filterMap_eq_nil_iff]
  intro l _
  rfl

/-- Steps that are put together from harmless ones reject nothing. -/
theorem rejected_flatMap {α : Type} {f : α → List Step} (h : ∀ x, rejected (f x) = [])
    (xs : List α) : rejected (xs.flatMap f) = [] := by
  rw [rejected, List.filterMap_flatMap, List.flatMap_eq_nil_iff]
  intro x _
  exact h x

end Step

/-- The lexemes as they are met one by one, and then the end of the text. -/
def Lexeme.met (lexemes : List Lexeme) : List (Option Lexeme) := lexemes.map some ++ [none]

namespace Lexeme

theorem met_append (lexemes others : List Lexeme) :
    met (lexemes ++ others) = lexemes.map some ++ met others := by
  rw [met, List.map_append, List.append_assoc, ← met]

/-- What is met first is the first lexeme, or else the end of the text. -/
theorem met_eq_head?_cons (lexemes : List Lexeme) :
    met lexemes = lexemes.head? :: (met lexemes).tail := by
  cases lexemes <;> rfl

/-- Behind some lexemes the first one that is left is met, or else the end of the text. -/
theorem getElem?_met_append (above left : List Lexeme) :
    (met (above ++ left))[above.length]? = some left.head? := by
  rw [met_append, List.getElem?_append_right (by simp), List.length_map, Nat.sub_self,
    met_eq_head?_cons]
  rfl

/-- What is met further down in a text is met in the text. -/
theorem met_sublist {rest lexemes : List Lexeme} (h : rest <:+ lexemes) :
    (met rest).Sublist (met lexemes) := by
  obtain ⟨above, rfl⟩ := h
  rw [met_append]
  exact List.sublist_append_right _ _

/-- What is left of some lexemes is met behind the first of them, unless all is left. -/
theorem eq_or_met_sublist {rest lexemes : List Lexeme} (h : rest <:+ lexemes) :
    rest = lexemes ∨ (met rest).Sublist (met lexemes).tail := by
  cases lexemes with
  | nil => exact .inl (List.suffix_nil.1 h)
  | cons l lexemes => exact (List.suffix_cons_iff.1 h).imp_right met_sublist

end Lexeme

open Step

theorem RuleBody.rejected_steps (body : RuleBody) : rejected body.steps = [] :=
  List.filterMap_eq_nil_iff.2 (forall_mem_steps (fun _ => rfl) fun _ => rfl)

theorem RuleBody.rejected_finishedSteps (finished : List (Alternative × Nat)) :
    rejected (finishedSteps finished) = [] :=
  List.filterMap_eq_nil_iff.2 (forall_mem_finishedSteps (fun _ => rfl) fun _ => rfl)

theorem Part.rejected_steps (part : Part) : rejected part.steps = [] := by
  cases part with
  | blank line => rfl
  | start line symbol => rfl
  | terminals line names =>
      rw [steps, List.cons_append, rejected_shift, rejected_append,
        rejected_flatMap fun _ => rfl]
      rfl
  | rule header arrow body =>
      have hBody := body.rejected_steps
      rw [rejected] at hBody
      rw [steps, rejected_append, rejected, List.filterMap_cons_none rfl,
        List.filterMap_cons_none rfl, List.filterMap_cons_none rfl, hBody]
      rfl

/-- Nothing is rejected in a fragment, before it breaks off. -/
theorem Fragment.rejected_steps (fragment : Fragment) : rejected fragment.steps = [] := by
  cases fragment with
  | symbol header arrow finished => exact RuleBody.rejected_finishedSteps finished
  | ruleEnd header arrow body => exact body.rejected_steps
  | terminal line names => exact rejected_flatMap (fun _ => rfl) names.toList
  | _ => rfl

namespace Passage

/-- A fragment is rejected where it breaks off, and what is passed over is not rejected again. -/
theorem rejected_fragment (fragment : Fragment) (found : Option Lexeme) (passed : List Lexeme) :
    rejected (fragment.steps ++ .reject fragment.expects found :: passed.map .shift) =
      [(fragment.expects, found)] := by
  rw [rejected_append, fragment.rejected_steps, rejected_reject, rejected_shifts, List.nil_append]

theorem Course.length_rejected_le {lexemes : List Lexeme} {passage : Passage}
    (h : Course lexemes passage) : (rejected passage.steps).length ≤ 1 := by
  cases h with
  | part part => simp [part.rejected_steps]
  | fragment => simp [rejected_fragment]

end Passage

end GrammarCheck
