import GrammarCheck.Proofs.Sampler.Growth
import Mathlib.Logic.Function.Iterate

/-! Sampling with other choosers. The sampler sees nothing of a chooser but its choices, so choosers
that choose alike in related states derive the same tree. The draws can therefore be counted while
sampling: the tree is the same, and the count is the number of draws that lead from the first state
to the last. -/

namespace GrammarCheck

variable {σ τ α : Type}

/-- In related states two choosers choose alike, and come to related states again. -/
def Chooser.Matches (chooser : Chooser σ) (other : Chooser τ) (related : σ → τ → Prop) : Prop :=
  ∀ n h state state', related state state' →
    (chooser.pick n h state).1 = (other.pick n h state').1 ∧
      related (chooser.pick n h state).2 (other.pick n h state').2

/-- The same has been derived, in related states. -/
structure Progress.Matches (progress : Progress σ α) (other : Progress τ α)
    (related : σ → τ → Prop) : Prop where
  derived_eq : progress.derived = other.derived
  words_eq : progress.words = other.words
  related : related progress.state other.state

namespace Sampler

variable {sampler : Sampler} {chooser : Chooser σ} {other : Chooser τ} {related : σ → τ → Prop}

/-- From related states the same is derived. The induction is on the levels that are left and the
symbols still to be derived from. -/
theorem expand_matches (hMatches : chooser.Matches other related) (left : Nat) (id : SymbolId)
    (words : Nat) {state : σ} {state' : τ} (hRelated : related state state') :
    (sampler.expand chooser left id words state).Matches
      (sampler.expand other left id words state') related := by
  refine (expand.mutual_induct sampler chooser
    (fun left id words state => ∀ state', related state state' →
      (sampler.expand chooser left id words state).Matches
        (sampler.expand other left id words state') related)
    (fun left depth ids h words state => ∀ state', related state state' →
      (sampler.expandAll chooser left depth ids h words state).Matches
        (sampler.expandAll other left depth ids h words state') related)
    ?_ ?_ ?_ ?_ ?_ ?_).1 left id words state state' hRelated
  case refine_1 =>
    intro left id words state hSymbol state' hRelated
    rw [expand, hSymbol, expand, hSymbol]
    exact ⟨rfl, rfl, hRelated⟩
  case refine_2 =>
    intro left id words state s hSymbol hTerminal state' hRelated
    simp only [expand, hSymbol, if_pos hTerminal]
    exact ⟨rfl, rfl, hRelated⟩
  case refine_3 =>
    intro left id words state s hSymbol hTerminal allowed h picked rule hAllowed ih state' hRelated
    obtain ⟨hPicked, hStates⟩ := hMatches allowed.length h state state' hRelated
    have hProgress := ih _ hStates
    have hNonterminal := Bool.eq_false_of_not_eq_true hTerminal
    have hDepth := depthOf_le_ruleDepth hAllowed
    rw [expand_of_pick hSymbol hNonterminal rfl h rfl hDepth,
      expand_of_pick hSymbol hNonterminal rfl h (Prod.ext hPicked.symm rfl) hDepth]
    exact ⟨congrArg (Derivation.node id) hProgress.derived_eq, hProgress.words_eq,
      hProgress.related⟩
  case refine_4 =>
    intro left id words state s hSymbol hTerminal allowed h state' hRelated
    simp only [expand, hSymbol, if_neg hTerminal]
    rw [dif_neg h, dif_neg h]
    exact ⟨rfl, rfl, hRelated⟩
  case refine_5 =>
    intro left depth words state _ _ state' hRelated
    rw [expandAll, expandAll]
    exact ⟨rfl, rfl, hRelated⟩
  case refine_6 =>
    intro left depth words state id ids h first _ hFirst hOthers state' hRelated
    obtain ⟨hDerived, hWords, hState⟩ := hFirst state' hRelated
    have hLater := hOthers _ hState
    rw [expandAll, expandAll, ← hWords]
    exact ⟨congrArg₂ List.cons hDerived hLater.derived_eq, hLater.words_eq, hLater.related⟩

/-- The same answer, with related states behind a derivation. -/
inductive SameAnswer (related : σ → τ → Prop) :
    Except SamplingError (Derivation × σ) → Except SamplingError (Derivation × τ) → Prop where
  | error (e : SamplingError) : SameAnswer related (.error e) (.error e)
  | ok (tree : Derivation) {after : σ} {after' : τ} (hRelated : related after after') :
      SameAnswer related (.ok (tree, after)) (.ok (tree, after'))

theorem sampleFrom_matches (hMatches : chooser.Matches other related) (name : String) {state : σ}
    {state' : τ} (hRelated : related state state') :
    SameAnswer related (sampler.sampleFrom chooser name state)
      (sampler.sampleFrom other name state') := by
  unfold sampleFrom
  cases sampler.grammar.symbols.find? name with
  | none => exact .error _
  | some found =>
      obtain ⟨id, s⟩ := found
      have hProgress : (sampler.expand chooser sampler.maxDepth id 0 state).Matches
          (sampler.expand other sampler.maxDepth id 0 state') related :=
        expand_matches hMatches sampler.maxDepth id 0 hRelated
      dsimp only
      split
      case isTrue => exact .error _
      case isFalse =>
        split
        case isTrue => exact .error _
        case isFalse =>
          rw [hProgress.derived_eq]
          exact .ok _ hProgress.related

/-- Choosers that choose alike give the same answer, from the start symbol as from a name. -/
theorem sample_matches (hMatches : chooser.Matches other related) {state : σ} {state' : τ}
    (hRelated : related state state') :
    SameAnswer related (sampler.sample chooser state) (sampler.sample other state') := by
  unfold sample
  cases sampler.grammar.start with
  | none => exact .error _
  | some start => exact sampleFrom_matches hMatches _ hRelated

end Sampler

namespace DrawSource

/-- The state that a number of draws leads to. -/
def after (source : DrawSource σ) (draws : Nat) : σ → σ := (fun s => (source.next s).2)^[draws]

/-- Counting draws adds their number to the count and does nothing else. The induction is on the
draws, up to the one that is accepted. -/
theorem pick_counted (source : DrawSource σ) (n : Nat) (h : 0 < n) (s : σ) (count : Nat) :
    (source.counted.pick n h (s, count)).1 = (source.pick n h s).1 ∧
      ∃ draws, (source.pick n h s).2 = source.after draws s ∧
        (source.counted.pick n h (s, count)).2 = (source.after draws s, count + draws) := by
  fun_induction pick source n h s generalizing count with
  | case1 s drawn hAccepts =>
      have hCounted : accepts n (source.counted.next (s, count)).1 = true := hAccepts
      rw [pick, dif_pos hCounted]
      exact ⟨rfl, 1, rfl, rfl⟩
  | case2 s drawn hAccepts ih =>
      have hRefused : ¬ accepts n (source.counted.next (s, count)).1 = true := hAccepts
      rw [pick, dif_neg hRefused]
      obtain ⟨hChoice, draws, hAfter, hCounted⟩ := ih (count + 1)
      refine ⟨hChoice, draws + 1, hAfter, hCounted.trans ?_⟩
      rw [Nat.add_assoc, Nat.add_comm 1]
      rfl

/-- What a count says: from the first state, so many draws lead here. -/
def Counts (source : DrawSource σ) (first s : σ) (counted : σ × Nat) : Prop :=
  counted.1 = s ∧ source.after counted.2 first = s

theorem matches_counted (source : DrawSource σ) (first : σ) :
    source.chooser.Matches source.counted.chooser (source.Counts first) := by
  rintro n h s ⟨_, count⟩ ⟨rfl, hCount⟩
  obtain ⟨hChoice, draws, hAfter, hCounted⟩ := source.pick_counted n h _ count
  refine ⟨hChoice.symm, (congrArg Prod.fst hCounted).trans hAfter.symm, ?_⟩
  rw [chooser, chooser, hCounted, hAfter, ← hCount, after, Nat.add_comm, Function.iterate_add_apply]
  rfl

/-- Counting changes no answer, and gives the number of draws that were taken. -/
theorem sampleFrom_counted (source : DrawSource σ) (sampler : Sampler) (name : String)
    (first : σ) :
    Sampler.SameAnswer (source.Counts first) (sampler.sampleFrom source.chooser name first)
      (sampler.sampleFrom source.counted.chooser name (first, 0)) :=
  Sampler.sampleFrom_matches (source.matches_counted first) name ⟨rfl, rfl⟩

theorem sample_counted (source : DrawSource σ) (sampler : Sampler) (first : σ) :
    Sampler.SameAnswer (source.Counts first) (sampler.sample source.chooser first)
      (sampler.sample source.counted.chooser (first, 0)) :=
  Sampler.sample_matches (source.matches_counted first) ⟨rfl, rfl⟩

/-- Draws take a script from its front. -/
theorem after_scripted (draws : Nat) (script : List UInt32) :
    scripted.after draws script = script.drop draws := by
  induction draws generalizing script with
  | zero => rfl
  | succ draws ih =>
      rw [after, Function.iterate_succ_apply, ← after, ih]
      cases script with
      | nil => simp [scripted, nextScripted]
      | cons draw script => rfl

/-- Of a script, what is left over is what stands behind the draws that were counted. -/
theorem drop_of_sampleFrom_scripted {sampler : Sampler} {name : String}
    {script left : List UInt32} {draws : Nat} {tree : Derivation}
    (h : sampler.sampleFrom scripted.counted.chooser name (script, 0) = .ok (tree, left, draws)) :
    sampler.sampleFrom scripted.chooser name script = .ok (tree, left) ∧
      left = script.drop draws := by
  have hSame := scripted.sampleFrom_counted sampler name script
  rw [h] at hSame
  generalize sampler.sampleFrom scripted.chooser name script = answer at hSame ⊢
  cases hSame with
  | ok tree hCounts =>
      obtain ⟨rfl, hAfter⟩ := hCounts
      exact ⟨rfl, hAfter.symm.trans (after_scripted draws script)⟩

end DrawSource

end GrammarCheck
