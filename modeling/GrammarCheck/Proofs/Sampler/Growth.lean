import GrammarCheck.Proofs.Ranking.Least
import GrammarCheck.Sampler

/-! The derivations that may come out of sampling, without regard to how the choices fall. Whatever
the chooser does, the tree grown is one of them; so what holds of all of them holds of every run. -/

namespace GrammarCheck

namespace Sampler

variable {σ : Type}

/-- A tree that may grow with `left` levels until the depth limit, after `words` words. Each
alternative in it was allowed where it was chosen, and a stuck symbol was left without any. The
words before a child are those before the whole tree and those of the children to its left. -/
inductive Grows (sampler : Sampler) : (left words : Nat) → Derivation → Prop where
  | leaf {left words : Nat} {id : SymbolId} {s : Symbol}
      (hSymbol : sampler.grammar.symbols.symbol? id = some s) (hTerminal : s.isTerminal = true) :
      Grows sampler left words (.leaf id)
  | node {left words : Nat} {id : SymbolId} {s : Symbol} {rule : Rule} {children : List Derivation}
      (hSymbol : sampler.grammar.symbols.symbol? id = some s) (hTerminal : s.isTerminal = false)
      (hRule : rule ∈ s.rules) (hAllows : sampler.allows id left words rule = true)
      (hRoots : children.map Derivation.root = rule.symbols)
      (hChildren : ∀ before child after, children = before ++ child :: after →
        Grows sampler (left - 1) (words + (Derivation.leavesOf before).length) child) :
      Grows sampler left words (.node id children)
  | unknown {left words : Nat} {id : SymbolId}
      (hSymbol : sampler.grammar.symbols.symbol? id = none) : Grows sampler left words (.stuck id)
  | stuck {left words : Nat} {id : SymbolId} {s : Symbol}
      (hSymbol : sampler.grammar.symbols.symbol? id = some s) (hTerminal : s.isTerminal = false)
      (hNone : ∀ rule ∈ s.rules, sampler.allows id left words rule = false) :
      Grows sampler left words (.stuck id)

/-- What a derivation under way has come to: a tree that may grow from the symbol, and the words
before it with those of the tree. -/
structure GrownFrom (sampler : Sampler) (left : Nat) (id : SymbolId) (words : Nat)
    (progress : Progress σ Derivation) : Prop where
  grows : sampler.Grows left words progress.derived
  root_eq : progress.derived.root = id
  words_eq : progress.words = words + progress.derived.leaves.length

structure GrownFromAll (sampler : Sampler) (left : Nat) (ids : List SymbolId) (words : Nat)
    (progress : Progress σ (List Derivation)) : Prop where
  grows : ∀ before child after, progress.derived = before ++ child :: after →
    sampler.Grows left (words + (Derivation.leavesOf before).length) child
  roots_eq : progress.derived.map Derivation.root = ids
  words_eq : progress.words = words + (Derivation.leavesOf progress.derived).length

theorem GrownFromAll.nil (sampler : Sampler) (left words : Nat) (state : σ) :
    sampler.GrownFromAll left [] words ⟨[], words, state⟩ := by
  refine ⟨?_, rfl, rfl⟩
  intro before child after hEq
  cases before <;> cases hEq

/-- What the first symbol grows comes before what the others grow, and counts for their words. -/
theorem GrownFromAll.cons {sampler : Sampler} {left words : Nat} {id : SymbolId}
    {ids : List SymbolId} {first : Progress σ Derivation} {others : Progress σ (List Derivation)}
    (hFirst : sampler.GrownFrom left id words first)
    (hOthers : sampler.GrownFromAll left ids first.words others) :
    sampler.GrownFromAll left (id :: ids) words
      ⟨first.derived :: others.derived, others.words, others.state⟩ := by
  refine ⟨?_, by rw [List.map_cons, hFirst.root_eq, hOthers.roots_eq], ?_⟩
  · intro before child after hEq
    cases before with
    | nil =>
        cases hEq
        exact hFirst.grows
    | cons tree before =>
        obtain ⟨rfl, hRest⟩ := List.cons.inj hEq
        have hGrows := hOthers.grows before child after hRest
        rwa [hFirst.words_eq, Nat.add_assoc, ← List.length_append] at hGrows
  · rw [hOthers.words_eq, hFirst.words_eq, Nat.add_assoc, ← List.length_append]
    rfl

/-- What is derived from a nonterminal once its alternative has been picked. -/
theorem expand_of_pick {sampler : Sampler} {chooser : Chooser σ} {left words : Nat} {id : SymbolId}
    {state after : σ} {s : Symbol} {allowed : List Rule} {i : Fin allowed.length}
    (hSymbol : sampler.grammar.symbols.symbol? id = some s) (hTerminal : s.isTerminal = false)
    (hAllowed : s.rules.filter (sampler.allows id left words) = allowed)
    (h : 0 < allowed.length) (hPick : chooser.pick allowed.length h state = (i, after))
    (hDepth : ∀ child ∈ (allowed.get i).symbols,
      sampler.depthOf child ≤ sampler.ruleDepth (allowed.get i)) :
    sampler.expand chooser left id words state =
      let progress := sampler.expandAll chooser (left - 1) (sampler.ruleDepth (allowed.get i))
        (allowed.get i).symbols hDepth words after
      ⟨.node id progress.derived, progress.words, progress.state⟩ := by
  subst hAllowed
  rw [expand, hSymbol]
  simp only [hTerminal, Bool.false_eq_true, if_false]
  rw [dif_pos h]
  simp only [hPick]
  rfl

/-- Every run grows one of these trees, whatever the chooser does. -/
theorem grownFrom_expand (sampler : Sampler) (chooser : Chooser σ) (left : Nat) (id : SymbolId)
    (words : Nat) (state : σ) :
    sampler.GrownFrom left id words (sampler.expand chooser left id words state) := by
  refine (expand.mutual_induct sampler chooser
    (fun left id words state =>
      sampler.GrownFrom left id words (sampler.expand chooser left id words state))
    (fun left depth ids h words state => sampler.GrownFromAll left ids words
      (sampler.expandAll chooser left depth ids h words state))
    ?_ ?_ ?_ ?_ ?_ ?_).1 left id words state
  case refine_1 =>
    intro left id words state hSymbol
    rw [expand, hSymbol]
    exact ⟨.unknown hSymbol, rfl, rfl⟩
  case refine_2 =>
    intro left id words state s hSymbol hTerminal
    rw [expand, hSymbol]
    simp only [hTerminal, if_true]
    exact ⟨.leaf hSymbol hTerminal, rfl, rfl⟩
  case refine_3 =>
    intro left id words state s hSymbol hTerminal allowed h picked rule hAllowed ih
    have hRule : rule ∈ s.rules := (List.mem_filter.1 (List.getElem_mem picked.1.isLt)).1
    have hNonterminal := Bool.eq_false_of_not_eq_true hTerminal
    rw [expand_of_pick hSymbol hNonterminal rfl h rfl (depthOf_le_ruleDepth hAllowed)]
    exact ⟨.node hSymbol hNonterminal hRule hAllowed ih.roots_eq ih.grows, rfl, ih.words_eq⟩
  case refine_4 =>
    intro left id words state s hSymbol hTerminal allowed h
    rw [expand, hSymbol]
    simp only [hTerminal, Bool.false_eq_true, if_false]
    rw [dif_neg h]
    refine ⟨.stuck hSymbol (Bool.eq_false_of_not_eq_true hTerminal) ?_, rfl, rfl⟩
    intro rule hRule
    by_contra hAllows
    exact h (List.length_pos_of_mem
      (List.mem_filter.2 ⟨hRule, Bool.eq_true_of_not_eq_false hAllows⟩))
  case refine_5 =>
    intro left depth words state _ _
    rw [expandAll]
    exact .nil sampler left words state
  case refine_6 =>
    intro left depth words state id ids h first _ hFirst hOthers
    rw [expandAll]
    exact .cons hFirst hOthers

/-- A sentence is derived from a ranked nonterminal, which the name finds. -/
theorem exists_of_sampleFrom {sampler : Sampler} {chooser : Chooser σ} {name : String}
    {state after : σ} {tree : Derivation}
    (h : sampler.sampleFrom chooser name state = .ok (tree, after)) :
    ∃ id s, sampler.grammar.symbols.find? name = some (id, s) ∧ s.isNonterminal = true ∧
      sampler.ranking.isProductive id = true ∧
        (sampler.expand chooser sampler.maxDepth id 0 state).derived = tree := by
  unfold sampleFrom at h
  split at h
  case h_1 => cases h
  case h_2 id s hFind =>
    split at h
    case isTrue => cases h
    case isFalse hKind =>
      split at h
      case isTrue => cases h
      case isFalse hProductive =>
        cases h
        rw [Bool.not_eq_true', Bool.not_eq_false] at hKind hProductive
        exact ⟨id, s, hFind, hKind, hProductive, rfl⟩

/-- The derivation of a sentence has grown from the start. -/
theorem grows_of_sampleFrom {sampler : Sampler} {chooser : Chooser σ} {name : String}
    {state after : σ} {tree : Derivation}
    (h : sampler.sampleFrom chooser name state = .ok (tree, after)) :
    sampler.Grows sampler.maxDepth 0 tree := by
  obtain ⟨id, s, -, -, -, rfl⟩ := exists_of_sampleFrom h
  exact (grownFrom_expand sampler chooser sampler.maxDepth id 0 state).grows

end Sampler

end GrammarCheck
