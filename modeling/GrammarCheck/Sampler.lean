import GrammarCheck.Derivation
import GrammarCheck.Grammar.Basic
import GrammarCheck.Ranking
import GrammarCheck.Random.Choice

/-! Deriving random sentences. Alternatives are chosen freely up to a depth and a number of words;
beyond either limit only those remain in which every symbol ranks below the one that is expanded.
Ranks cannot drop forever, so every derivation ends, whatever is chosen. -/

namespace GrammarCheck

inductive SamplingFault where
  | noStartSymbol
  | unknownSymbol (name : String)
  | notNonterminal (name : String)
  | unproductive (name : String)
  deriving DecidableEq

def SamplingFault.message : SamplingFault → String
  | .noStartSymbol => "No start symbol to generate from"
  | .unknownSymbol name => s!"No symbol named `{name}`"
  | .notNonterminal name => s!"`{name}` is not a nonterminal"
  | .unproductive name => s!"`{name}` never derives a finite sentence"

/-- The reason why there is no sentence, at the symbol it is about. -/
abbrev SamplingError := Diagnostic SamplingFault

/-- The depth up to which alternatives are chosen freely unless another one is asked for. -/
def defaultDepth : Nat := 16

/-- The number of words up to which alternatives are chosen freely. -/
def maxWords : Nat := 4096

/-- What sentences are derived with. The ranks need not be those of the grammar. -/
structure Sampler where
  grammar : Grammar
  ranking : Ranking
  maxDepth : Nat

/-- Part of a derivation under way: what has been derived, the words derived in all so far, and the
state of the chooser. -/
structure Progress (σ α : Type) where
  derived : α
  words : Nat
  state : σ

namespace Sampler

variable {σ : Type}

/-- Whether a rank lies below that of a symbol. A symbol without a rank has none below it. -/
def ranksBelow (sampler : Sampler) (id : SymbolId) (rank : Nat) : Bool :=
  match sampler.ranking.rank? id with
  | some own => rank < own
  | none => false

/-- Whether an alternative may be chosen for a symbol: with `left` levels until the depth limit, and
`words` words derived so far. -/
def allows (sampler : Sampler) (id : SymbolId) (left words : Nat) (rule : Rule) : Bool :=
  match sampler.ranking.ruleRank? rule with
  | some rank => (0 < left && words < maxWords) || sampler.ranksBelow id rank
  | none => false

/-- The rank of a symbol where one without a rank counts as lowest. -/
def depthOf (sampler : Sampler) (id : SymbolId) : Nat := (sampler.ranking.rank? id).getD 0

/-- The highest rank in an alternative, counted in the same way. -/
def ruleDepth (sampler : Sampler) (rule : Rule) : Nat := (sampler.ranking.ruleRank? rule).getD 0

/-- No symbol of an alternative with a rank lies deeper than the alternative. -/
theorem depthOf_le_ruleDepth {sampler : Sampler} {id : SymbolId} {left words : Nat} {rule : Rule}
    (h : sampler.allows id left words rule = true) :
    ∀ child ∈ rule.symbols, sampler.depthOf child ≤ sampler.ruleDepth rule := by
  unfold allows at h
  split at h
  · rename_i rank hRank
    intro child hMem
    obtain ⟨m, hChild, hLe⟩ := Ranking.rank?_le_of_highest? hRank child hMem
    simpa [depthOf, ruleDepth, hChild, hRank] using hLe
  · cases h

/-- At the depth limit an alternative lies below the symbol it is chosen for. -/
theorem ruleDepth_lt_depthOf {sampler : Sampler} {id : SymbolId} {words : Nat} {rule : Rule}
    (h : sampler.allows id 0 words rule = true) : sampler.ruleDepth rule < sampler.depthOf id := by
  unfold allows at h
  split at h
  · rename_i rank hRank
    simp only [Nat.lt_irrefl, decide_false, Bool.false_and, Bool.false_or, ranksBelow] at h
    split at h
    · rename_i own hOwn
      simpa [depthOf, ruleDepth, hOwn, hRank] using h
    · cases h
  · cases h

/-- How derivations are compared to see that they end: by the levels left, then by the depth of the
symbol, then by the number of symbols still to be derived from. -/
abbrev Shorter : Nat × Nat × Nat → Nat × Nat × Nat → Prop :=
  Prod.Lex (· < ·) (Prod.Lex (· < ·) (· < ·))

/-- An alternative that may be chosen brings the derivation one step nearer to its end, whatever the
number of its symbols: there is a level less, or its symbols rank lower. -/
theorem shorter_of_allows {sampler : Sampler} {id : SymbolId} {left words : Nat} {rule : Rule}
    (h : sampler.allows id left words rule = true) (n : Nat) :
    Shorter (left - 1, sampler.ruleDepth rule, n) (left, sampler.depthOf id, 0) := by
  cases left with
  | zero => exact .right _ (.left _ _ (ruleDepth_lt_depthOf h))
  | succ left => exact .left _ _ (Nat.lt_succ_self left)

/-- Going on to one of several symbols leaves one less of them to derive from. -/
theorem shorter_of_depthOf_le {sampler : Sampler} {id : SymbolId} {depth : Nat}
    (h : sampler.depthOf id ≤ depth) (left n : Nat) :
    Shorter (left, sampler.depthOf id, 0) (left, depth, n + 1) := by
  rcases Nat.lt_or_eq_of_le h with hLt | hEq
  · exact .right _ (.left _ _ hLt)
  · rw [hEq]
    exact .right _ (.right _ (Nat.succ_pos n))

mutual

/-- Derives from a symbol, with `left` levels until the depth limit and `words` words derived so
far. -/
def expand (sampler : Sampler) (chooser : Chooser σ) (left : Nat) (id : SymbolId) (words : Nat)
    (state : σ) : Progress σ Derivation :=
  match sampler.grammar.symbols.symbol? id with
  | none => ⟨.stuck id, words, state⟩
  | some s =>
    if s.isTerminal then ⟨.leaf id, words + 1, state⟩
    else
      let allowed := s.rules.filter (sampler.allows id left words)
      if h : 0 < allowed.length then
        let picked := chooser.pick allowed.length h state
        let rule := allowed[picked.1]
        have hAllowed : sampler.allows id left words rule = true :=
          (List.mem_filter.1 (List.getElem_mem picked.1.isLt)).2
        let progress := expandAll sampler chooser (left - 1) (sampler.ruleDepth rule) rule.symbols
          (depthOf_le_ruleDepth hAllowed) words picked.2
        ⟨.node id progress.derived, progress.words, progress.state⟩
      else ⟨.stuck id, words, state⟩
termination_by (left, sampler.depthOf id, 0)
decreasing_by exact shorter_of_allows hAllowed _

/-- Derives from several symbols in turn, none of which lies deeper than `depth`. -/
def expandAll (sampler : Sampler) (chooser : Chooser σ) (left depth : Nat) (ids : List SymbolId)
    (h : ∀ id ∈ ids, sampler.depthOf id ≤ depth) (words : Nat) (state : σ) :
    Progress σ (List Derivation) :=
  match ids, h with
  | [], _ => ⟨[], words, state⟩
  | id :: ids, h =>
      let first := expand sampler chooser left id words state
      let others := expandAll sampler chooser left depth ids
        (fun child hMem => h child (List.mem_cons_of_mem id hMem)) first.words first.state
      ⟨first.derived :: others.derived, others.words, others.state⟩
termination_by (left, depth, ids.length + 1)
decreasing_by
  · exact shorter_of_depthOf_le (h id List.mem_cons_self) left _
  · exact .right _ (.right _ (Nat.lt_succ_self _))

end

def errorAt (sampler : Sampler) (line : Nat) (fault : SamplingFault) : SamplingError :=
  ⟨sampler.grammar.place line, fault⟩

def sampleFrom (sampler : Sampler) (chooser : Chooser σ) (name : String) (state : σ) :
    Except SamplingError (Derivation × σ) :=
  match sampler.grammar.symbols.find? name with
  | none => .error (sampler.errorAt 0 (.unknownSymbol name))
  | some (id, s) =>
    if !s.isNonterminal then .error (sampler.errorAt s.firstSeen (.notNonterminal name))
    else if !sampler.ranking.isProductive id then
      .error (sampler.errorAt s.homeLine (.unproductive name))
    else
      let progress := sampler.expand chooser sampler.maxDepth id 0 state
      .ok (progress.derived, progress.state)

def sample (sampler : Sampler) (chooser : Chooser σ) (state : σ) :
    Except SamplingError (Derivation × σ) :=
  match sampler.grammar.start with
  | none => .error (sampler.errorAt 0 .noStartSymbol)
  | some start => sampler.sampleFrom chooser (sampler.grammar.symbols.name start) state

end Sampler

end GrammarCheck
