import GrammarCheck.Proofs.Renaming.Report
import GrammarCheck.Proofs.Sampler.Sentence

/-! Sampling under other names. The choices are made among ids, so the same draws lead to the same
tree; only its words are other names. -/

namespace GrammarCheck

def SamplingFault.rename (f : String → String) : SamplingFault → SamplingFault
  | .noStartSymbol => .noStartSymbol
  | .unknownSymbol name => .unknownSymbol (f name)
  | .notNonterminal name => .notNonterminal (f name)
  | .unproductive name => .unproductive (f name)

def SamplingError.rename (f : String → String) (e : SamplingError) : SamplingError :=
  ⟨e.location, e.cause.rename f⟩

namespace Sampler

variable {σ : Type} (f : String ↪ String) (sampler : Sampler)

/-- The sampler of the grammar under other names, with the same ranks. -/
def rename : Sampler := { sampler with grammar := sampler.grammar.rename f }

variable {sampler}

/-- An id stands for the same symbol under its new name, or for none as before. -/
theorem symbol?_rename {id : SymbolId} {found : Option Symbol}
    (h : sampler.grammar.symbols.symbol? id = found) :
    (sampler.rename f).grammar.symbols.symbol? id = found.map (Symbol.rename f) := by
  rw [rename, Grammar.rename, SymbolTable.symbol?_rename, h]

/-- The same choices grow the same tree. The induction is on the levels that are left and the
symbols still to be derived from. -/
theorem expand_rename (chooser : Chooser σ) (left : Nat) (id : SymbolId) (words : Nat) (state : σ) :
    (sampler.rename f).expand chooser left id words state =
      sampler.expand chooser left id words state := by
  refine (expand.mutual_induct sampler chooser
    (fun left id words state => (sampler.rename f).expand chooser left id words state =
      sampler.expand chooser left id words state)
    (fun left depth ids h words state =>
      ∀ hRenamed : ∀ id ∈ ids, (sampler.rename f).depthOf id ≤ depth,
        (sampler.rename f).expandAll chooser left depth ids hRenamed words state =
          sampler.expandAll chooser left depth ids h words state)
    ?_ ?_ ?_ ?_ ?_ ?_).1 left id words state
  case refine_1 =>
    intro left id words state hSymbol
    rw [expand, symbol?_rename f hSymbol, expand, hSymbol]
    rfl
  case refine_2 =>
    intro left id words state s hSymbol hTerminal
    rw [expand, symbol?_rename f hSymbol, expand, hSymbol]
    exact (if_pos hTerminal).trans (if_pos hTerminal).symm
  case refine_3 =>
    intro left id words state s hSymbol hTerminal allowed h picked rule hAllowed ih
    rw [expand, symbol?_rename f hSymbol, expand, hSymbol]
    refine ((if_neg hTerminal).trans (dif_pos h)).trans
      (Eq.trans ?_ ((if_neg hTerminal).trans (dif_pos h)).symm)
    exact congrArg (fun progress : Progress σ (List Derivation) =>
      (⟨.node id progress.derived, progress.words, progress.state⟩ : Progress σ Derivation)) (ih _)
  case refine_4 =>
    intro left id words state s hSymbol hTerminal allowed h
    rw [expand, symbol?_rename f hSymbol, expand, hSymbol]
    refine ((if_neg hTerminal).trans (dif_neg h)).trans
      (Eq.trans ?_ ((if_neg hTerminal).trans (dif_neg h)).symm)
    rfl
  case refine_5 =>
    intro left depth words state _ _ hRenamed
    rw [expandAll, expandAll]
  case refine_6 =>
    intro left depth words state id ids h first _ hFirst hOthers hRenamed
    rw [expandAll, expandAll, hFirst, hOthers]

/-- Sampling from a name under other names: the same tree, or the same error about the other
name. -/
theorem sampleFrom_rename (chooser : Chooser σ) (name : String) (state : σ) :
    (sampler.rename f).sampleFrom chooser (f name) state =
      mapBoth (SamplingError.rename f) id (sampler.sampleFrom chooser name state) := by
  have hFind : (sampler.rename f).grammar.symbols.find? (f name) = _ :=
    SymbolTable.find?_rename f sampler.grammar.symbols name
  rw [sampleFrom, hFind, sampleFrom]
  cases sampler.grammar.symbols.find? name with
  | none => rfl
  | some found =>
      obtain ⟨id, s⟩ := found
      simp only [Option.map_some, Prod.map_apply, id_eq, expand_rename]
      rw [show (s.rename f).isNonterminal = s.isNonterminal from rfl,
        show (sampler.rename f).ranking = sampler.ranking from rfl]
      split
      case isTrue => rfl
      case isFalse => split <;> rfl

/-- Every word is a symbol of the table, whatever ranks the tree was grown with. -/
theorem Grows.exists_symbol_of_leaf {left words : Nat} {tree : Derivation}
    (h : sampler.Grows left words tree) :
    ∀ leaf ∈ tree.leaves, ∃ s, sampler.grammar.symbols.symbol? leaf = some s := by
  induction h with
  | leaf hSymbol _ =>
      intro leaf hMem
      rw [List.mem_singleton.1 hMem]
      exact ⟨_, hSymbol⟩
  | node _ _ _ _ _ _ ih =>
      intro leaf hMem
      obtain ⟨child, hChild, hLeaf⟩ := Derivation.mem_leavesOf.1 hMem
      obtain ⟨before, after, hSplit⟩ := List.append_of_mem hChild
      exact ih before child after hSplit leaf hLeaf
  | unknown => simp [Derivation.leaves]
  | stuck => simp [Derivation.leaves]

/-- The sentence under other names: each word is renamed. -/
theorem sentence_rename {chooser : Chooser σ} {name : String} {state after : σ} {tree : Derivation}
    (h : sampler.sampleFrom chooser name state = .ok (tree, after)) :
    tree.sentence (sampler.grammar.rename f).symbols =
      " ".intercalate (tree.leaves.map fun leaf => f (sampler.grammar.symbols.name leaf)) := by
  rw [Derivation.sentence]
  refine congrArg _ (List.map_congr_left fun leaf hMem => ?_)
  obtain ⟨s, hSymbol⟩ := (grows_of_sampleFrom h).exists_symbol_of_leaf leaf hMem
  exact sampler.grammar.name_rename f hSymbol

end Sampler

end GrammarCheck
