import GrammarCheck.Proofs.Grammar.Reachable
import GrammarCheck.Proofs.Renaming.Reading
import GrammarCheck.Report

/-! Examining a grammar under other names. Ranks are found from kinds and alternatives, in which
there are no names, and the defects are those of the same symbols. -/

namespace GrammarCheck

namespace SymbolTable

variable (f : String ↪ String) (t : SymbolTable)

theorem toList_rename : (t.rename f).toList = t.toList.map (Prod.map id (Symbol.rename f)) := by
  rw [toList, toList, rename, Array.toList_map, List.zipIdx_map, List.map_map, List.map_map]
  rfl

/-- The nonterminals keep their ids and their order. -/
theorem nonterminals_rename :
    (t.rename f).nonterminals = t.nonterminals.map (Prod.map id (Symbol.rename f)) := by
  rw [nonterminals, nonterminals, toList_rename, List.filter_map]
  rfl

end SymbolTable

namespace Ranking

variable (f : String ↪ String) (t : SymbolTable)

theorem base_rename : base (t.rename f) = base t := by
  rw [base, base, SymbolTable.rename, Array.map_map]
  rfl

theorem extend_rename (n : Nat) (r : Ranking) : extend (t.rename f) n r = extend t n r := by
  rw [extend, extend, mk.injEq]
  apply Array.ext_getElem?
  intro i
  rw [Array.getElem?_mapIdx, Array.getElem?_mapIdx, SymbolTable.rename, Array.getElem?_map,
    Option.map_map]
  rfl

theorem iterate_rename (passes n : Nat) (r : Ranking) :
    iterate (t.rename f) passes n r = iterate t passes n r := by
  induction passes generalizing n r with
  | zero => rfl
  | succ passes ih => rw [iterate, iterate, extend_rename, ih]

theorem ofTable_rename : ofTable (t.rename f) = ofTable t := by
  rw [ofTable, ofTable, iterate_rename, base_rename, SymbolTable.nonterminals_rename,
    List.length_map]

end Ranking

namespace Grammar

variable (f : String ↪ String) (g : Grammar)

theorem used_rename : (g.rename f).used = g.used := by
  rw [used, used, rename, SymbolTable.nonterminals_rename, List.flatMap_map]
  rfl

/-- The name of a symbol under other names. An id of no symbol has no name to be changed. -/
theorem name_rename {id : SymbolId} {s : Symbol} (h : g.symbols.symbol? id = some s) :
    (g.rename f).symbols.name id = f (g.symbols.name id) := by
  rw [rename, SymbolTable.name, SymbolTable.name, SymbolTable.symbol?_rename, h]
  rfl

/-- The defects of the start symbol are those under the new names. -/
theorem Linked.startDefects_rename (h : g.Linked) :
    (g.rename f).startDefects = g.startDefects.map (Defect.rename f) := by
  rw [startDefects, startDefects, show (g.rename f).start = g.start from rfl]
  cases hStart : g.start with
  | none => rfl
  | some start =>
      obtain ⟨s, hSymbol⟩ := h.start start hStart
      have hRenamed : (g.rename f).symbols.symbol? start = some (s.rename f) := by
        rw [rename, SymbolTable.symbol?_rename, hSymbol]
        rfl
      simp only [hSymbol, hRenamed, List.map_append, List.map_map]
      refine congrArg₂ (· ++ ·) ?_ (List.map_congr_left fun extra hMem => ?_)
      · rw [show (s.rename f).isDefined = s.isDefined from rfl]
        split <;> rfl
      · obtain ⟨s', hExtra⟩ := h.extraStarts extra hMem
        rw [name_rename f g hSymbol, name_rename f g hExtra]
        rfl

/-- The same symbols are undefined, each under its new name. -/
theorem undefinedDefects_rename :
    (g.rename f).undefinedDefects = g.undefinedDefects.map (Defect.rename f) := by
  simp only [undefinedDefects, used_rename]
  rw [show (g.rename f).symbols.toList = _ from SymbolTable.toList_rename f g.symbols,
    List.filterMap_map, List.map_filterMap]
  refine List.filterMap_congr fun entry _ => ?_
  obtain ⟨id, s⟩ := entry
  simp only [Function.comp_apply, Prod.map_apply, id_eq]
  rw [show (s.rename f).isDefined = s.isDefined from rfl,
    show (g.rename f).start = g.start from rfl]
  split <;> rfl

/-- The same symbols are unproductive, each under its new name. -/
theorem unproductiveDefects_rename (r : Ranking) :
    (g.rename f).unproductiveDefects r = (g.unproductiveDefects r).map (Defect.rename f) := by
  simp only [unproductiveDefects]
  rw [show (g.rename f).symbols.nonterminals = _ from SymbolTable.nonterminals_rename f g.symbols,
    List.filterMap_map, List.map_filterMap]
  refine List.filterMap_congr fun entry _ => ?_
  obtain ⟨id, s⟩ := entry
  simp only [Function.comp_apply, Prod.map_apply, id_eq]
  split <;> rfl

/-- The report about a grammar under other names. -/
theorem Linked.report_rename (h : g.Linked) :
    (g.rename f).report = ⟨g.report.ranking, g.report.defects.map (Defect.rename f)⟩ := by
  have hRanking : Ranking.ofTable (g.rename f).symbols = Ranking.ofTable g.symbols :=
    Ranking.ofTable_rename f g.symbols
  simp only [report, hRanking, h.startDefects_rename f, undefinedDefects_rename,
    unproductiveDefects_rename, List.map_append]

end Grammar

end GrammarCheck
