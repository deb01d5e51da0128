import GrammarCheck.Defect
import GrammarCheck.Grammar.Basic
import GrammarCheck.Ranking

/-! The defects of a grammar that only show once all of it has been read: start symbols, undefined
symbols, and nonterminals whose derivations never end. -/

namespace GrammarCheck

namespace Grammar

def defectAt (g : Grammar) (line : Nat) (fault : Fault) : Defect := ⟨g.place line, fault⟩

def startDefects (g : Grammar) : List Defect :=
  match g.start with
  | none => [g.defectAt 0 .missingStart]
  | some start =>
      let undefined := match g.symbols.symbol? start with
        | some s => if s.isDefined then [] else [g.defectAt g.startLine (.startUndefined s.name)]
        | none => []
      undefined ++ g.extraStarts.map fun extra =>
        g.defectAt extra.line
          (.duplicateStart (g.symbols.name start) (g.symbols.name extra.symbol))

/-- The ids in the alternatives of the nonterminals. -/
def used (g : Grammar) : List SymbolId :=
  g.symbols.nonterminals.flatMap fun (_, s) => s.rules.flatMap (·.symbols)

/-- Symbols that are used but not defined. An undefined start symbol has a defect of its own. -/
def undefinedDefects (g : Grammar) : List Defect :=
  let used := g.used
  g.symbols.toList.filterMap fun (id, s) =>
    if used.contains id && !s.isDefined && g.start != some id then
      some (g.defectAt s.firstSeen (.undefinedSymbol s.name))
    else none

/-- Nonterminals without a finite derivation, those without any alternative included. -/
def unproductiveDefects (g : Grammar) (r : Ranking) : List Defect :=
  g.symbols.nonterminals.filterMap fun (id, s) =>
    if r.isProductive id then none else some (g.defectAt s.homeLine (.unproductive s.name))

end Grammar

/-- What there is to say about a grammar: the ranks of its symbols, and its defects. -/
structure Report where
  ranking : Ranking
  defects : List Defect

def Grammar.report (g : Grammar) : Report :=
  let ranking := Ranking.ofTable g.symbols
  ⟨ranking, g.startDefects ++ g.undefinedDefects ++ g.unproductiveDefects ranking⟩

/-- The ranks of a grammar without defects, or else its defects. -/
def Grammar.check (g : Grammar) : Except (List Defect) Ranking :=
  let report := g.report
  if report.defects.isEmpty then .ok report.ranking else .error report.defects

end GrammarCheck
