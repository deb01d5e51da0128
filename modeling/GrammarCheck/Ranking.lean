import GrammarCheck.Symbol.Table

/-! Which symbols derive a finite string of terminals, and by how high a derivation. The ranks are
found in passes: a pass proves every nonterminal that has an alternative of symbols proven before
it. -/

namespace GrammarCheck

/-- The ranks of the symbols of a table by id. A terminal has rank zero, a nonterminal the height
of its lowest derivation, and a symbol without a finite derivation has none. -/
structure Ranking where
  ranks : Array (Option Nat)
  deriving DecidableEq

namespace Ranking

/-- The rank of a symbol. An id beyond the ranks has none. -/
def rank? (r : Ranking) (id : SymbolId) : Option Nat := r.ranks[id.index]?.getD none

/-- Whether a symbol derives a finite string of terminals. -/
def isProductive (r : Ranking) (id : SymbolId) : Bool := (r.rank? id).isSome

/-- The highest rank among some symbols, if all of them have one. -/
def highest? (r : Ranking) : List SymbolId → Option Nat
  | [] => some 0
  | id :: ids => do
      let here ← r.rank? id
      let there ← r.highest? ids
      return max here there

/-- Each of some symbols has a rank if there is a highest one among them. -/
theorem rank?_le_of_highest? {r : Ranking} {ids : List SymbolId} {n : Nat}
    (h : r.highest? ids = some n) : ∀ id ∈ ids, ∃ m, r.rank? id = some m ∧ m ≤ n := by
  induction ids generalizing n with
  | nil => intro id hMem; cases hMem
  | cons first ids ih =>
      cases hFirst : r.rank? first with
      | none => simp [highest?, hFirst] at h
      | some here =>
          cases hRest : r.highest? ids with
          | none => simp [highest?, hFirst, hRest] at h
          | some there =>
              simp only [highest?, hFirst, hRest, Option.bind_eq_bind,
                Option.bind_some, Option.pure_def, Option.some.injEq] at h
              intro id hMem
              rcases List.mem_cons.1 hMem with rfl | hMem
              · exact ⟨here, hFirst, by omega⟩
              · obtain ⟨m, hRank, hLe⟩ := ih hRest id hMem
                exact ⟨m, hRank, by omega⟩

def ruleRank? (r : Ranking) (rule : Rule) : Option Nat := r.highest? rule.symbols

def proves (r : Ranking) (s : Symbol) : Bool :=
  s.isNonterminal && s.rules.any fun rule => (r.ruleRank? rule).isSome

/-- The ranks before the first pass: only the terminals are proven. -/
def base (t : SymbolTable) : Ranking :=
  ⟨t.symbols.map fun s => if s.isTerminal then some 0 else none⟩

/-- One pass, the `n`-th. It looks only at what was proven before it. -/
def extend (t : SymbolTable) (n : Nat) (r : Ranking) : Ranking :=
  ⟨t.symbols.mapIdx fun i s => (r.rank? ⟨i⟩).or (if r.proves s then some n else none)⟩

/-- At most `passes` passes, the first of them numbered `n`. A pass that proves nothing is the
last. -/
def iterate (t : SymbolTable) : (passes n : Nat) → Ranking → Ranking
  | 0, _, r => r
  | passes + 1, n, r =>
      let next := extend t n r
      if next = r then r else iterate t passes (n + 1) next

/-- The ranks of all symbols. Every pass but the last proves a nonterminal, so there is no need
for more passes than nonterminals. -/
def ofTable (t : SymbolTable) : Ranking := iterate t t.nonterminals.length 1 (base t)

def countAt (r : Ranking) (n : Nat) : Nat := r.ranks.count (some n)

def maxRank (r : Ranking) : Nat := r.ranks.toList.foldr (fun rank m => max (rank.getD 0) m) 0

end Ranking

end GrammarCheck
