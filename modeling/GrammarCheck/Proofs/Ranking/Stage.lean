import GrammarCheck.Proofs.Derivation.Complete
import GrammarCheck.Ranking
import Mathlib.Data.List.Perm.Subperm
import Mathlib.Order.Bounds.Basic

/-! Ranks pass by pass. After `n` passes the symbols with a rank are those with a derivation of
height at most `n`, and their rank is the least such height. Hence there is no gap below a rank, and
no rank exceeds the number of nonterminals. -/

namespace GrammarCheck.Ranking

/-- Some symbols have a highest rank as soon as each of them has a rank. -/
theorem exists_highest?_le {r : Ranking} {ids : List SymbolId} {n : Nat}
    (h : ∀ id ∈ ids, ∃ m ≤ n, r.rank? id = some m) : ∃ m ≤ n, r.highest? ids = some m := by
  induction ids with
  | nil => exact ⟨0, Nat.zero_le n, rfl⟩
  | cons id ids ih =>
      obtain ⟨here, hHere, hRank⟩ := h id List.mem_cons_self
      obtain ⟨there, hThere, hHighest⟩ := ih fun other hMem => h other (List.mem_cons_of_mem id hMem)
      exact ⟨max here there, Nat.max_le.2 ⟨hHere, hThere⟩, by simp [highest?, hRank, hHighest]⟩

/-- An alternative lacks a rank as soon as one of its symbols does. -/
theorem highest?_eq_none_iff {r : Ranking} {ids : List SymbolId} :
    r.highest? ids = none ↔ ∃ id ∈ ids, r.rank? id = none := by
  induction ids with
  | nil => simp [highest?]
  | cons id ids ih =>
      cases hRank : r.rank? id with
      | none => simp [highest?, hRank]
      | some here =>
          cases hHighest : r.highest? ids with
          | none => simpa [highest?, hRank, hHighest] using ih.1 hHighest
          | some there =>
              have hAll : ¬ ∃ id ∈ ids, r.rank? id = none := by
                rw [← ih, hHighest]
                simp
              simpa [highest?, hRank, hHighest] using hAll

/-- A symbol is proven by an alternative of which everything has been proven. -/
theorem proves_iff {r : Ranking} {s : Symbol} :
    r.proves s = true ↔ s.isNonterminal = true ∧
      ∃ rule ∈ s.rules, ∃ n, r.ruleRank? rule = some n := by
  simp [proves, Option.isSome_iff_exists]

/-- Before the first pass the terminals have rank zero, and nothing else has a rank. -/
theorem rank?_base {t : SymbolTable} {id : SymbolId} {n : Nat} :
    (base t).rank? id = some n ↔
      n = 0 ∧ ∃ s, t.symbol? id = some s ∧ s.isTerminal = true := by
  cases hSymbol : t.symbol? id with
  | none =>
      have hNone : t.symbols[id.index]? = none := hSymbol
      simp [rank?, base, hNone]
  | some s =>
      have hSome : t.symbols[id.index]? = some s := hSymbol
      by_cases hTerminal : s.isTerminal = true
      · simp [rank?, base, hSome, hTerminal, @eq_comm Nat 0]
      · simp [rank?, base, hSome, hTerminal]

/-- A pass keeps the ranks that there are and gives its own number to what it proves. -/
theorem rank?_extend_of_symbol {t : SymbolTable} {r : Ranking} {n : Nat} {id : SymbolId}
    {s : Symbol} (hSymbol : t.symbol? id = some s) :
    (extend t n r).rank? id = (r.rank? id).or (if r.proves s then some n else none) := by
  have hSome : t.symbols[id.index]? = some s := hSymbol
  simp [rank?, extend, hSome]

theorem rank?_extend_of_none {t : SymbolTable} {r : Ranking} {n : Nat} {id : SymbolId}
    (hSymbol : t.symbol? id = none) : (extend t n r).rank? id = none := by
  have hNone : t.symbols[id.index]? = none := hSymbol
  simp [rank?, extend, hNone]

/-- The ranks after `n` passes, with none of them saved. -/
def stage (t : SymbolTable) : Nat → Ranking
  | 0 => base t
  | n + 1 => extend t (n + 1) (stage t n)

/-- A pass that proves nothing says nothing about its number, so no later pass proves anything. -/
theorem extend_eq_self {t : SymbolTable} {r : Ranking} {n : Nat} (h : extend t n r = r) (m : Nat) :
    extend t m r = r := by
  have hSaturated : ∀ (i : Nat) (s : Symbol), t.symbols[i]? = some s →
      r.rank? ⟨i⟩ = none → r.proves s = false := by
    intro i s hSymbol hRank
    by_contra hProves
    have hNext : (extend t n r).rank? ⟨i⟩ =
        (r.rank? ⟨i⟩).or (if r.proves s then some n else none) := rank?_extend_of_symbol hSymbol
    rw [h, hRank] at hNext
    simp [hProves] at hNext
  have hSame : extend t m r = extend t n r := by
    rw [extend, extend, mk.injEq]
    apply Array.ext (by simp)
    intro i hLeft hRight
    have hSize : i < t.symbols.size := by simpa using hLeft
    simp only [Array.getElem_mapIdx]
    cases hRank : r.rank? ⟨i⟩ with
    | some here => simp
    | none => simp [hSaturated i t.symbols[i] (Array.getElem?_eq_getElem hSize) hRank]
  rw [hSame, h]

/-- Once a pass proves nothing, the ranks stay as they are. -/
theorem stage_eq_of_extend_eq_self {t : SymbolTable} {n : Nat}
    (h : extend t (n + 1) (stage t n) = stage t n) (k : Nat) : stage t (n + k) = stage t n := by
  induction k with
  | zero => rfl
  | succ k ih =>
      rw [← Nat.add_assoc, stage, ih]
      exact extend_eq_self h _

/-- Leaving out passes after one that proves nothing does not change the ranks. -/
theorem iterate_stage (t : SymbolTable) (passes n : Nat) :
    iterate t passes (n + 1) (stage t n) = stage t (n + passes) := by
  induction passes generalizing n with
  | zero => rfl
  | succ passes ih =>
      rw [iterate]
      by_cases h : extend t (n + 1) (stage t n) = stage t n
      · rw [if_pos h, stage_eq_of_extend_eq_self h]
      · rw [if_neg h]
        have hNext := ih (n + 1)
        rw [stage] at hNext
        rw [hNext, Nat.add_right_comm, Nat.add_assoc]

/-- There are as many passes as nonterminals, with the idle ones counted. -/
theorem ofTable_eq_stage (t : SymbolTable) : ofTable t = stage t t.nonterminals.length := by
  rw [← Nat.zero_add t.nonterminals.length]
  exact iterate_stage t t.nonterminals.length 0

/-- The ranks are the least heights of derivations as far as `n`, and nothing else has a rank. -/
def ExactTo (t : SymbolTable) (n : Nat) (r : Ranking) : Prop :=
  ∀ id m, r.rank? id = some m ↔ IsLeast (t.heights id) m ∧ m ≤ n

/-- The terminals alone are derived without a level. -/
theorem exactTo_base (t : SymbolTable) : ExactTo t 0 (base t) := by
  intro id m
  rw [rank?_base]
  constructor
  · rintro ⟨rfl, s, hSymbol, hTerminal⟩
    exact ⟨⟨⟨.leaf id, .of_terminal hSymbol hTerminal, rfl⟩, fun k _ => Nat.zero_le k⟩,
      Nat.le_refl 0⟩
  · rintro ⟨hLeast, hZero⟩
    have hWithin := (SymbolTable.derivesWithin_of_least hLeast).2 hZero
    exact ⟨Nat.le_zero.1 hZero, SymbolTable.derivesWithin_zero_iff.1 hWithin⟩

namespace ExactTo

variable {t : SymbolTable} {n : Nat} {r : Ranking}

/-- Ranked after `n` passes is what has a derivation of at most `n` levels. -/
theorem exists_rank?_iff (h : ExactTo t n r) {id : SymbolId} :
    (∃ m ≤ n, r.rank? id = some m) ↔ t.DerivesWithin n id := by
  constructor
  · rintro ⟨m, hLe, hRank⟩
    exact (SymbolTable.derivesWithin_of_least ((h id m).1 hRank).1).2 hLe
  · intro hWithin
    obtain ⟨m, hLe, hLeast⟩ := SymbolTable.exists_least_height hWithin
    exact ⟨m, hLe, (h id m).2 ⟨hLeast, hLe⟩⟩

/-- An alternative has a rank when each of its symbols has a derivation that is low enough. -/
theorem exists_ruleRank?_iff (h : ExactTo t n r) {rule : Rule} :
    (∃ m, r.ruleRank? rule = some m) ↔ ∀ child ∈ rule.symbols, t.DerivesWithin n child := by
  constructor
  · rintro ⟨m, hRule⟩ child hMem
    obtain ⟨k, hRank, -⟩ := rank?_le_of_highest? hRule child hMem
    exact h.exists_rank?_iff.1 ⟨k, ((h child k).1 hRank).2, hRank⟩
  · intro hChildren
    obtain ⟨m, -, hHighest⟩ :=
      exists_highest?_le fun child hMem => h.exists_rank?_iff.2 (hChildren child hMem)
    exact ⟨m, hHighest⟩

/-- What is without a rank after `n` passes takes more than `n` levels. -/
theorem lt_of_rank?_eq_none (h : ExactTo t n r) {id : SymbolId} (hNone : r.rank? id = none)
    {m : Nat} (hLeast : IsLeast (t.heights id) m) : n < m := by
  by_contra hLe
  rw [(h id m).2 ⟨hLeast, Nat.le_of_not_lt hLe⟩] at hNone
  cases hNone

/-- What has no rank yet is proven by the next pass when its lowest derivation is one level
higher. -/
theorem proves_iff_isLeast (h : ExactTo t n r) {id : SymbolId} {s : Symbol}
    (hSymbol : t.symbol? id = some s) (hNone : r.rank? id = none) :
    r.proves s = true ↔ IsLeast (t.heights id) (n + 1) := by
  rw [proves_iff]
  constructor
  · rintro ⟨hNonterminal, rule, hMem, hRank⟩
    have hWithin := (SymbolTable.derivesWithin_succ_iff hSymbol hNonterminal).2
      ⟨rule, hMem, h.exists_ruleRank?_iff.1 hRank⟩
    obtain ⟨m, hLe, hLeast⟩ := SymbolTable.exists_least_height hWithin
    have hEq : m = n + 1 := Nat.le_antisymm hLe (h.lt_of_rank?_eq_none hNone hLeast)
    exact hEq ▸ hLeast
  · intro hLeast
    have hWithin := (SymbolTable.derivesWithin_of_least hLeast).2 (Nat.le_refl (n + 1))
    obtain ⟨s', hSymbol', hKind⟩ := hWithin.symbol
    cases hSymbol.symm.trans hSymbol'
    rcases hKind with hTerminal | hNonterminal
    · have hZero := SymbolTable.derivesWithin_zero_iff.2 ⟨s, hSymbol, hTerminal⟩
      have hLow := (SymbolTable.derivesWithin_of_least hLeast).1 hZero
      omega
    · obtain ⟨rule, hMem, hChildren⟩ :=
        (SymbolTable.derivesWithin_succ_iff hSymbol hNonterminal).1 hWithin
      exact ⟨hNonterminal, rule, hMem, h.exists_ruleRank?_iff.2 hChildren⟩

/-- One pass more is exact one level further. -/
theorem extend (h : ExactTo t n r) : ExactTo t (n + 1) (Ranking.extend t (n + 1) r) := by
  intro id m
  cases hSymbol : t.symbol? id with
  | none =>
      rw [rank?_extend_of_none hSymbol]
      constructor
      · intro hNone
        cases hNone
      · rintro ⟨hLeast, hLe⟩
        obtain ⟨s, hSome, -⟩ := ((SymbolTable.derivesWithin_of_least hLeast).2 hLe).symbol
        rw [hSymbol] at hSome
        cases hSome
  | some s =>
      rw [rank?_extend_of_symbol hSymbol]
      cases hOld : r.rank? id with
      | some k =>
          obtain ⟨hLeast, hLe⟩ := (h id k).1 hOld
          rw [Option.some_or, Option.some.injEq]
          constructor
          · rintro rfl
            exact ⟨hLeast, Nat.le_succ_of_le hLe⟩
          · rintro ⟨hOther, -⟩
            exact IsLeast.unique hLeast hOther
      | none =>
          rw [Option.none_or]
          constructor
          · intro hProven
            split at hProven
            case isFalse => cases hProven
            case isTrue hProves =>
              cases hProven
              exact ⟨(h.proves_iff_isLeast hSymbol hOld).1 hProves, Nat.le_refl _⟩
          · rintro ⟨hLeast, hLe⟩
            have hEq : m = n + 1 := Nat.le_antisymm hLe (h.lt_of_rank?_eq_none hOld hLeast)
            subst hEq
            rw [if_pos ((h.proves_iff_isLeast hSymbol hOld).2 hLeast)]

end ExactTo

/-- After `n` passes the ranks are right up to `n`. The induction is on the passes. -/
theorem exactTo_stage (t : SymbolTable) (n : Nat) : ExactTo t n (stage t n) := by
  induction n with
  | zero => exact exactTo_base t
  | succ n ih => exact ih.extend

end GrammarCheck.Ranking
