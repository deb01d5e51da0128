import GrammarCheck.Log
import GrammarCheck.Proofs.Ranking.Least
import GrammarCheck.Proofs.Sampler.Depth

/-! The log of finding the ranks. It is put down after the event, from the ranks alone, but it is
the one that the passes write as they go: there is no gap in the ranks, so each pass but the last
proves something, and as much as there are symbols of that rank. -/

namespace GrammarCheck

namespace Ranking

/-- The nonterminals that the next pass proves. -/
def proven (t : SymbolTable) (r : Ranking) : List (SymbolId × Symbol) :=
  t.nonterminals.filter fun (id, s) => !r.isProductive id && r.proves s

variable {t : SymbolTable}

/-- What a pass proves are the symbols whose lowest derivation is as high as the pass says. -/
theorem mem_proven_stage {n : Nat} {id : SymbolId} {s : Symbol} :
    (id, s) ∈ proven t (stage t n) ↔
      t.symbol? id = some s ∧ (ofTable t).rank? id = some (n + 1) := by
  have hExact := exactTo_stage t n
  rw [proven, List.mem_filter, SymbolTable.mem_nonterminals, rank?_ofTable_iff]
  simp only [Bool.and_eq_true, Bool.not_eq_true', isProductive, Option.isSome_eq_false_iff,
    Option.isNone_iff_eq_none]
  constructor
  · rintro ⟨⟨hSymbol, -⟩, hNone, hProves⟩
    exact ⟨hSymbol, (hExact.proves_iff_isLeast hSymbol hNone).1 hProves⟩
  · rintro ⟨hSymbol, hLeast⟩
    have hNone : (stage t n).rank? id = none := by
      cases hRank : (stage t n).rank? id with
      | none => rfl
      | some m =>
          have hEarlier := (hExact id m).1 hRank
          have hSame := hEarlier.1.unique hLeast
          omega
    have hProves := (hExact.proves_iff_isLeast hSymbol hNone).2 hLeast
    exact ⟨⟨hSymbol, (proves_iff.1 hProves).1⟩, hNone, hProves⟩

/-- The ranks of a table are those of its symbols one by one. -/
theorem toList_ranks {r : Ranking} (hSize : r.ranks.size = t.symbols.size) :
    r.ranks.toList = t.toList.map fun entry => r.rank? entry.1 := by
  apply List.ext_getElem
  · simp [SymbolTable.toList, hSize]
  · intro i hLeft hRight
    have hBound : i < r.ranks.size := by simpa using hLeft
    simp [SymbolTable.toList, rank?, Array.getElem?_eq_getElem hBound]

/-- A pass proves as many symbols as there are with its number for a rank. -/
theorem length_proven_stage (t : SymbolTable) (n : Nat) :
    (proven t (stage t n)).length = (ofTable t).countAt (n + 1) := by
  have hSize : (ofTable t).ranks.size = t.symbols.size := by
    rw [ofTable_eq_stage, size_ranks_stage]
  rw [countAt, ← Array.count_toList, toList_ranks hSize, List.count, List.countP_map,
    List.countP_eq_length_filter, proven, SymbolTable.nonterminals, List.filter_filter]
  congr 1
  apply List.filter_congr
  rintro ⟨id, s⟩ hMem
  have hProven : (id, s) ∈ proven t (stage t n) ↔ _ := mem_proven_stage
  rw [proven, SymbolTable.nonterminals, List.filter_filter, List.mem_filter, and_iff_right hMem,
    and_iff_right (SymbolTable.mem_toList.1 hMem)] at hProven
  rw [Bool.eq_iff_iff, hProven]
  simp

/-- The highest rank is the rank of a symbol, unless no nonterminal has any. -/
theorem exists_rank?_maxRank {r : Ranking} (h : 0 < r.maxRank) :
    ∃ id, r.rank? id = some r.maxRank := by
  have hMax : ∀ ranks : List (Option Nat),
      0 < ranks.foldr (fun rank m => max (rank.getD 0) m) 0 →
        some (ranks.foldr (fun rank m => max (rank.getD 0) m) 0) ∈ ranks := by
    intro ranks hPos
    induction ranks with
    | nil => cases hPos
    | cons rank ranks ih =>
        rw [List.foldr_cons] at hPos ⊢
        rcases Nat.le_total (rank.getD 0) (ranks.foldr _ 0) with hLow | hHigh
        · rw [Nat.max_eq_right hLow] at hPos ⊢
          exact List.mem_cons_of_mem rank (ih hPos)
        · rw [Nat.max_eq_left hHigh] at hPos ⊢
          cases rank with
          | none => cases hPos
          | some n => exact List.mem_cons_self
  obtain ⟨i, hBound, hRank⟩ := List.getElem_of_mem (hMax _ h)
  refine ⟨⟨i⟩, ?_⟩
  rw [rank?, Array.getElem?_eq_getElem (by simpa using hBound)]
  exact hRank

/-- A pass proves nothing exactly when it comes behind the highest rank. -/
theorem proven_stage_eq_nil_iff (t : SymbolTable) (n : Nat) :
    proven t (stage t n) = [] ↔ (ofTable t).maxRank ≤ n := by
  constructor
  · intro hNil
    by_contra hBelow
    obtain ⟨top, hTop⟩ := exists_rank?_maxRank (r := ofTable t) (by omega)
    obtain ⟨id, s, hMem, hLeast⟩ :=
      SymbolTable.exists_nonterminal_of_le (rank?_ofTable_iff.1 hTop) (n := n + 1) (by omega)
        (by omega)
    have hProven : (id, s) ∈ proven t (stage t n) :=
      mem_proven_stage.2 ⟨(SymbolTable.mem_nonterminals.1 hMem).1, rank?_ofTable_iff.2 hLeast⟩
    rw [hNil] at hProven
    cases hProven
  · intro hBehind
    by_contra hSome
    obtain ⟨⟨id, s⟩, hMem⟩ := List.exists_mem_of_ne_nil _ hSome
    have hRank := le_maxRank (mem_proven_stage.1 hMem).2
    omega

end Ranking

namespace Log

open Ranking

/-- The passes as they follow each other, the first of them numbered `n`. A pass that proves nothing
is the last. -/
def ofPasses (t : SymbolTable) : (passes n : Nat) → Ranking → List Event
  | 0, _, _ => []
  | passes + 1, n, r =>
      let found := proven t r
      .pass n found.length ::
        if found = [] then [] else ofPasses t passes (n + 1) (extend t n r)

/-- From any pass on, a pass for every rank that is still to come and one that proves nothing, but
no more than may be made. The induction is on the passes that may be made. -/
theorem ofPasses_stage (t : SymbolTable) (passes : Nat) {n : Nat}
    (h : n ≤ (ofTable t).maxRank) :
    ofPasses t passes (n + 1) (stage t n) =
      (List.range' n (min ((ofTable t).maxRank + 1 - n) passes)).map fun i =>
        .pass (i + 1) ((ofTable t).countAt (i + 1)) := by
  induction passes generalizing n with
  | zero => simp [ofPasses]
  | succ passes ih =>
      rw [ofPasses, length_proven_stage, ← stage]
      by_cases hLast : (ofTable t).maxRank ≤ n
      · have hNil := (proven_stage_eq_nil_iff t n).2 hLast
        have hOne : min ((ofTable t).maxRank + 1 - n) (passes + 1) = 1 := by omega
        rw [if_pos hNil, hOne]
        rfl
      · have hNext := ih (n := n + 1) (by omega)
        have hMore : min ((ofTable t).maxRank + 1 - n) (passes + 1) =
            min ((ofTable t).maxRank + 1 - (n + 1)) passes + 1 := by omega
        rw [if_neg (hLast ∘ (proven_stage_eq_nil_iff t n).1), hNext, hMore, List.range'_succ]
        rfl

/-- The events of finding the ranks are those of the passes. -/
theorem ofRanking_ofTable (g : Grammar) :
    ofRanking g (ofTable g.symbols) =
      ofPasses g.symbols g.symbols.nonterminals.length 1 (base g.symbols) := by
  have hPasses := ofPasses_stage g.symbols g.symbols.nonterminals.length (Nat.zero_le _)
  rw [ofRanking, List.range_eq_range']
  exact hPasses.symm

end Log

end GrammarCheck
