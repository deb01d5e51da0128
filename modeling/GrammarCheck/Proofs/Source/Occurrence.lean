import GrammarCheck.Construct
import GrammarCheck.Symbol.Table
import Mathlib.Data.List.Basic

/-! The names of a text where they stand, and the kinds they are used as there. The first use of a
name as a kind settles what the name is. -/

namespace GrammarCheck

/-- A name where it stands, with the kind that it is used as there. In an alternative it is used as
no kind. -/
structure Occurrence where
  ident : Ident
  kind? : Option SymbolKind

namespace Occurrence

variable {os others : List Occurrence} {name : String}

def names (os : List Occurrence) : List String := os.map (·.ident.name)

/-- The kind that a name is first used as. -/
def settled (os : List Occurrence) (name : String) : Option SymbolKind :=
  os.findSome? fun o => if o.ident.name = name then o.kind? else none

/-- The conflict that an occurrence is in, if its name is settled as another kind. -/
def conflict? (os : List Occurrence) (o : Occurrence) : Option KindConflict := do
  let requested ← o.kind?
  let existing ← settled os o.ident.name
  if existing = requested then none else some ⟨o.ident.name, existing, requested⟩

def UsedAs (os : List Occurrence) (name : String) (kind : SymbolKind) : Prop :=
  ∃ o ∈ os, o.ident.name = name ∧ o.kind? = some kind

theorem settled_append : settled (os ++ others) name = (settled os name).or (settled others name) :=
  List.findSome?_append

theorem settled_concat_self (x : Ident) (kind? : Option SymbolKind) :
    settled (os ++ [⟨x, kind?⟩]) x.name = (settled os x.name).or kind? := by
  rw [settled_append]
  simp [settled]

theorem settled_concat_of_ne {x : Ident} {kind? : Option SymbolKind} (hName : name ≠ x.name) :
    settled (os ++ [⟨x, kind?⟩]) name = settled os name := by
  simp [settled, hName.symm]

/-- A name is settled as a kind by a use as that kind. -/
theorem usedAs_of_settled {kind : SymbolKind} (h : settled os name = some kind) :
    UsedAs os name kind := by
  obtain ⟨o, hMem, hKind⟩ := List.exists_of_findSome?_eq_some h
  split at hKind
  case isTrue hName => exact ⟨o, hMem, hName, hKind⟩
  case isFalse => cases hKind

theorem exists_settled {kind : SymbolKind} (h : UsedAs os name kind) :
    ∃ kind', settled os name = some kind' := by
  obtain ⟨o, hMem, hName, hKind⟩ := h
  rw [← Option.isSome_iff_exists, settled, List.findSome?_isSome_iff]
  exact ⟨o, hMem, by rw [if_pos hName, hKind]; rfl⟩

/-- An occurrence that was there before settles nothing. -/
theorem settled_concat_of_mem {o : Occurrence} (hMem : o ∈ os) :
    settled (os ++ [o]) name = settled os name := by
  rw [settled_append]
  cases hSettled : settled os name with
  | some kind => rfl
  | none =>
      have hAll := List.findSome?_eq_none_iff.1 hSettled o hMem
      simp [settled, hAll]

theorem mem_names_of_settled {kind : SymbolKind} (h : settled os name = some kind) :
    name ∈ names os := by
  obtain ⟨o, hMem, hName, -⟩ := usedAs_of_settled h
  exact List.mem_map.2 ⟨o, hMem, hName⟩

/-- A conflict says what its name is settled as and what it was wanted for. -/
theorem conflict?_eq_some_iff {o : Occurrence} {c : KindConflict} :
    conflict? os o = some c ↔ ∃ requested existing, o.kind? = some requested ∧
      settled os o.ident.name = some existing ∧ existing ≠ requested ∧
      c = ⟨o.ident.name, existing, requested⟩ := by
  simp only [conflict?, Option.bind_eq_bind, Option.bind_eq_some_iff, Option.ite_none_left_eq_some,
    Option.some.injEq, exists_and_left, eq_comm (b := c), ne_eq]

/-- A use that is in no conflict is one as the settled kind. -/
theorem settled_of_conflict?_eq_none {o : Occurrence} (hMem : o ∈ os) {kind : SymbolKind}
    (hKind : o.kind? = some kind) (h : conflict? os o = none) :
    settled os o.ident.name = some kind := by
  obtain ⟨existing, hSettled⟩ := exists_settled ⟨o, hMem, rfl, hKind⟩
  rw [hSettled]
  by_contra hNe
  rw [Option.some.injEq] at hNe
  rw [conflict?_eq_some_iff.2 ⟨kind, existing, hKind, hSettled, hNe, rfl⟩] at h
  cases h

/-- What comes later does not change the conflict of an occurrence, since the occurrence itself
settles its name if nothing before it did. -/
theorem conflict?_append {o : Occurrence} (hMem : o ∈ os) (others : List Occurrence) :
    conflict? (os ++ others) o = conflict? os o := by
  cases hKind : o.kind? with
  | none => simp [conflict?, hKind]
  | some kind =>
      obtain ⟨kind', hSettled⟩ := exists_settled ⟨o, hMem, rfl, hKind⟩
      simp [conflict?, hKind, settled_append, hSettled]

/-- There is a conflict when some name is used as two kinds. -/
theorem exists_conflict_iff :
    (∃ o ∈ os, conflict? os o ≠ none) ↔
      ∃ name kind kind', kind ≠ kind' ∧ UsedAs os name kind ∧ UsedAs os name kind' := by
  constructor
  · rintro ⟨o, hMem, hConflict⟩
    obtain ⟨c, hSome⟩ := Option.ne_none_iff_exists'.1 hConflict
    obtain ⟨requested, existing, hKind, hSettled, hNe, -⟩ := conflict?_eq_some_iff.1 hSome
    exact ⟨o.ident.name, existing, requested, hNe, usedAs_of_settled hSettled,
      o, hMem, rfl, hKind⟩
  · rintro ⟨name, kind, kind', hNe, hKind, hKind'⟩
    obtain ⟨existing, hSettled⟩ := exists_settled hKind
    -- at most one of the two kinds is the one that the name is settled as
    have hOther : ∃ other, existing ≠ other ∧ UsedAs os name other := by
      by_cases hExisting : existing = kind
      · exact ⟨kind', hExisting ▸ hNe, hKind'⟩
      · exact ⟨kind, hExisting, hKind⟩
    obtain ⟨other, hDifferent, o, hMem, rfl, hRequested⟩ := hOther
    refine ⟨o, hMem, ?_⟩
    rw [conflict?_eq_some_iff.2 ⟨other, existing, hRequested, hSettled, hDifferent, rfl⟩]
    exact Option.some_ne_none _

end Occurrence

def Construct.occurrences : Construct → List Occurrence
  | .rule header alternatives =>
      ⟨header, some .nonterminal⟩ ::
        (alternatives.toList.flatMap OneOrMore.toList).map fun x => ⟨x, none⟩
  | .terminals names => names.toList.map fun x => ⟨x, some .terminal⟩
  | .start symbol => [⟨symbol, some .nonterminal⟩]

end GrammarCheck
