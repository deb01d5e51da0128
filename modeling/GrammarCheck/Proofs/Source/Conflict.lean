import GrammarCheck.Grammar.Reading
import GrammarCheck.Proofs.Grammar.Reachable
import GrammarCheck.Proofs.Source.Occurrence

/-! Which conflicts of kinds reading reports. The symbol table knows at any time which names have
occurred so far and what they are settled as, whether or not there were conflicts among them. -/

namespace GrammarCheck

namespace SymbolTable

def kind? (t : SymbolTable) (name : String) : Option SymbolKind := (t.find? name).map (·.2.kind)

/-- The table knows the names that have occurred, with the kinds they are settled as. -/
structure Tracks (t : SymbolTable) (os : List Occurrence) : Prop where
  indexed : t.Indexed
  committed : ∀ name, Occurrence.settled os name ≠ some .unresolved
  kind : ∀ name, t.kind? name =
    if name ∈ Occurrence.names os then some ((Occurrence.settled os name).getD .unresolved) else none

theorem tracks_empty : empty.Tracks [] := by
  refine ⟨indexed_empty, ?_, ?_⟩
  · intro name hSettled
    cases hSettled
  · intro name
    rfl

namespace Tracks

variable {t : SymbolTable} {os others : List Occurrence}

/-- Only the names matter and what they are settled as. -/
theorem congr (h : t.Tracks os)
    (hNames : ∀ name, name ∈ Occurrence.names others ↔ name ∈ Occurrence.names os)
    (hSettled : ∀ name, Occurrence.settled others name = Occurrence.settled os name) :
    t.Tracks others := by
  refine ⟨h.indexed, ?_, ?_⟩
  · intro name
    rw [hSettled]
    exact h.committed name
  · intro name
    rw [h.kind name, hSettled]
    simp only [hNames]

/-- A name that has occurred has a symbol of the kind it is settled as, or one that is still
open. -/
theorem exists_find?_of_mem (h : t.Tracks os) {name : String} (hMem : name ∈ Occurrence.names os) :
    ∃ id s, t.find? name = some (id, s) ∧
      s.kind = (Occurrence.settled os name).getD .unresolved := by
  have hKind := h.kind name
  rw [if_pos hMem, kind?, Option.map_eq_some_iff] at hKind
  obtain ⟨⟨id, s⟩, hFind, hSame⟩ := hKind
  exact ⟨id, s, hFind, hSame⟩

theorem get?_ne_none (h : t.Tracks os) {name : String} (hMem : name ∈ Occurrence.names os) :
    t.get? name ≠ none := by
  obtain ⟨id, s, hFind, -⟩ := h.exists_find?_of_mem hMem
  rw [Ne, h.indexed.get?_eq_none_iff, hFind]
  exact Option.some_ne_none _

theorem exists_find?_mention (h : t.Tracks os) (name : String) (line : Nat) :
    ∃ id s, (t.mention name line).2.find? name = some (id, s) ∧
      s.kind = (Occurrence.settled os name).getD .unresolved := by
  obtain ⟨id, s, hFind, -, hBefore⟩ := h.indexed.exists_find?_mention name line
  refine ⟨id, s, hFind, ?_⟩
  have hKind := h.kind name
  rcases hBefore with hKnown | ⟨hNew, -, rfl⟩
  · rw [kind?, hKnown] at hKind
    split at hKind
    case isTrue => exact Option.some.inj hKind
    case isFalse => cases hKind
  · rw [kind?, hNew] at hKind
    split at hKind
    case isTrue => cases hKind
    case isFalse hAbsent =>
      cases hSettled : Occurrence.settled os name with
      | none => rfl
      | some kind => exact absurd (Occurrence.mem_names_of_settled hSettled) hAbsent

/-- After an accepted edit the table tracks one more occurrence, if the edit leaves the symbol with
the kind that the name is settled as by then. -/
theorem modify (h : t.Tracks os) {e : SymbolEdit} {x : Ident} {kind? : Option SymbolKind}
    (hName : e.name = x.name) (hCommitted : kind? ≠ some .unresolved) {id : SymbolId} {s : Symbol}
    (hFind : (e.enter t).find? e.name = some (id, s))
    (hKind : (e.change t s).kind =
      (Occurrence.settled (os ++ [⟨x, kind?⟩]) x.name).getD .unresolved) :
    ((e.enter t).modify id (e.change t)).Tracks (os ++ [⟨x, kind?⟩]) := by
  have hOther {name : String} (hNe : name ≠ x.name) :
      Occurrence.settled (os ++ [⟨x, kind?⟩]) name = Occurrence.settled os name := by
    simp [Occurrence.settled, hNe.symm]
  refine ⟨(h.indexed.enter e).modify fun s => e.name_change t s, ?_, ?_⟩
  · intro name
    rw [Occurrence.settled_append, Ne, Option.or_eq_some_iff, not_or, not_and]
    refine ⟨h.committed name, fun _ hSettled => ?_⟩
    obtain ⟨o, hMem, -, hUnresolved⟩ := Occurrence.usedAs_of_settled hSettled
    cases List.mem_singleton.1 hMem
    exact hCommitted hUnresolved
  · intro name
    rw [SymbolTable.kind?, h.indexed.find?_edit hFind, hName]
    by_cases hSame : name = x.name
    · subst hSame
      simp [Occurrence.names, hKind]
    · rw [if_neg hSame, hOther hSame]
      have hKnown := h.kind name
      simp only [SymbolTable.kind?] at hKnown
      simp [hKnown, Occurrence.names, hSame]

/-- A use in an alternative is always accepted. -/
theorem mention (h : t.Tracks os) (x : Ident) :
    ∃ id t', t.edit (.mention x.name x.line) = .ok (id, t') ∧ t'.Tracks (os ++ [⟨x, none⟩]) := by
  obtain ⟨id, s, hFind, hKind⟩ := h.exists_find?_mention x.name x.line
  refine ⟨id, _, h.indexed.edit_eq_ok_iff.2 ⟨s, hFind, trivial, rfl⟩, ?_⟩
  apply h.modify (e := .mention x.name x.line) rfl (Ne.symm (Option.some_ne_none _)) hFind
  rw [SymbolEdit.change, hKind, Occurrence.settled_concat_self, Option.or_none]

/-- The symbol that an edit is about has the kind that was settled before the edit. -/
theorem exists_find?_enter (h : t.Tracks os) {e : SymbolEdit} {kind : SymbolKind}
    (hKind : e.kind? = some kind) :
    ∃ id s, (e.enter t).find? e.name = some (id, s) ∧
      s.kind = (Occurrence.settled os e.name).getD .unresolved := by
  cases e with
  | terminal name line => exact h.exists_find?_mention name line
  | nonterminal name line => exact h.exists_find?_mention name line
  | _ => cases hKind

/-- A use as another kind than the settled one says nothing new. -/
theorem concat_of_settled (h : t.Tracks os) {x : Ident} {existing : SymbolKind}
    (hSettled : Occurrence.settled os x.name = some existing) (kind? : Option SymbolKind) :
    t.Tracks (os ++ [⟨x, kind?⟩]) := by
  apply h.congr
  · intro name
    have hMem := Occurrence.mem_names_of_settled hSettled
    simp only [Occurrence.names, List.map_append, List.mem_append, List.map_cons, List.map_nil,
      List.mem_singleton, or_iff_left_iff_imp]
    rintro rfl
    exact hMem
  · intro name
    by_cases hName : name = x.name
    · rw [hName, Occurrence.settled_concat_self, hSettled, Option.some_or]
    · exact Occurrence.settled_concat_of_ne hName

/-- An occurrence that is no news can be forgotten again. -/
theorem of_concat {o : Occurrence} (h : t.Tracks (os ++ [o])) (hMem : o ∈ os) : t.Tracks os := by
  apply h.congr
  · intro name
    simp only [Occurrence.names, List.map_append, List.mem_append, List.map_cons, List.map_nil,
      List.mem_singleton]
    constructor
    · exact .inl
    · rintro (hOld | rfl)
      · exact hOld
      · exact List.mem_map_of_mem hMem
  · intro name
    exact (Occurrence.settled_concat_of_mem hMem).symm

/-- A use as a kind settles what is open and leaves the rest as it was. -/
theorem settled_concat (x : Ident) (kind : SymbolKind) :
    Occurrence.settled (os ++ [⟨x, some kind⟩]) x.name =
      some ((Occurrence.settled os x.name).getD kind) := by
  rw [Occurrence.settled_concat_self, Option.or_some]

/-- A use as the settled kind, or as the first kind of all, is accepted. -/
theorem settle_of_same (h : t.Tracks os) {e : SymbolEdit} {x : Ident} {kind : SymbolKind}
    (hName : e.name = x.name) (hKind : e.kind? = some kind)
    (hSame : (Occurrence.settled os x.name).getD kind = kind) :
    ∃ id t', t.edit e = .ok (id, t') ∧ t'.Tracks (os ++ [⟨x, some kind⟩]) := by
  obtain ⟨id, s, hFind, hSymbol⟩ := h.exists_find?_enter hKind
  rw [hName] at hSymbol
  have hAdmitted : s.kind = .unresolved ∨ s.kind = kind := by
    cases hSettled : Occurrence.settled os x.name with
    | none => exact .inl (by rw [hSymbol, hSettled]; rfl)
    | some existing =>
        rw [hSettled] at hSame hSymbol
        exact .inr (hSymbol.trans hSame)
  refine ⟨id, _, ?_, h.modify hName ?_ hFind ?_⟩
  · rw [h.indexed.edit_eq_of_kind? hKind hFind, if_pos hAdmitted]
  · rw [← hKind]
    exact e.kind?_ne_unresolved
  · rw [SymbolEdit.kind_change hKind, settled_concat, hSame]
    rfl

/-- A use as another kind than the settled one is refused. -/
theorem settle_of_other (h : t.Tracks os) {e : SymbolEdit} {x : Ident} {kind existing : SymbolKind}
    (hName : e.name = x.name) (hKind : e.kind? = some kind)
    (hSettled : Occurrence.settled os x.name = some existing) (hOther : existing ≠ kind) :
    t.edit e = .error (.conflict ⟨x.name, existing, kind⟩) := by
  obtain ⟨id, s, hFind, hSymbol⟩ := h.exists_find?_enter hKind
  rw [hName, hSettled] at hSymbol
  have hOpen : existing ≠ .unresolved := by
    rintro rfl
    exact h.committed x.name hSettled
  rw [h.indexed.edit_eq_of_kind? hKind hFind, hName, hSymbol]
  exact if_neg (not_or.2 ⟨hOpen, hOther⟩)

/-- A use as a kind is refused exactly when it is in conflict. -/
theorem settle (h : t.Tracks os) {e : SymbolEdit} {x : Ident} {kind : SymbolKind}
    (hName : e.name = x.name) (hKind : e.kind? = some kind) :
    (Occurrence.conflict? (os ++ [⟨x, some kind⟩]) ⟨x, some kind⟩ = none ∧
      ∃ id t', t.edit e = .ok (id, t') ∧ t'.Tracks (os ++ [⟨x, some kind⟩])) ∨
    ∃ c, Occurrence.conflict? (os ++ [⟨x, some kind⟩]) ⟨x, some kind⟩ = some c ∧
      t.edit e = .error (.conflict c) ∧ t.Tracks (os ++ [⟨x, some kind⟩]) := by
  have hSelf := @settled_concat os x kind
  by_cases hSame : (Occurrence.settled os x.name).getD kind = kind
  · left
    exact ⟨by simp [Occurrence.conflict?, hSelf, hSame], h.settle_of_same hName hKind hSame⟩
  · right
    cases hSettled : Occurrence.settled os x.name with
    | none =>
        rw [hSettled] at hSame
        exact absurd rfl hSame
    | some existing =>
        rw [hSettled, Option.getD_some] at hSame hSelf
        refine ⟨⟨x.name, existing, kind⟩, ?_, h.settle_of_other hName hKind hSettled hSame,
          h.concat_of_settled hSettled _⟩
        exact Occurrence.conflict?_eq_some_iff.2 ⟨kind, existing, rfl, hSelf, hSame, rfl⟩

/-- An edit of a known name that settles no kind is accepted when it is admitted. -/
theorem keep (h : t.Tracks os) {e : SymbolEdit} (hEnter : e.enter t = t)
    (hKeep : ∀ s, (e.change t s).kind = s.kind) (hMem : e.name ∈ Occurrence.names os)
    (hAdmits : ∀ s, s.kind = (Occurrence.settled os e.name).getD .unresolved → e.Admits t s) :
    ∃ id t', t.edit e = .ok (id, t') ∧ t'.Tracks os := by
  obtain ⟨id, s, hFind, hKind⟩ := h.exists_find?_of_mem hMem
  rw [← hEnter] at hFind
  refine ⟨id, _, h.indexed.edit_eq_ok_iff.2 ⟨s, hFind, hAdmits s hKind, rfl⟩,
    (h.indexed.enter e).modify fun s => e.name_change t s, h.committed, ?_⟩
  intro name
  rw [SymbolTable.kind?, h.indexed.find?_edit hFind]
  split
  case isTrue hSame =>
    rw [hSame, if_pos hMem, Option.map_some, hKeep, hKind]
  case isFalse => exact h.kind name

end Tracks

end SymbolTable

namespace Step

def occurrence? : Step → Option Occurrence
  | .mention x => some ⟨x, none⟩
  | .header x => some ⟨x, some .nonterminal⟩
  | .terminal x => some ⟨x, some .terminal⟩
  | .start x => some ⟨x, some .nonterminal⟩
  | _ => none

/-- The use as a kind that a step can be refused for. The end of a rule uses its header once
more. -/
def kindUse? : Step → Option Occurrence
  | .header x => some ⟨x, some .nonterminal⟩
  | .terminal x => some ⟨x, some .terminal⟩
  | .start x => some ⟨x, some .nonterminal⟩
  | .complete (.rule x _) => some ⟨x, some .nonterminal⟩
  | _ => none

/-- What has occurred before a step, in a text that is read without rejecting anything. -/
def Follows (os : List Occurrence) : Step → Prop
  | .complete (.rule x alternatives) => ⟨x, some .nonterminal⟩ ∈ os ∧
      ∀ alternative ∈ alternatives.toList, ∀ y ∈ alternative.toList, y.name ∈ Occurrence.names os
  | .reject _ _ => False
  | _ => True

/-- The conflict that a step reports among all occurrences of a text. -/
def conflictDefect? (file : FileName) (os : List Occurrence) (step : Step) : Option Defect := do
  let c ← step.kindUse?.bind (Occurrence.conflict? os)
  let line ← step.reportLine?
  return ⟨⟨file, line⟩, .conflict c⟩

def AllFollow (os : List Occurrence) : List Step → Prop
  | [] => True
  | step :: steps => step.Follows os ∧ AllFollow (os ++ step.occurrence?.toList) steps

/-- A step that follows on others is none that rejects. -/
theorem ne_reject_of_follows {os : List Occurrence} {step : Step} (h : step.Follows os)
    (expected : Expectation) (found : Option Lexeme) : step ≠ .reject expected found := by
  rintro rfl
  exact h

theorem mem_of_kindUse? {os : List Occurrence} {step : Step} (h : step.Follows os) {o : Occurrence}
    (hUse : step.kindUse? = some o) : o ∈ os ++ step.occurrence?.toList := by
  cases step with
  | complete construct =>
      cases construct with
      | rule x alternatives =>
          cases hUse
          exact List.mem_append_left _ h.1
      | _ => cases hUse
  | header x => exact List.mem_append_right _ (by simpa [occurrence?, kindUse?, eq_comm] using hUse)
  | terminal x =>
      exact List.mem_append_right _ (by simpa [occurrence?, kindUse?, eq_comm] using hUse)
  | start x => exact List.mem_append_right _ (by simpa [occurrence?, kindUse?, eq_comm] using hUse)
  | _ => cases hUse

/-- What comes later does not change what a step reports. -/
theorem conflictDefect?_append {os : List Occurrence} {step : Step} (h : step.Follows os)
    (file : FileName) (later : List Occurrence) :
    step.conflictDefect? file (os ++ step.occurrence?.toList ++ later) =
      step.conflictDefect? file (os ++ step.occurrence?.toList) := by
  cases hUse : step.kindUse? with
  | none => simp [conflictDefect?, hUse]
  | some o =>
      have hSame := Occurrence.conflict?_append (mem_of_kindUse? h hUse) later
      rw [conflictDefect?, conflictDefect?, hUse, Option.bind_some, Option.bind_some, hSame]

end Step

namespace Grammar

variable {g g' : Grammar} {os : List Occurrence}

/-- The alternatives of a rule are accepted when the header is a nonterminal and all names in them
have occurred. The induction is on the alternatives. -/
theorem exists_editAll_alternatives (h : g.symbols.Tracks os) {x : Ident}
    (hHeader : Occurrence.settled os x.name = some .nonterminal) (alternatives : List Alternative)
    (hKnown : ∀ alternative ∈ alternatives, ∀ y ∈ alternative.toList,
      y.name ∈ Occurrence.names os) :
    ∃ g', g.editAll (alternatives.map x.alternative ++ [x.define]) = .ok g' ∧
      g'.symbols.Tracks os ∧ g'.file = g.file := by
  have hMem := Occurrence.mem_names_of_settled hHeader
  have hNonterminal {s : Symbol}
      (hKind : s.kind = (Occurrence.settled os x.name).getD .unresolved) :
      s.kind = .nonterminal := by
    rw [hKind, hHeader]
    rfl
  induction alternatives generalizing g with
  | nil =>
      obtain ⟨id, symbols, hEdit, hTracks⟩ := h.keep (e := .define x.name x.line) rfl
        (fun _ => rfl) hMem fun s hKind => hNonterminal hKind
      refine ⟨{ g with symbols }, ?_, hTracks, rfl⟩
      exact editAll_cons_of_ok (edit_symbols_of_ok hEdit) []
  | cons alternative alternatives ih =>
      obtain ⟨hFirst, hOthers⟩ := List.forall_mem_cons.1 hKnown
      obtain ⟨id, symbols, hEdit, hTracks⟩ := h.keep
        (e := .rule x.name (alternative.toList.map (·.name)) alternative.first.line) rfl
        (fun _ => rfl) hMem (by
          intro s hKind
          refine ⟨hNonterminal hKind, fun name hName => ?_⟩
          obtain ⟨y, hY, rfl⟩ := List.mem_map.1 hName
          exact h.get?_ne_none (hFirst y hY))
      obtain ⟨g', hRest, hTracks', hFile⟩ := ih (g := { g with symbols }) hTracks hOthers
      refine ⟨g', ?_, hTracks', hFile⟩
      rw [List.map_cons, List.cons_append]
      exact (editAll_cons_of_ok (edit_symbols_of_ok hEdit) _).trans hRest

/-- A name that has occurred can be declared as the start symbol, which leaves the table alone. -/
theorem exists_edit_start (h : g.symbols.Tracks os) {x : Ident}
    (hMem : x.name ∈ Occurrence.names os) :
    ∃ id g', g.edit x.start = .ok (id, g') ∧ g'.symbols = g.symbols ∧ g'.file = g.file := by
  obtain ⟨id, s, hFind, -⟩ := h.exists_find?_of_mem hMem
  refine ⟨id, g.declareStart id x.line, ?_, g.symbols_declareStart id x.line,
    g.file_declareStart id x.line⟩
  exact (edit_start_eq_ok_iff h.indexed).2 ⟨s, h.indexed.find?_eq_some_iff.1 hFind, rfl⟩

/-- The first edit of a step that uses a name as a kind is refused exactly when it is in
conflict. -/
theorem edit_settle (h : g.symbols.Tracks os) {e : SymbolEdit} {x : Ident} {kind : SymbolKind}
    (hName : e.name = x.name) (hKind : e.kind? = some kind) :
    (Occurrence.conflict? (os ++ [⟨x, some kind⟩]) ⟨x, some kind⟩ = none ∧
      ∃ id now, g.edit (.symbols e) = .ok (id, now) ∧
        now.symbols.Tracks (os ++ [⟨x, some kind⟩]) ∧ now.file = g.file) ∨
    ∃ c, Occurrence.conflict? (os ++ [⟨x, some kind⟩]) ⟨x, some kind⟩ = some c ∧
      g.edit (.symbols e) = .error (.conflict c) ∧
        g.symbols.Tracks (os ++ [⟨x, some kind⟩]) := by
  rcases h.settle hName hKind with
    ⟨hNone, id, symbols, hEdit, hTracks⟩ | ⟨c, hSome, hEdit, hTracks⟩
  · exact .inl ⟨hNone, id, _, edit_symbols_of_ok hEdit, hTracks, rfl⟩
  · exact .inr ⟨c, hSome, edit_symbols_of_error hEdit, hTracks⟩

/-- The edits of a step are all accepted, or they are refused because of a conflict. In both cases
the table tracks the name that the step has met. -/
theorem editAll_edits (h : g.symbols.Tracks os) {step : Step} (hFollows : step.Follows os) :
    (step.kindUse?.bind (Occurrence.conflict? (os ++ step.occurrence?.toList)) = none ∧
      ∃ g', g.editAll step.edits = .ok g' ∧
        g'.symbols.Tracks (os ++ step.occurrence?.toList) ∧ g'.file = g.file) ∨
    ∃ c, step.kindUse?.bind (Occurrence.conflict? (os ++ step.occurrence?.toList)) = some c ∧
      g.editAll step.edits = .error (.conflict c) ∧
        g.symbols.Tracks (os ++ step.occurrence?.toList) := by
  have hStay : g.symbols.Tracks (os ++ []) := by rwa [List.append_nil]
  cases step with
  | shift l => exact .inl ⟨rfl, g, rfl, hStay, rfl⟩
  | reject expected found => exact absurd hFollows id
  | mention x =>
      obtain ⟨id, symbols, hEdit, hTracks⟩ := h.mention x
      exact .inl ⟨rfl, _, editAll_cons_of_ok (edit_symbols_of_ok hEdit) [], hTracks, rfl⟩
  | header x =>
      rcases edit_settle h (e := .nonterminal x.name x.line) rfl rfl with
        ⟨hNone, id, now, hEdit, hTracks, hFile⟩ | ⟨c, hSome, hEdit, hTracks⟩
      · exact .inl ⟨hNone, now, editAll_cons_of_ok hEdit [], hTracks, hFile⟩
      · exact .inr ⟨c, hSome, editAll_cons_of_error hEdit [], hTracks⟩
  | terminal x =>
      rcases edit_settle h (e := .terminal x.name x.line) rfl rfl with
        ⟨hNone, id, now, hEdit, hTracks, hFile⟩ | ⟨c, hSome, hEdit, hTracks⟩
      · exact .inl ⟨hNone, now, editAll_cons_of_ok hEdit [], hTracks, hFile⟩
      · exact .inr ⟨c, hSome, editAll_cons_of_error hEdit [], hTracks⟩
  | start x =>
      rcases edit_settle h (e := .nonterminal x.name x.line) rfl rfl with
        ⟨hNone, id, now, hEdit, hTracks, hFile⟩ | ⟨c, hSome, hEdit, hTracks⟩
      · obtain ⟨id', g', hStart, hSymbols, hSameFile⟩ :=
          exists_edit_start (x := x) hTracks (by simp [Occurrence.names])
        refine .inl ⟨hNone, g', ?_, hSymbols ▸ hTracks, hSameFile.trans hFile⟩
        exact (editAll_cons_of_ok hEdit _).trans (editAll_cons_of_ok hStart [])
      · exact .inr ⟨c, hSome, editAll_cons_of_error hEdit _, hTracks⟩
  | complete construct =>
      cases construct with
      | terminals names => exact .inl ⟨rfl, g, rfl, hStay, rfl⟩
      | start symbol => exact .inl ⟨rfl, g, rfl, hStay, rfl⟩
      | rule x alternatives =>
          obtain ⟨hHeader, hKnown⟩ := hFollows
          simp only [Step.kindUse?, Step.occurrence?, Option.bind_some, Option.toList_none,
            List.append_nil]
          -- the header has occurred before, so using it once more adds nothing
          rcases edit_settle h (e := .nonterminal x.name x.line) (x := x) rfl rfl with
            ⟨hNone, id, now, hEdit, hTracks, hFile⟩ | ⟨c, hSome, hEdit, -⟩
          · rw [Occurrence.conflict?_append hHeader] at hNone
            have hBefore := hTracks.of_concat hHeader
            have hSettled := Occurrence.settled_of_conflict?_eq_none hHeader rfl hNone
            obtain ⟨g', hRest, hTracks', hSameFile⟩ :=
              exists_editAll_alternatives hBefore hSettled alternatives.toList hKnown
            refine .inl ⟨hNone, g', ?_, hTracks', hSameFile.trans hFile⟩
            exact (editAll_cons_of_ok hEdit _).trans hRest
          · rw [Occurrence.conflict?_append hHeader] at hSome
            exact .inr ⟨c, hSome, editAll_cons_of_error hEdit _, h⟩

/-- A step reports its conflict, and nothing else. -/
theorem take_of_follows (h : g.symbols.Tracks os) {step : Step} (hFollows : step.Follows os)
    (endLine : Nat) :
    (g.take endLine step).1.symbols.Tracks (os ++ step.occurrence?.toList) ∧
      (g.take endLine step).1.file = g.file ∧
      (g.take endLine step).2 =
        (step.conflictDefect? g.file (os ++ step.occurrence?.toList)).toList ∧
      ((∀ o ∈ os ++ step.occurrence?.toList,
          Occurrence.conflict? (os ++ step.occurrence?.toList) o = none) →
        g.editAll step.edits = .ok (g.take endLine step).1) := by
  rcases editAll_edits h hFollows with
    ⟨hNone, g', hEdits, hTracks, hFile⟩ | ⟨c, hSome, hEdits, hTracks⟩
  · rw [take_of_ok (Step.ne_reject_of_follows hFollows) hEdits]
    refine ⟨hTracks, hFile, ?_, fun _ => hEdits⟩
    rw [Step.conflictDefect?, hNone]
    rfl
  · rw [take_of_error hEdits]
    refine ⟨hTracks, rfl, ?_, fun hFree => ?_⟩
    · rw [Step.conflictDefect?, hSome]
      rfl
    · obtain ⟨o, hUse, hConflict⟩ := Option.bind_eq_some_iff.1 hSome
      rw [hFree o (Step.mem_of_kindUse? hFollows hUse)] at hConflict
      cases hConflict

theorem editAll_append_of_ok {es : List GrammarEdit} (h : g.editAll es = .ok g')
    (others : List GrammarEdit) : g.editAll (es ++ others) = g'.editAll others := by
  induction es generalizing g with
  | nil =>
      cases h
      rfl
  | cons e es ih =>
      rw [List.cons_append]
      cases hEdit : g.edit e with
      | error refusal =>
          rw [editAll_cons_of_error hEdit] at h
          cases h
      | ok outcome =>
          obtain ⟨id, now⟩ := outcome
          rw [editAll_cons_of_ok hEdit] at h ⊢
          exact ih h

/-- A text that is read without rejecting anything has the conflicts among its occurrences for
defects, in order, and without conflicts all its edits are accepted. The induction is on the steps;
`os` are the occurrences so far. -/
theorem takeAll_of_allFollow (h : g.symbols.Tracks os) {steps : List Step}
    (hFollow : Step.AllFollow os steps) (endLine : Nat) :
    (g.takeAll endLine steps).2 =
        steps.filterMap (Step.conflictDefect? g.file (os ++ steps.filterMap Step.occurrence?)) ∧
      ((∀ o ∈ os ++ steps.filterMap Step.occurrence?,
          Occurrence.conflict? (os ++ steps.filterMap Step.occurrence?) o = none) →
        g.editAll (steps.flatMap Step.edits) = .ok (g.takeAll endLine steps).1) := by
  induction steps generalizing g os with
  | nil => exact ⟨rfl, fun _ => rfl⟩
  | cons step steps ih =>
      obtain ⟨hFollows, hRest⟩ := hFollow
      obtain ⟨hTracks, hFile, hDefects, hEdits⟩ := take_of_follows h hFollows endLine
      obtain ⟨hLater, hAll⟩ := ih hTracks hRest
      have hOccurrences : os ++ (step :: steps).filterMap Step.occurrence? =
          os ++ step.occurrence?.toList ++ steps.filterMap Step.occurrence? := by
        rw [List.append_assoc]
        cases hMeets : step.occurrence? <;> simp [hMeets]
      rw [hOccurrences]
      refine ⟨?_, fun hFree => ?_⟩
      · rw [takeAll, hLater, hDefects, hFile,
          ← Step.conflictDefect?_append hFollows g.file (steps.filterMap Step.occurrence?)]
        generalize os ++ step.occurrence?.toList ++ steps.filterMap Step.occurrence? = whole
        rw [List.filterMap_cons]
        cases step.conflictDefect? g.file whole <;> rfl
      · have hBefore : ∀ o ∈ os ++ step.occurrence?.toList,
            Occurrence.conflict? (os ++ step.occurrence?.toList) o = none := by
          intro o hMem
          rw [← Occurrence.conflict?_append hMem (steps.filterMap Step.occurrence?)]
          exact hFree o (List.mem_append_left _ hMem)
        rw [List.flatMap_cons, editAll_append_of_ok (hEdits hBefore), hAll hFree]
        rfl

end Grammar

end GrammarCheck
