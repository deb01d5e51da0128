import GrammarCheck.Proofs.Symbol.InPlace

/-! Refused calls. Along every sequence of calls the first accepted one that settles a name decides
what the name is, and the calls that are refused for it might as well not have been made. -/

namespace GrammarCheck

namespace SymbolTable

/-- The calls that were made, each with its outcome. -/
abbrev Ledger := List (TableCall × TableOutcome)

/-- Calls made one after the other from the empty table on, and the table that they lead to. -/
inductive Performs : Ledger → SymbolTable → Prop where
  | nil : Performs [] .empty
  | call {ledger : Ledger} {t later : SymbolTable} {c : TableCall} {outcome : TableOutcome}
      (before : Performs ledger t) (hPermits : t.Permits c)
      (hPerform : t.perform c = some (outcome, later)) : Performs (ledger ++ [(c, outcome)]) later

/-- A call that settled a name as a kind was accepted. -/
def Ledger.Settles (ledger : Ledger) (name : String) (kind : SymbolKind) : Prop :=
  ∃ c id, (c, .ok id) ∈ ledger ∧ c.demand? = some (name, kind)

variable {ledger before after : Ledger} {t later : SymbolTable} {c : TableCall}
  {outcome : TableOutcome} {name : String} {kind : SymbolKind}

namespace Ledger

/-- An accepted call settles what it demands, besides all that was settled before it. -/
theorem settles_concat_ok {id : Option SymbolId} :
    Settles (ledger ++ [(c, .ok id)]) name kind ↔
      ledger.Settles name kind ∨ c.demand? = some (name, kind) := by
  constructor
  · rintro ⟨c', id', hMem, hDemand⟩
    rcases List.mem_append.1 hMem with hOld | hNew
    · exact .inl ⟨c', id', hOld, hDemand⟩
    · cases List.mem_singleton.1 hNew
      exact .inr hDemand
  · rintro (⟨c', id', hMem, hDemand⟩ | hDemand)
    · exact ⟨c', id', List.mem_append_left _ hMem, hDemand⟩
    · exact ⟨c, id, List.mem_append_right _ (List.mem_singleton_self _), hDemand⟩

theorem settles_concat_error {conflict : KindConflict} :
    Settles (ledger ++ [(c, .error conflict)]) name kind ↔ ledger.Settles name kind := by
  constructor
  · rintro ⟨c', id', hMem, hDemand⟩
    rcases List.mem_append.1 hMem with hOld | hNew
    · exact ⟨c', id', hOld, hDemand⟩
    · cases List.mem_singleton.1 hNew
  · rintro ⟨c', id', hMem, hDemand⟩
    exact ⟨c', id', List.mem_append_left _ hMem, hDemand⟩

end Ledger

/-- A call is refused when its name is settled as another kind than it demands, and the conflict
says so. -/
theorem Effect.eq_error_iff (h : t.Effect c outcome later) (conflict : KindConflict) :
    outcome = .error conflict ↔ c.demand? = some (conflict.name, conflict.requested) ∧
      conflict.existing ≠ conflict.requested ∧
        t.settled? conflict.name = some conflict.existing := by
  cases h with
  | keep hDemand => simp [hDemand]
  | settle hDemand hSame =>
      constructor
      · intro hError
        cases hError
      · rintro ⟨hOther, hDifferent, hExisting⟩
        cases hDemand.symm.trans hOther
        exact absurd (hSame _ hExisting) hDifferent
  | @refuse found hDemand hExisting hDifferent =>
      constructor
      · rintro ⟨⟩
        exact ⟨hDemand, hDifferent, hExisting⟩
      · rintro ⟨hOther, -, hSettled⟩
        obtain ⟨name, existing, requested⟩ := conflict
        cases hDemand.symm.trans hOther
        cases hExisting.symm.trans hSettled
        rfl

/-- A demand that is met adds its kind to what is settled. -/
theorem Effect.settled?_eq_some_iff {id : Option SymbolId} (h : t.Effect c (.ok id) later) :
    later.settled? name = some kind ↔
      t.settled? name = some kind ∨ c.demand? = some (name, kind) := by
  cases h with
  | keep hDemand hSettled => simp [hDemand, hSettled]
  | @settle id later demanded wanted hDemand hSame hSettled =>
      rw [hSettled, hDemand]
      by_cases hName : name = demanded
      · subst hName
        rw [if_pos rfl]
        constructor
        · rintro ⟨⟩
          exact .inr rfl
        · rintro (hBefore | hNow)
          · rw [hSame kind hBefore]
          · cases hNow
            rfl
      · rw [if_neg hName]
        constructor
        · exact .inl
        · rintro (hBefore | hNow)
          · exact hBefore
          · cases hNow
            exact absurd rfl hName

namespace Performs

/-- The index is right however many calls were refused. -/
theorem indexed (h : Performs ledger t) : t.Indexed := by
  induction h with
  | nil => exact indexed_empty
  | call before hPermits hPerform ih => exact (ih.effect hPermits hPerform).1

/-- A name is settled as the kind that an accepted call has settled it as. -/
theorem settled?_eq_some_iff (h : Performs ledger t) :
    t.settled? name = some kind ↔ ledger.Settles name kind := by
  induction h with
  | nil => simp [settled?, find?, get?, Dictionary.get?, empty, Dictionary.empty, Ledger.Settles]
  | @call ledger t later c outcome before hPermits hPerform ih =>
      have hEffect := (before.indexed.effect hPermits hPerform).2
      cases outcome with
      | ok id => rw [hEffect.settled?_eq_some_iff, Ledger.settles_concat_ok, ih]
      | error conflict =>
          cases hEffect
          rw [Ledger.settles_concat_error, ih]

/-- The last call was made on the table that the others led to. -/
theorem exists_of_concat (h : Performs (ledger ++ [(c, outcome)]) later) :
    ∃ t, Performs ledger t ∧ t.Permits c ∧ t.perform c = some (outcome, later) := by
  generalize hWhole : ledger ++ [(c, outcome)] = whole at h
  cases h with
  | nil => simp at hWhole
  | call before hPermits hPerform =>
      obtain ⟨rfl, hEntry⟩ := List.append_inj' hWhole rfl
      cases hEntry
      exact ⟨_, before, hPermits, hPerform⟩

/-- A call in the middle was made on a table that the calls before it lead to. The induction is on
the later calls. -/
theorem exists_of_append (h : Performs (before ++ (c, outcome) :: after) later) :
    ∃ t later, Performs before t ∧ t.Permits c ∧ t.perform c = some (outcome, later) := by
  induction after using List.reverseRecOn generalizing later with
  | nil =>
      obtain ⟨t, hCall⟩ := h.exists_of_concat
      exact ⟨t, later, hCall⟩
  | append_singleton after last ih =>
      rw [← List.cons_append, ← List.append_assoc] at h
      obtain ⟨t, hBefore, -⟩ := h.exists_of_concat
      exact ih hBefore

/-- Without the refused calls the others come to the same, and so does the table. -/
theorem filter_isOk (h : Performs ledger t) : Performs (ledger.filter (·.2.isOk)) t := by
  induction h with
  | nil => exact .nil
  | @call ledger t later c outcome before hPermits hPerform ih =>
      have hEffect := (before.indexed.effect hPermits hPerform).2
      rw [List.filter_append]
      cases outcome with
      | ok id => exact ih.call hPermits hPerform
      | error conflict =>
          cases hEffect
          rwa [List.filter_cons_of_neg (by simp [Except.isOk, Except.toBool]), List.filter_nil,
            List.append_nil]

end Performs

/-- Along every sequence of calls each permitted call has an outcome. One is refused when an earlier
one was accepted that settled the same name as the other kind, and the conflict names both kinds.
Without the refused calls all others have the same outcomes and lead to the same table. -/
theorem performs_accepted (h : Performs ledger t) :
    (∀ c, t.Permits c → ∃ outcome later, t.perform c = some (outcome, later)) ∧
      (∀ (before : Ledger) c outcome after, ledger = before ++ (c, outcome) :: after → ∀ conflict,
        outcome = .error conflict ↔ c.demand? = some (conflict.name, conflict.requested) ∧
          conflict.existing ≠ conflict.requested ∧
            before.Settles conflict.name conflict.existing) ∧
      Performs (ledger.filter (·.2.isOk)) t := by
  refine ⟨fun c hPermits => ?_, fun before c outcome after hLedger conflict => ?_, h.filter_isOk⟩
  · obtain ⟨outcome, later, hPerform, -⟩ := h.indexed.exists_effect hPermits
    exact ⟨outcome, later, hPerform⟩
  · obtain ⟨earlier, later, hBefore, hPermits, hPerform⟩ := (hLedger ▸ h).exists_of_append
    have hEffect := (hBefore.indexed.effect hPermits hPerform).2
    rw [hEffect.eq_error_iff, hBefore.settled?_eq_some_iff]

/-- Calls of which two are refused, one of them for a name whose kind was open at first. -/
def wordLedger : Ledger :=
  [(.mention "word" 1, .ok (some ⟨0⟩)), (.nonterminal "s" 1, .ok (some ⟨1⟩)),
    (.terminal "word" 2, .ok (some ⟨0⟩)),
    (.nonterminal "word" 3, .error ⟨"word", .terminal, .nonterminal⟩),
    (.attach ⟨1⟩ ⟨[⟨0⟩], 1⟩, .ok none), (.define ⟨1⟩ 1, .ok none),
    (.terminal "s" 4, .error ⟨"s", .nonterminal, .terminal⟩)]

/-- Without the two refused calls the ledger leads to the same table. -/
theorem performs_accepted_word :
    ∃ t, Performs wordLedger t ∧
      (∀ c, t.Permits c → ∃ outcome later, t.perform c = some (outcome, later)) ∧
      (∀ (before : Ledger) c outcome after, wordLedger = before ++ (c, outcome) :: after →
        ∀ conflict, outcome = .error conflict ↔
          c.demand? = some (conflict.name, conflict.requested) ∧
            conflict.existing ≠ conflict.requested ∧
              before.Settles conflict.name conflict.existing) ∧
      Performs (wordLedger.filter (·.2.isOk)) t := by
  have hMention : Performs (wordLedger.take 1) _ :=
    Performs.nil.call (c := .mention "word" 1) trivial rfl
  have hHeader : Performs (wordLedger.take 2) _ :=
    hMention.call (c := .nonterminal "s" 1) trivial rfl
  have hToken : Performs (wordLedger.take 3) _ :=
    hHeader.call (c := .terminal "word" 2) trivial rfl
  have hRefused : Performs (wordLedger.take 4) _ :=
    hToken.call (c := .nonterminal "word" 3) trivial rfl
  have hAttach : Performs (wordLedger.take 5) _ :=
    hRefused.call (c := .attach ⟨1⟩ ⟨[⟨0⟩], 1⟩) ⟨_, rfl, rfl⟩ rfl
  have hDefine : Performs (wordLedger.take 6) _ :=
    hAttach.call (c := .define ⟨1⟩ 1) ⟨_, rfl, rfl⟩ rfl
  have hEnd : Performs wordLedger _ := hDefine.call (c := .terminal "s" 4) trivial rfl
  exact ⟨_, hEnd, performs_accepted hEnd⟩

end SymbolTable

end GrammarCheck
