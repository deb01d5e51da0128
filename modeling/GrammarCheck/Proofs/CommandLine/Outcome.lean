import GrammarCheck.CommandLine.Run
import GrammarCheck.Proofs.Grammar.Severity
import GrammarCheck.Proofs.Grammar.Verified

/-! How a run of the program ends. The file decides whether there are defects, and they are all that
is printed then. A grammar without defects can be sampled from, so the only thing that can still go
wrong is a name asked for that is none of its nonterminals, and that shows before any sentence. -/

namespace GrammarCheck

/-- A fault of something that was read, so there was something to read. -/
def Fault.IsOfText (fault : Fault) : Prop := ∀ failure, fault ≠ .unreadable failure

theorem Fault.isOfText_of_not_isFatal {fault : Fault} (h : fault.isFatal = false) :
    fault.IsOfText := by
  intro failure hFault
  rw [hFault] at h
  cases h

namespace Grammar

/-- A text that is refused is refused for its defects. -/
theorem defects_of_ofText {file : FileName} {text : List Char} {defects : List Defect}
    (h : ofText file text = .error defects) : defects ≠ [] ∧ ∀ d ∈ defects, d.cause.IsOfText := by
  obtain ⟨hSome, hCauses⟩ := malformed_or_conflict_of_ofText h
  refine ⟨hSome, fun d hMem failure hCause => ?_⟩
  rcases hCauses d hMem with hMalformed | ⟨c, hConflict⟩
  · rw [hCause] at hMalformed
    exact hMalformed
  · cases hConflict.symm.trans hCause

/-- The examination of a grammar is about what was read. -/
theorem isOfText_of_mem_report {g : Grammar} {d : Defect} (h : d ∈ g.report.defects) :
    d.cause.IsOfText :=
  Fault.isOfText_of_not_isFatal (not_isFatal_of_mem_report h)

end Grammar

namespace CommandLine

variable {σ : Type}

/-- All defects of a file: those in reading it, or else those of the grammar in it. -/
def defects (file : FileName) (content : Except ReadFailure (List UInt8)) : List Defect :=
  match Grammar.ofContent file content with
  | .error defects => defects
  | .ok g => g.report.defects

def verdict (options : Options) : List String :=
  if options.quiet then [] else [s!"{options.file.text}: ok"]

def derive (sampler : Sampler) (chooser : Chooser σ) (start : Option String) (state : σ) :
    Except SamplingError (Derivation × σ) :=
  match start with
  | some name => sampler.sampleFrom chooser name state
  | none => sampler.sample chooser state

section

variable {sampler : Sampler} {chooser : Chooser σ} {start : Option String} {state : σ}

/-- The sentences are derived one after the other, and the first error is the last thing that
happens. -/
theorem sentences_succ (sampler : Sampler) (chooser : Chooser σ) (start : Option String)
    (count : Nat) (state : σ) :
    sentences sampler chooser start (count + 1) state =
      match derive sampler chooser start state with
      | .error e => ([], some e)
      | .ok (tree, after) =>
          (tree.sentence sampler.grammar.symbols :: (sentences sampler chooser start count after).1,
            (sentences sampler chooser start count after).2) := by
  cases start <;> rfl

/-- When a derivation cannot fail, there are as many sentences as asked for, and each is printed as
its words with single spaces between them. The induction is on their number. -/
theorem exists_sentences {p : List String → Prop}
    (h : ∀ state, ∃ tree after words, derive sampler chooser start state = .ok (tree, after) ∧
      tree.Yields sampler.grammar.symbols words ∧ p words)
    (count : Nat) (state : σ) :
    ∃ lists : List (List String), lists.length = count ∧ (∀ words ∈ lists, p words) ∧
      sentences sampler chooser start count state = (lists.map (" ".intercalate ·), none) := by
  induction count generalizing state with
  | zero => exact ⟨[], rfl, by simp, rfl⟩
  | succ count ih =>
      obtain ⟨tree, after, words, hDerive, hYields, hWords⟩ := h state
      obtain ⟨lists, hLength, hLists, hOthers⟩ := ih after
      refine ⟨words :: lists, congrArg Nat.succ hLength,
        List.forall_mem_cons.2 ⟨hWords, hLists⟩, ?_⟩
      rw [sentences_succ, hDerive]
      simp only [hOthers, hYields.sentence_eq, List.map_cons]

end

/-- Defects of what was read make bad data. A file that could not be read would end otherwise. -/
theorem ofDefects_of_isOfText {defects : List Defect} (h : ∀ d ∈ defects, d.cause.IsOfText) :
    Outcome.ofDefects defects = ⟨[], defects.map Defect.render, .badData⟩ := by
  simp only [Outcome.ofDefects]
  rw [if_neg]
  rw [Bool.not_eq_true, List.any_eq_false]
  intro d hMem
  split
  case h_1 failure hCause => exact (h d hMem failure hCause).elim
  case h_2 => exact Bool.false_ne_true

/-- How a run can end. -/
inductive Ends (options : Options) : Except ReadFailure (List UInt8) → Outcome → Prop where
  | unreadable (failure : ReadFailure) :
      Ends options (.error failure)
        ⟨[], [Defect.render ⟨.wholeFile options.file, .unreadable failure⟩], .badFile⟩
  | defective {bytes : List UInt8} (hDefects : defects options.file (.ok bytes) ≠ []) :
      Ends options (.ok bytes)
        ⟨[], (defects options.file (.ok bytes)).map Defect.render, .badData⟩
  | refused {bytes : List UInt8} {g : Grammar} {name : String} {e : SamplingError}
      (hNone : defects options.file (.ok bytes) = [])
      (hRead : Grammar.ofContent options.file (.ok bytes) = .ok g) (hVerified : g.Verified)
      (hSamples : 1 ≤ options.samples) (hStart : options.start = some name)
      (hName : ¬ g.HasNonterminal name)
      (hCause : e.cause = .unknownSymbol name ∨ e.cause = .notNonterminal name) :
      Ends options (.ok bytes)
        ⟨verdict options, [Diagnostic.render SamplingFault.message e], .usage⟩
  | sampled {bytes : List UInt8} {g : Grammar} {lists : List (List String)}
      (hNone : defects options.file (.ok bytes) = [])
      (hRead : Grammar.ofContent options.file (.ok bytes) = .ok g) (hVerified : g.Verified)
      (hStart : 1 ≤ options.samples → ∀ name, options.start = some name → g.HasNonterminal name)
      (hLength : lists.length = options.samples)
      (hSentences : ∀ words ∈ lists, g.IsSentence options.start words) :
      Ends options (.ok bytes)
        ⟨verdict options ++ lists.map (" ".intercalate ·), [], .success⟩

/-- Sampling a verified grammar gives all sentences asked for or, before any of them, one error. -/
theorem ends_sentences {options : Options} {bytes : List UInt8} {g : Grammar}
    (hNone : defects options.file (.ok bytes) = [])
    (hRead : Grammar.ofContent options.file (.ok bytes) = .ok g) (h : g.Verified)
    (chooser : Chooser σ) (state : σ) :
    let sampler := g.sampler options.maxDepth
    let derived := sentences sampler chooser options.start options.samples state
    Ends options (.ok bytes) (match derived.2 with
      | none => ⟨verdict options ++ derived.1, [], .success⟩
      | some e => ⟨verdict options ++ derived.1, [Diagnostic.render SamplingFault.message e],
          .usage⟩) := by
  intro sampler
  by_cases hAsked : ∀ name, options.start = some name → g.HasNonterminal name
  · have hDerive (state : σ) : ∃ tree after,
        derive sampler chooser options.start state = .ok (tree, after) ∧
          ∃ id, g.Asked id options.start ∧ g.symbols.Derives id tree := by
      cases hStart : options.start with
      | none => exact h.exists_sample options.maxDepth chooser state
      | some name => exact h.exists_sampleFrom options.maxDepth chooser (hAsked name hStart) state
    have hWords (state : σ) : ∃ tree after words,
        derive sampler chooser options.start state = .ok (tree, after) ∧
          tree.Yields g.symbols words ∧ g.IsSentence options.start words := by
      obtain ⟨tree, after, hOk, id, hStart, hTree⟩ := hDerive state
      obtain ⟨words, hYields⟩ := hTree.complete.exists_yields
      exact ⟨tree, after, words, hOk, hYields, id, tree, hStart, hTree, hYields⟩
    obtain ⟨lists, hLength, hSentences, hPrinted⟩ := exists_sentences hWords options.samples state
    simp only [hPrinted]
    exact .sampled hNone hRead h (fun _ => hAsked) hLength hSentences
  · simp only [not_forall] at hAsked
    obtain ⟨name, hStart, hName⟩ := hAsked
    cases hSamples : options.samples with
    | zero =>
        have hNothing : ([] : List (List String)).length = options.samples := hSamples.symm
        exact .sampled hNone hRead h (by omega) hNothing (by simp)
    | succ count =>
        obtain ⟨e, hError⟩ := h.exists_error options.maxDepth chooser hName state
        have hDerive : derive sampler chooser options.start state = .error e := by
          rw [hStart]
          exact hError
        simp only [sentences_succ, hDerive, List.append_nil]
        exact .refused hNone hRead h (by omega) hStart hName (h.cause_of_sampleFrom hError)

theorem ends_run (options : Options) (content : Except ReadFailure (List UInt8))
    (chooser : Chooser σ) (state : σ) :
    Ends options content (run options content chooser state) := by
  cases content with
  | error failure => exact .unreadable failure
  | ok bytes =>
      cases hRead : Grammar.ofContent options.file (.ok bytes) with
      | error found =>
          have hDefects : defects options.file (.ok bytes) = found := by rw [defects, hRead]
          obtain ⟨hSome, hText⟩ := Grammar.defects_of_ofText hRead
          simp only [run, hRead]
          rw [ofDefects_of_isOfText hText, ← hDefects]
          exact .defective (hDefects ▸ hSome)
      | ok g =>
          have hDefects : defects options.file (.ok bytes) = g.report.defects := by
            rw [defects, hRead]
          cases hCheck : g.check with
          | error found =>
              obtain ⟨hSome, rfl⟩ := Grammar.check_eq_error_iff.1 hCheck
              simp only [run, hRead, hCheck]
              rw [ofDefects_of_isOfText fun d => Grammar.isOfText_of_mem_report, ← hDefects]
              exact .defective (hDefects ▸ hSome)
          | ok ranking =>
              obtain ⟨hNone, rfl⟩ := Grammar.check_eq_ok_iff.1 hCheck
              simp only [run, hRead, hCheck]
              exact ends_sentences (hDefects.trans hNone) hRead
                (Grammar.verified_of_check hRead hCheck) chooser state

/-- The exit code, the output and the errors of a run, whatever the file holds, whatever is asked
for and however the choices fall. Each line behind the verdict has at least one word, and its words
are those at the leaves of a complete derivation. A grammar without defects can be sampled from
without a start symbol missing and without a nonterminal that derives nothing. -/
theorem run_exact (options : Options) (content : Except ReadFailure (List UInt8))
    (chooser : Chooser σ) (state : σ) :
    ((run options content chooser state).exit.code = 74 ↔ ∃ failure, content = .error failure) ∧
    ((run options content chooser state).exit.code = 65 ↔
      (∃ bytes, content = .ok bytes) ∧ defects options.file content ≠ []) ∧
    (defects options.file content ≠ [] →
      (run options content chooser state).output = [] ∧
        (run options content chooser state).errors =
          (defects options.file content).map Defect.render) ∧
    (defects options.file content = [] →
      ∃ g, Grammar.ofContent options.file content = .ok g ∧
        ((run options content chooser state).exit.code = 64 ↔
          1 ≤ options.samples ∧ ∃ name, options.start = some name ∧ ¬ g.HasNonterminal name) ∧
        ((run options content chooser state).exit.code = 64 →
          (run options content chooser state).output = verdict options ∧
            ∃ name e, options.start = some name ∧
              (e.cause = .unknownSymbol name ∨ e.cause = .notNonterminal name) ∧
              (run options content chooser state).errors =
                [Diagnostic.render SamplingFault.message e]) ∧
        ((run options content chooser state).exit.code ≠ 64 →
          (run options content chooser state).exit.code = 0 ∧
            (run options content chooser state).errors = [] ∧
            ∃ lists : List (List String), lists.length = options.samples ∧
              (run options content chooser state).output =
                verdict options ++ lists.map (" ".intercalate ·) ∧
              ∀ words ∈ lists, words ≠ [] ∧ ∃ id tree, g.Asked id options.start ∧
                g.symbols.Derives id tree ∧ tree.Yields g.symbols words) ∧
        ∀ (τ : Type) (maxDepth : Nat) (others : Chooser τ) (start : τ),
          (∀ e, (g.sampler maxDepth).sample others start ≠ .error e) ∧
          ∀ name e, (g.sampler maxDepth).sampleFrom others name start = .error e →
            e.cause = .unknownSymbol name ∨ e.cause = .notNonterminal name) := by
  have hEnds := ends_run options content chooser state
  generalize run options content chooser state = outcome at hEnds ⊢
  cases hEnds with
  | unreadable failure =>
      have hDefects : defects options.file (.error failure) =
        [⟨.wholeFile options.file, .unreadable failure⟩] := rfl
      simp [Exit.code, hDefects]
  | defective hDefects => simp [Exit.code, hDefects]
  | @refused bytes g name e hNone hRead hVerified hSamples hStart hName hCause =>
      refine ⟨by simp [Exit.code], by simp [Exit.code, hNone], fun h => absurd hNone h, fun _ => ?_⟩
      refine ⟨g, hRead, ?_, ?_, ?_, ?_⟩
      · simp only [Exit.code, true_iff]
        exact ⟨hSamples, name, hStart, hName⟩
      · exact fun _ => ⟨rfl, name, e, hStart, hCause, rfl⟩
      · exact fun hOther => absurd rfl hOther
      · exact fun τ maxDepth others start => ⟨hVerified.sample_ne_error maxDepth others start,
          fun name e => hVerified.cause_of_sampleFrom⟩
  | @sampled bytes g lists hNone hRead hVerified hStart hLength hSentences =>
      refine ⟨by simp [Exit.code], by simp [Exit.code, hNone], fun h => absurd hNone h, fun _ => ?_⟩
      refine ⟨g, hRead, ?_, ?_, ?_, ?_⟩
      · refine iff_of_false (by simp [Exit.code]) ?_
        rintro ⟨hSamples, name, hName, hNot⟩
        exact hNot (hStart hSamples name hName)
      · exact fun hRefused => absurd hRefused (by simp [Exit.code])
      · intro _
        exact ⟨rfl, rfl, lists, hLength, rfl, fun words hMem =>
          ⟨hVerified.ne_nil_of_isSentence (hSentences words hMem), hSentences words hMem⟩⟩
      · exact fun τ maxDepth others start => ⟨hVerified.sample_ne_error maxDepth others start,
          fun name e => hVerified.cause_of_sampleFrom⟩

end CommandLine

end GrammarCheck
