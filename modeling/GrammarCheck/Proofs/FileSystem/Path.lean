import GrammarCheck.FileSystem
import GrammarCheck.Proofs.CommandLine.Outcome
import Mathlib.Tactic.SplitIfs

/-! Where paths lead. A path is followed part after part, and each part starts from a directory.
What names are compared by, their steps, is all that matters to where they lead: two names that are
equal and can both be read stand for one file. -/

namespace GrammarCheck

namespace FileName

/-- The parts that say nothing: empty ones and single dots. -/
def isIdle (part : List Char) : Bool := part.isEmpty || part == ['.']

theorem isIdle_iff {part : List Char} : isIdle part = true ↔ part = [] ∨ part = ['.'] := by
  simp [isIdle]

theorem filter_not_isIdle (parts : List (List Char)) :
    parts.filter (fun part => !part.isEmpty && part != ['.']) =
      parts.filter fun part => !isIdle part := by
  simp [isIdle, bne]

theorem segments_ne_nil (cs : List Char) : segments cs ≠ [] := by
  fun_cases segments cs <;> simp

/-- The parts of a path are what stands between its slashes. -/
theorem slash_not_mem_of_mem_segments {cs part : List Char} (h : part ∈ segments cs) :
    '/' ∉ part := by
  fun_induction segments cs generalizing part with
  | case1 => simp_all
  | case2 cs ih =>
      cases h with
      | head => simp
      | tail _ h => exact ih h
  | case3 c cs hSlash hNone => exact absurd hNone (segments_ne_nil cs)
  | case4 c cs hSlash first parts hParts ih =>
      rw [hParts] at ih
      cases h with
      | head => simpa [Ne.symm hSlash] using ih List.mem_cons_self
      | tail _ h => exact ih (List.mem_cons_of_mem first h)

/-- Only the empty path is a single empty part. -/
theorem eq_nil_of_segments {cs : List Char} (h : segments cs = [[]]) : cs = [] := by
  fun_cases segments cs with
  | case1 => rfl
  | case2 cs => simp_all [segments, segments_ne_nil]
  | case3 c cs hSlash hNone => exact absurd hNone (segments_ne_nil cs)
  | case4 c cs hSlash first parts hParts => simp_all [segments]

end FileName

namespace FileSystem

open FileName (segments isIdle isIdle_iff)

/-- What one part of a path does in a directory: nothing, or a way up to the directory above, or a
way down to what has this name. -/
inductive Goes (system : FileSystem) (place : Place) : List Char → Place → Prop where
  | stay {part : List Char} (hIdle : isIdle part = true) : Goes system place part place
  | up : Goes system place ['.', '.'] place.dropLast
  | down {part : List Char} (hName : isIdle part = false ∧ part ≠ ['.', '.'])
      (hLimit : (String.ofList part).utf8ByteSize ≤ nameLimit)
      (hFound : system.contains (place ++ [part]) = true) : Goes system place part (place ++ [part])

/-- Where some parts of a path lead from a place. -/
inductive Leads (system : FileSystem) : Place → List (List Char) → Place → Prop where
  | here (place : Place) : Leads system place [] place
  | part {place next last : Place} {part : List Char} {parts : List (List Char)}
      (hDirectory : system.isDirectory place = true) (first : Goes system place part next)
      (later : Leads system next parts last) : Leads system place (part :: parts) last

variable {system : FileSystem} {place next last : Place} {part : List Char}
  {parts : List (List Char)}

/-- One part of a path is followed exactly from a directory, and as the part says. -/
theorem step_eq_ok_iff :
    system.step place part = .ok next ↔
      system.isDirectory place = true ∧ system.Goes place part next := by
  constructor
  · intro h
    unfold step at h
    split_ifs at h with hFile hIdle hUp hLong hFound <;> cases h
    · exact ⟨by simpa using hFile, .stay (isIdle_iff.2 hIdle)⟩
    · exact ⟨by simpa using hFile, hUp ▸ .up⟩
    · refine ⟨by simpa using hFile, .down ⟨?_, hUp⟩ (Nat.le_of_not_lt hLong) hFound⟩
      exact Bool.eq_false_iff.2 fun hTrue => hIdle (isIdle_iff.1 hTrue)
  · rintro ⟨hDirectory, hGoes⟩
    cases hGoes with
    | stay hIdle => simp [step, hDirectory, isIdle_iff.1 hIdle]
    | up => simp [step, hDirectory]
    | down hName hLimit hFound =>
        have hSome : ¬ (part = [] ∨ part = ['.']) := fun hIdle => by
          rw [isIdle_iff.2 hIdle] at hName
          cases hName.1
        simp [step, hDirectory, hSome, hName.2, Nat.not_lt.2 hLimit, hFound]

/-- A whole path is followed by following its parts. The induction is on the parts. -/
theorem foldlM_step_eq_ok_iff :
    parts.foldlM system.step place = .ok last ↔ system.Leads place parts last := by
  induction parts generalizing place with
  | nil =>
      constructor
      · intro h
        cases h
        exact .here _
      · intro h
        cases h
        rfl
  | cons part parts ih =>
      rw [List.foldlM_cons]
      constructor
      · intro h
        cases hStep : system.step place part with
        | error failure =>
            rw [hStep] at h
            cases h
        | ok next =>
            rw [hStep] at h
            obtain ⟨hDirectory, hGoes⟩ := step_eq_ok_iff.1 hStep
            exact .part hDirectory hGoes (ih.1 h)
      · intro h
        cases h with
        | part hDirectory first later =>
            rw [step_eq_ok_iff.2 ⟨hDirectory, first⟩]
            exact ih.2 later

/-- A path leads to one place only. -/
theorem Leads.unique {other : Place} (h : system.Leads place parts last)
    (h' : system.Leads place parts other) : last = other :=
  Except.ok.inj ((foldlM_step_eq_ok_iff.2 h).symm.trans (foldlM_step_eq_ok_iff.2 h'))

/-- Parts that say nothing can be left out wherever they stand. -/
theorem Leads.filter (h : system.Leads place parts last) :
    system.Leads place (parts.filter fun part => !isIdle part) last := by
  induction h with
  | here => exact .here _
  | @part place next last part parts hDirectory first later ih =>
      by_cases hIdle : isIdle part = true
      · have hStay : next = place := by
          cases first with
          | stay => rfl
          | up => cases hIdle
          | down hName => exact absurd hIdle (by simp [hName.1])
        subst hStay
        simpa [hIdle] using ih
      · rw [List.filter_cons_of_pos (by simpa using hIdle)]
        exact .part hDirectory first ih

def origin (system : FileSystem) (name : FileName) : Place :=
  if (segments name.text.toList).head? = some [] then [] else system.working

/-- The content of the file that a name stands for. The name has to be one that the system takes,
and the path has to lead to a file and not to a directory. -/
def Holds (system : FileSystem) (name : FileName) (content : List UInt8) : Prop :=
  '\x00' ∉ name.text.toList ∧ name.isEmpty = false ∧ name.text.utf8ByteSize ≤ pathLimit ∧
    ∃ place, system.Leads (system.origin name) (segments name.text.toList) place ∧
      system.file? place = some content

/-- Reading a file succeeds exactly when the name stands for one, and gives its content. -/
theorem read_eq_ok_iff {name : FileName} {content : List UInt8} :
    system.read name = .ok content ↔ system.Holds name content := by
  have hPlace (place : Place) : system.placeOf name = .ok place ↔
      system.Leads (system.origin name) (segments name.text.toList) place :=
    foldlM_step_eq_ok_iff
  unfold read Holds
  simp only [← hPlace]
  clear hPlace
  split_ifs with hNul hEmpty hLong
  · simp [hNul]
  · simp [hEmpty]
  · simp [Nat.not_le.2 hLong]
  · cases hOf : system.placeOf name with
    | error failure => simp
    | ok place =>
        have hShort := Nat.le_of_not_lt hLong
        cases hFile : system.file? place <;> simp [hNul, hEmpty, hFile, hShort]

/-- Where the steps of a name lead. Only a path with a leading slash has a slash for a step. -/
def Follows (system : FileSystem) (last : Place) : List (List Char) → Prop
  | ['/'] :: parts => system.Leads [] parts last
  | parts => system.Leads system.working parts last

theorem follows_of_ne (hPart : part ≠ ['/']) :
    system.Follows last (part :: parts) ↔ system.Leads system.working (part :: parts) last := by
  unfold Follows
  split
  case h_1 hEq => exact absurd (List.cons.inj hEq).1 hPart
  case h_2 => rfl

/-- A name leads to where its steps lead. -/
theorem Leads.follows {name : FileName} (hSome : name.isEmpty = false)
    (h : system.Leads (system.origin name) (segments name.text.toList) last) :
    system.Follows last name.steps := by
  have hParts : segments name.text.toList ≠ [[]] := by
    intro hNone
    have hEmpty := String.toList_eq_nil_iff.1 (FileName.eq_nil_of_segments hNone)
    rw [FileName.isEmpty, hEmpty] at hSome
    cases hSome
  have hSlash : ∀ part ∈ segments name.text.toList, '/' ∉ part :=
    fun part hMem => FileName.slash_not_mem_of_mem_segments hMem
  unfold FileName.steps
  unfold origin at h
  generalize segments name.text.toList = parts at h hParts hSlash
  cases parts with
  | nil => exact h
  | cons first parts =>
      cases first with
      | nil =>
          have hFilter := h.filter
          cases parts with
          | nil => exact absurd rfl hParts
          | cons next parts =>
              simp only [FileName.filter_not_isIdle]
              exact hFilter
      | cons c first =>
          have hPart : c :: first ≠ ['/'] := by
            intro hEq
            exact hSlash (c :: first) List.mem_cons_self (by simp [hEq])
          simp only [FileName.filter_not_isIdle]
          rw [follows_of_ne hPart]
          cases h with
          | part hDirectory first later => exact .part hDirectory first later.filter

theorem Follows.unique {other : Place} {steps : List (List Char)} (h : system.Follows last steps)
    (h' : system.Follows other steps) : last = other := by
  unfold Follows at h h'
  split at h
  case h_1 => exact h.unique h'
  case h_2 parts hOther =>
    split at h'
    case h_1 others => exact absurd rfl (hOther others)
    case h_2 => exact h.unique h'

/-- Two names that are equal and can both be read stand for the same content. One of them may still
be refused: `a` can be read where `a/.` cannot, since a file is no directory. -/
theorem read_eq_of_beq {name name' : FileName} {content content' : List UInt8}
    (hSame : (name == name') = true) (h : system.read name = .ok content)
    (h' : system.read name' = .ok content') : content = content' := by
  obtain ⟨-, hSome, -, place, hLeads, hFile⟩ := read_eq_ok_iff.1 h
  obtain ⟨-, hSome', -, place', hLeads', hFile'⟩ := read_eq_ok_iff.1 h'
  have hSteps : name.steps = name'.steps := beq_iff_eq.1 hSame
  have hFollows := hLeads.follows hSome
  rw [hSteps] at hFollows
  obtain rfl := hFollows.unique (hLeads'.follows hSome')
  exact Option.some.inj (hFile.symm.trans hFile')

end FileSystem

namespace CommandLine

/-- A run ends for want of a file exactly when the name on the command line leads to none. -/
theorem exit_badFile_iff {σ : Type} (system : FileSystem) (options : Options) (chooser : Chooser σ)
    (state : σ) :
    (run options (system.read options.file) chooser state).exit = .badFile ↔
      ∀ content, ¬ system.Holds options.file content := by
  have hEnds := ends_run options (system.read options.file) chooser state
  simp only [← FileSystem.read_eq_ok_iff]
  generalize system.read options.file = content at hEnds ⊢
  generalize run options content chooser state = outcome at hEnds ⊢
  cases hEnds with
  | unreadable failure => simp
  | defective => simp
  | refused => simp
  | sampled => simp

end CommandLine

end GrammarCheck
