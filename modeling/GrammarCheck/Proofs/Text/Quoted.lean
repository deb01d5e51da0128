import GrammarCheck.Text.Quoted
import Mathlib

/-! Quoted texts can be read back. No escape begins another one or goes on into what stands behind
it, and none begins with the quote mark, so a quoted text ends where it seems to, and two texts that
are shown alike are the same. -/

namespace GrammarCheck.Text

/-- Two texts are cut at the first place where a character stands. -/
theorem append_cons_inj {c : Char} {xs ys as bs : List Char} (hXs : c ∉ xs) (hYs : c ∉ ys)
    (h : xs ++ c :: as = ys ++ c :: bs) : xs = ys ∧ as = bs := by
  induction xs generalizing ys with
  | nil =>
      cases ys with
      | nil => exact ⟨rfl, (List.cons.inj h).2⟩
      | cons y ys =>
          obtain ⟨rfl, -⟩ := List.cons.inj h
          exact absurd List.mem_cons_self hYs
  | cons x xs ih =>
      cases ys with
      | nil =>
          obtain ⟨rfl, -⟩ := List.cons.inj h
          exact absurd List.mem_cons_self hXs
      | cons y ys =>
          obtain ⟨rfl, hRest⟩ := List.cons.inj h
          obtain ⟨rfl, hTail⟩ := ih (List.not_mem_of_not_mem_cons hXs)
            (List.not_mem_of_not_mem_cons hYs) hRest
          exact ⟨rfl, hTail⟩

/-- A numeral to the base of sixteen stands for one number only. The induction takes off the last
digit. -/
theorem toDigits_injective : Function.Injective (Nat.toDigits 16) := by
  intro m
  induction m using Nat.strongRecOn with
  | ind m ih =>
      intro n h
      have hPos (k : Nat) : 0 < (Nat.toDigits 16 k).length := Nat.length_toDigits_pos
      have hDigit : ∀ i < 16, ∀ j < 16, Nat.digitChar i = Nat.digitChar j → i = j := by decide
      have hLength := congrArg List.length h
      by_cases hSmall : m < 16 <;> by_cases hSmall' : n < 16
      · rw [Nat.toDigits_of_lt_base hSmall, Nat.toDigits_of_lt_base hSmall'] at h
        exact hDigit m hSmall n hSmall' (List.head_eq_of_cons_eq h)
      · have hMore := hPos (n / 16)
        rw [Nat.toDigits_of_lt_base hSmall,
          Nat.toDigits_of_base_le (by decide) (Nat.le_of_not_lt hSmall')] at hLength
        simp at hLength
      · have hMore := hPos (m / 16)
        rw [Nat.toDigits_of_base_le (by decide) (Nat.le_of_not_lt hSmall),
          Nat.toDigits_of_lt_base hSmall'] at hLength
        simp at hLength
      · rw [Nat.toDigits_of_base_le (by decide) (Nat.le_of_not_lt hSmall),
          Nat.toDigits_of_base_le (by decide) (Nat.le_of_not_lt hSmall')] at h
        obtain ⟨hFront, hLast⟩ := List.append_inj' h rfl
        have hQuotient := ih (m / 16) (by omega) hFront
        have hRest := hDigit (m % 16) (by omega) (n % 16) (by omega) (List.head_eq_of_cons_eq hLast)
        omega

theorem brace_not_mem_toDigits (n : Nat) : '\x7d' ∉ Nat.toDigits 16 n := by
  induction n using Nat.strongRecOn with
  | ind n ih =>
      have hDigit (k : Nat) : '\x7d' ≠ Nat.digitChar k := (Nat.digitChar_ne _ (by decide)).symm
      by_cases hSmall : n < 16
      · simp [Nat.toDigits_of_lt_base hSmall, hDigit]
      · rw [Nat.toDigits_of_base_le (by decide) (Nat.le_of_not_lt hSmall)]
        simp [hDigit, ih (n / 16) (by omega)]

/-- What stands behind the backslash where a character has a short escape. -/
def short? (quote c : Char) : Option Char :=
  if c = '\x00' then some '0'
  else if c = '\t' then some 't'
  else if c = '\r' then some 'r'
  else if c = '\n' then some 'n'
  else if c = '\\' || c = quote then some c
  else none

/-- The three ways to write a character. -/
inductive Form (quote c : Char) : List Char → Prop where
  | short {d : Char} (h : short? quote c = some d) : Form quote c ['\\', d]
  | shown (h : short? quote c = none) (hPrintable : isPrintable c = true) : Form quote c [c]
  | code : Form quote c (byCode c)

/-- Every character is written in one of these ways. -/
theorem form_escaped (quote c : Char) : Form quote c (escaped quote c) := by
  have hEscaped : escaped quote c = match short? quote c with
      | some d => ['\\', d]
      | none => if isPrintable c then [c] else byCode c := by
    unfold escaped short?
    split_ifs <;> rfl
  rw [hEscaped]
  cases hShort : short? quote c with
  | some d => exact .short hShort
  | none =>
      by_cases hPrintable : isPrintable c = true
      · rw [if_pos hPrintable]
        exact .shown hShort hPrintable
      · rw [if_neg hPrintable]
        exact .code

/-- A code tells the character, and ends at its brace. -/
theorem byCode_append_inj {c d : Char} {xs ys : List Char}
    (h : byCode c ++ xs = byCode d ++ ys) : c = d ∧ xs = ys := by
  simp only [byCode, List.cons_append, List.nil_append, List.append_assoc, List.cons.injEq,
    true_and] at h
  obtain ⟨hDigits, hRest⟩ :=
    append_cons_inj (brace_not_mem_toDigits _) (brace_not_mem_toDigits _) h
  exact ⟨Char.toNat_inj.1 (toDigits_injective hDigits), hRest⟩

/-- The character that a short escape stands for. -/
def ofShort (d : Char) : Char :=
  if d = '0' then '\x00'
  else if d = 't' then '\t'
  else if d = 'r' then '\r'
  else if d = 'n' then '\n'
  else d

/-- The two marks between which something is quoted. -/
def IsQuote (quote : Char) : Prop := quote = '"' ∨ quote = '\''

section

variable {quote : Char} (hQuote : IsQuote quote)

include hQuote

/-- A short escape can be read back, and is not taken for one by code. -/
theorem ofShort_of_short? {c d : Char} (h : short? quote c = some d) :
    ofShort d = c ∧ d ≠ 'u' := by
  have hLetter : c = '\\' ∨ c = quote → ofShort c = c ∧ c ≠ 'u' := by
    rintro (rfl | rfl)
    · decide
    · rcases hQuote with rfl | rfl <;> decide
  unfold short? at h
  split_ifs at h <;> cases h <;> simp_all [ofShort]

theorem mem_of_short? {c d : Char} (h : short? quote c = some d) :
    d ∈ ['0', 't', 'r', 'n', '\\', '"', '\''] := by
  unfold short? at h
  split_ifs at h <;> cases h <;> rcases hQuote with rfl | rfl <;> simp_all <;> tauto

/-- What has no short escape is neither the backslash nor the mark. -/
theorem ne_of_short?_eq_none {c : Char} (h : short? quote c = none) : c ≠ '\\' ∧ c ≠ quote := by
  rcases hQuote with rfl | rfl <;> grind [short?]

/-- An escape tells the character, and where it ends itself. -/
theorem Form.append_inj {c d : Char} {first second xs ys : List Char} (hFirst : Form quote c first)
    (hSecond : Form quote d second) (h : first ++ xs = second ++ ys) : c = d ∧ xs = ys := by
  cases hFirst with
  | short hShort =>
      obtain ⟨hBack, hLetter⟩ := ofShort_of_short? hQuote hShort
      cases hSecond with
      | short hShort' =>
          obtain ⟨hBack', -⟩ := ofShort_of_short? hQuote hShort'
          obtain ⟨rfl, hRest⟩ := List.cons.inj (List.cons.inj h).2
          exact ⟨hBack.symm.trans hBack', hRest⟩
      | shown hNone =>
          exact absurd (List.cons.inj h).1.symm (ne_of_short?_eq_none hQuote hNone).1
      | code => exact absurd (List.cons.inj (List.cons.inj h).2).1 hLetter
  | shown hNone =>
      have hNe := (ne_of_short?_eq_none hQuote hNone).1
      cases hSecond with
      | short => exact absurd (List.cons.inj h).1 hNe
      | shown => exact List.cons.inj h
      | code => exact absurd (List.cons.inj h).1 hNe
  | code =>
      cases hSecond with
      | short hShort =>
          obtain ⟨-, hLetter⟩ := ofShort_of_short? hQuote hShort
          exact absurd (List.cons.inj (List.cons.inj h).2).1.symm hLetter
      | shown hNone =>
          exact absurd (List.cons.inj h).1.symm (ne_of_short?_eq_none hQuote hNone).1
      | code => exact byCode_append_inj h

/-- No escape looks like the end of the quotation. -/
theorem Form.append_ne {c : Char} {first : List Char} (h : Form quote c first)
    (xs ys : List Char) : first ++ xs ≠ quote :: ys := by
  have hSlash : '\\' ≠ quote := by rcases hQuote with rfl | rfl <;> decide
  cases h with
  | short => simp [hSlash]
  | shown hNone => simp [(ne_of_short?_eq_none hQuote hNone).2]
  | code => simp [byCode, hSlash]

/-- What is written between quotes ends at the second quote mark. -/
theorem flatMap_escaped_inj {s t xs ys : List Char}
    (h : s.flatMap (escaped quote) ++ quote :: xs = t.flatMap (escaped quote) ++ quote :: ys) :
    s = t ∧ xs = ys := by
  induction s generalizing t with
  | nil =>
      cases t with
      | nil => simpa using h
      | cons d t =>
          rw [List.flatMap_cons, List.append_assoc] at h
          exact absurd h.symm ((form_escaped quote d).append_ne hQuote _ _)
  | cons c s ih =>
      rw [List.flatMap_cons, List.append_assoc] at h
      cases t with
      | nil => exact absurd h ((form_escaped quote c).append_ne hQuote _ _)
      | cons d t =>
          rw [List.flatMap_cons, List.append_assoc] at h
          obtain ⟨rfl, hRest⟩ := (form_escaped quote c).append_inj hQuote (form_escaped quote d) h
          obtain ⟨rfl, hTail⟩ := ih hRest
          exact ⟨rfl, hTail⟩

end

/-- The digits of a numeral, one by one. -/
theorem exists_digit_of_mem_toDigits {n : Nat} {c : Char} (h : c ∈ Nat.toDigits 16 n) :
    ∃ k < 16, c = Nat.digitChar k := by
  induction n using Nat.strongRecOn with
  | ind n ih =>
      by_cases hSmall : n < 16
      · rw [Nat.toDigits_of_lt_base hSmall] at h
        exact ⟨n, hSmall, List.mem_singleton.1 h⟩
      · rw [Nat.toDigits_of_base_le (by decide) (Nat.le_of_not_lt hSmall)] at h
        rcases List.mem_append.1 h with hFront | hLast
        · exact ih (n / 16) (by omega) hFront
        · exact ⟨n % 16, by omega, List.mem_singleton.1 hLast⟩

/-- The characters of a typewriter can be shown. Both tables begin below or behind them. -/
theorem isPrintable_of_between {c : Char} (hLow : 0x20 ≤ c.toNat) (hHigh : c.toNat < 0x7F) :
    isPrintable c = true := by
  have hUnshown : belongs unshownChanges c.toNat = false := by
    unfold belongs unshownChanges
    rw [List.takeWhile_cons_of_pos, List.takeWhile_cons_of_pos, List.takeWhile_cons_of_neg]
    · rfl
    all_goals simp <;> omega
  have hCombining : belongs combiningChanges c.toNat = false := by
    unfold belongs combiningChanges
    rw [List.takeWhile_cons_of_neg]
    · rfl
    · simp
      omega
  simp [isPrintable, isUnshown, isCombining, hUnshown, hCombining]

theorem isPrintable_of_mem_byCode {c d : Char} (h : d ∈ byCode c) : isPrintable d = true := by
  have hFrame : ∀ d ∈ ['\\', 'u', '\x7b', '\x7d'], 0x20 ≤ d.toNat ∧ d.toNat < 0x7F := by simp
  have hDigit : ∀ k < 16, 0x20 ≤ (Nat.digitChar k).toNat ∧ (Nat.digitChar k).toNat < 0x7F := by
    decide
  suffices hBetween : 0x20 ≤ d.toNat ∧ d.toNat < 0x7F from
    isPrintable_of_between hBetween.1 hBetween.2
  rw [byCode, List.append_assoc, List.mem_append, List.mem_append] at h
  rcases h with hStart | hCode | hEnd
  · exact hFrame d (List.mem_append_left ['\x7d'] hStart)
  · obtain ⟨k, hSmall, rfl⟩ := exists_digit_of_mem_toDigits hCode
    exact hDigit k hSmall
  · exact hFrame d (List.mem_append_right ['\\', 'u', '\x7b'] hEnd)

/-- However a character is written, what is written can be seen. -/
theorem isPrintable_of_mem_escaped {quote c d : Char} (hQuote : IsQuote quote)
    (h : d ∈ escaped quote c) : isPrintable d = true := by
  have hLetter : ∀ d ∈ ['0', 't', 'r', 'n', '\\', '"', '\''],
      0x20 ≤ d.toNat ∧ d.toNat < 0x7F := by simp
  have hPlain (hMem : d ∈ ['0', 't', 'r', 'n', '\\', '"', '\'']) : isPrintable d = true :=
    isPrintable_of_between (hLetter d hMem).1 (hLetter d hMem).2
  generalize hWritten : escaped quote c = written at h
  have hForm := form_escaped quote c
  rw [hWritten] at hForm
  cases hForm with
  | short hShort =>
      have hMem := mem_of_short? hQuote hShort
      rcases List.mem_pair.1 h with rfl | rfl
      · exact hPlain (by decide)
      · exact hPlain hMem
  | shown _ hPrintable => rwa [List.mem_singleton.1 h]
  | code => exact isPrintable_of_mem_byCode h

/-- A quoted text tells the text, and where it ends itself. -/
theorem quotedText_append_inj {s t a b : String} (h : quotedText s ++ a = quotedText t ++ b) :
    s = t ∧ a = b := by
  have hChars := congrArg String.toList h
  simp only [quotedText, String.toList_append, String.toList_ofList, List.cons_append,
    List.append_assoc, List.cons.injEq, true_and, List.nil_append] at hChars
  obtain ⟨hText, hRest⟩ := flatMap_escaped_inj (.inl rfl) hChars
  exact ⟨String.toList_injective hText, String.toList_injective hRest⟩

/-- Two texts that are quoted alike are the same. -/
theorem quotedText_injective : Function.Injective quotedText := by
  intro s t h
  exact (quotedText_append_inj (congrArg (· ++ "") h)).1

/-- Whatever the text, all of it can be seen between the quotes. -/
theorem isPrintable_of_mem_quotedText {s : String} {c : Char} (h : c ∈ (quotedText s).toList) :
    isPrintable c = true := by
  have hMark : isPrintable '"' = true := isPrintable_of_between (by decide) (by decide)
  rw [quotedText, String.toList_ofList, List.cons_append, List.mem_cons, List.mem_append,
    List.mem_flatMap, List.mem_singleton] at h
  rcases h with rfl | ⟨d, -, hEscaped⟩ | rfl
  · exact hMark
  · exact isPrintable_of_mem_escaped (.inl rfl) hEscaped
  · exact hMark

/-- A quoted character tells the character, and where it ends itself. -/
theorem quotedChar_append_inj {c d : Char} {a b : String}
    (h : quotedChar c ++ a = quotedChar d ++ b) : c = d ∧ a = b := by
  have hChars := congrArg String.toList h
  simp only [quotedChar, String.toList_append, String.toList_ofList, List.cons_append,
    List.append_assoc, List.cons.injEq, true_and, List.nil_append] at hChars
  obtain ⟨rfl, hRest⟩ :=
    (form_escaped '\'' c).append_inj (.inr rfl) (form_escaped '\'' d) hChars
  exact ⟨rfl, String.toList_injective (List.cons.inj hRest).2⟩

theorem quotedChar_injective : Function.Injective quotedChar := by
  intro c d h
  exact (quotedChar_append_inj (congrArg (· ++ "") h)).1

end GrammarCheck.Text
