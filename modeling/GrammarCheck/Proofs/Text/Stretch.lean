import GrammarCheck.Proofs.Text.Encoding

/-! Dividing bytes into encoded characters and ill-formed stretches. There is one way to do so, with
each ill-formed stretch as long as it can be, and reading bytes one by one finds it: a character
under way stands for the code points that it can still become. -/

namespace GrammarCheck.Text.Utf8

/-- Bytes with which the encoding of some character begins. -/
def Begins (bytes : List UInt8) : Prop := ∃ c, bytes <+: String.utf8EncodeChar c

/-- What `bytes` amount to when `rest` comes behind them: a character, or no character. -/
inductive Spelled : Option Char → (bytes rest : List UInt8) → Prop where
  | char (c : Char) {rest : List UInt8} : Spelled (some c) (String.utf8EncodeChar c) rest
  /-- The longest stretch that begins a character but does not finish it. -/
  | unfinished {bytes rest : List UInt8} (hNonempty : bytes ≠ []) (hBegins : Begins bytes)
      (hOpen : ∀ c, bytes ≠ String.utf8EncodeChar c)
      (hEnds : ∀ b ∈ rest.head?, ¬ Begins (bytes ++ [b])) : Spelled none bytes rest
  /-- A byte with which no character begins. -/
  | stray {b : UInt8} {rest : List UInt8} (hStray : ¬ Begins [b]) : Spelled none [b] rest

structure Stretch where
  unit : Option Char
  bytes : List UInt8

def Stretch.char (stretch : Stretch) : Char := stretch.unit.getD replacement

/-- Stretches that some bytes are divided into. -/
inductive Divides : List UInt8 → List Stretch → Prop where
  | nil : Divides [] []
  | cons {unit : Option Char} {bytes rest : List UInt8} {stretches : List Stretch}
      (hSpelled : Spelled unit bytes rest) (later : Divides rest stretches) :
      Divides (bytes ++ rest) (⟨unit, bytes⟩ :: stretches)

variable {unit : Option Char} {part rest : List UInt8}

/-- What begins the beginning of a character begins it too. -/
theorem Begins.left {bytes : List UInt8} (h : Begins (part ++ bytes)) : Begins part := by
  obtain ⟨c, hPrefix⟩ := h
  exact ⟨c, (List.prefix_append part bytes).trans hPrefix⟩

namespace Spelled

theorem ne_nil (h : Spelled unit part rest) : part ≠ [] := by
  cases h with
  | char c => exact String.utf8EncodeChar_ne_nil
  | unfinished hNonempty => exact hNonempty
  | stray => exact List.cons_ne_nil _ _

/-- No character begins with more than the bytes of one unit. -/
theorem not_begins_append (h : Spelled unit part rest) : ∀ b ∈ rest.head?, ¬ Begins (part ++ [b]) := by
  rintro b hHead ⟨d, hPrefix⟩
  cases h with
  | char c =>
      obtain rfl := utf8EncodeChar_prefix_inj ((List.prefix_append _ _).trans hPrefix)
      have hLength := hPrefix.length_le
      rw [List.length_append, List.length_singleton] at hLength
      omega
  | unfinished _ _ _ hEnds => exact hEnds b hHead ⟨d, hPrefix⟩
  | stray hStray => exact hStray ⟨d, (List.prefix_append _ _).trans hPrefix⟩

/-- A stretch begins some character, or is a single byte that begins none. -/
theorem begins_or_singleton (h : Spelled unit part rest) : Begins part ∨ ∃ b, part = [b] := by
  cases h with
  | char c => exact .inl ⟨c, List.prefix_refl _⟩
  | unfinished _ hBegins => exact .inl hBegins
  | stray => exact .inr ⟨_, rfl⟩

/-- A unit is as long as any other at the same place. -/
theorem eq_nil_of_longer {other : Option Char} {more below : List UInt8}
    (h : Spelled unit part (more ++ below)) (hOther : Spelled other (part ++ more) below) :
    more = [] := by
  cases more with
  | nil => rfl
  | cons b more =>
      rcases hOther.begins_or_singleton with hBegins | ⟨d, hSingle⟩
      · rw [← List.singleton_append, ← List.append_assoc] at hBegins
        exact absurd hBegins.left (h.not_begins_append b rfl)
      · have hLength := congrArg List.length hSingle
        have hPos := List.length_pos_of_ne_nil h.ne_nil
        rw [List.length_append, List.length_cons, List.length_singleton] at hLength
        omega

/-- A stretch amounts to a character exactly when it is the encoding of it. -/
theorem unit_eq_some_iff (h : Spelled unit part rest) {c : Char} :
    unit = some c ↔ part = String.utf8EncodeChar c := by
  cases h with
  | char d =>
      constructor
      · rintro ⟨rfl⟩
        rfl
      · intro hSame
        exact congrArg some (utf8EncodeChar_prefix_inj ⟨[], (List.append_nil _).trans hSame⟩)
  | unfinished _ _ hOpen => simp [hOpen c]
  | stray hStray =>
      have hOpen : [_] ≠ String.utf8EncodeChar c := fun hSame =>
        hStray ⟨c, [], (List.append_nil _).trans hSame⟩
      simp [hOpen]

/-- What bytes begin with amounts to one thing. -/
theorem eq_of_append_eq {other : Option Char} {bytes below : List UInt8}
    (h : Spelled unit part rest) (hOther : Spelled other bytes below)
    (hBytes : part ++ rest = bytes ++ below) : unit = other ∧ part = bytes ∧ rest = below := by
  have hPart : part = bytes ∧ rest = below := by
    rcases List.append_eq_append_iff.1 hBytes with ⟨more, rfl, rfl⟩ | ⟨more, rfl, rfl⟩
    · obtain rfl := h.eq_nil_of_longer hOther
      exact ⟨(List.append_nil part).symm, rfl⟩
    · obtain rfl := hOther.eq_nil_of_longer h
      exact ⟨List.append_nil bytes, rfl⟩
  refine ⟨Option.ext fun c => ?_, hPart⟩
  rw [h.unit_eq_some_iff, hOther.unit_eq_some_iff, hPart.1]

end Spelled

/-- Bytes are divided in one way. -/
theorem Divides.eq_of_eq {bytes others : List UInt8} {stretches found : List Stretch}
    (h : Divides bytes stretches) (hOther : Divides others found) (hBytes : bytes = others) :
    stretches = found := by
  induction h generalizing others found with
  | nil =>
      cases hOther with
      | nil => rfl
      | cons hSpelled => exact absurd (List.append_eq_nil_iff.1 hBytes.symm).1 hSpelled.ne_nil
  | cons hSpelled later ih =>
      cases hOther with
      | nil => exact absurd (List.append_eq_nil_iff.1 hBytes).1 hSpelled.ne_nil
      | cons hFound hLater =>
          obtain ⟨rfl, rfl, rfl⟩ := hSpelled.eq_of_append_eq hFound hBytes
          rw [ih hLater rfl]

namespace Pending

/-- The code points that a character under way can still become. -/
def Admits (p : Pending) (v : Nat) : Prop :=
  upper p.owed v = p.value ∧ p.low ≤ upper (p.owed - 1) v % 64 + 0x80 ∧
    upper (p.owed - 1) v % 64 + 0x80 ≤ p.high

/-- A character under way of which `part` has been read. It admits the code points whose encodings
begin with `part`, and no others. -/
structure Reached (p : Pending) (part : List UInt8) : Prop where
  ne_nil : part ≠ []
  owed_pos : 0 < p.owed
  low_le : 0x80 ≤ p.low ∧ p.low ≤ p.high ∧ p.high ≤ 0xBF
  valid : ∀ v, p.Admits v → v.isValidChar
  admits : ∀ c : Char, part <+: String.utf8EncodeChar c → p.Admits c.toNat
  encode_eq : ∀ c : Char, p.Admits c.toNat →
    String.utf8EncodeChar c = part ++ lower p.owed c.toNat

theorem toNat_ofNat_valid {v : Nat} (h : v.isValidChar) : (Char.ofNat v).toNat = v := by
  rw [Char.ofNat, dif_pos h]
  rfl

namespace Reached

variable {p : Pending} {b : UInt8} {c : Char}

/-- The next byte carries the next six bits. -/
theorem admits_of_upper (h : p.Reached part) (hLow : p.low ≤ b.toNat) (hHigh : b.toNat ≤ p.high)
    {v : Nat} (hUpper : upper (p.owed - 1) v = p.value * 64 + (b.toNat - 0x80)) : p.Admits v := by
  have hRange := h.low_le
  have hOwed : upper p.owed v = p.value := by
    rw [upper_of_pos h.owed_pos, hUpper]
    omega
  exact ⟨hOwed, by rw [hUpper]; omega, by rw [hUpper]; omega⟩

/-- Each byte that is let through belongs to some character. -/
theorem exists_upper (h : p.Reached part) (hLow : p.low ≤ b.toNat) (hHigh : b.toNat ≤ p.high) :
    ∃ c : Char, upper (p.owed - 1) c.toNat = p.value * 64 + (b.toNat - 0x80) := by
  obtain ⟨v, hUpper⟩ := exists_upper_eq (p.owed - 1) (p.value * 64 + (b.toNat - 0x80))
  have hChar := toNat_ofNat_valid (h.valid v (h.admits_of_upper hLow hHigh hUpper))
  exact ⟨Char.ofNat v, by rw [hChar, hUpper]⟩

/-- Behind the part that was read, the encoding of a character goes on with its next six bits. -/
theorem encode_split (h : p.Reached part) (hAdmits : p.Admits c.toNat) :
    String.utf8EncodeChar c = part ++ UInt8.ofNat (upper (p.owed - 1) c.toNat % 64 + 0x80) ::
      lower (p.owed - 1) c.toNat := by
  rw [h.encode_eq c hAdmits, lower_of_pos h.owed_pos]

/-- A byte in the range is the next one of the characters with its six bits. -/
theorem encode_concat (h : p.Reached part) (hLow : p.low ≤ b.toNat) (hHigh : b.toNat ≤ p.high)
    (hUpper : upper (p.owed - 1) c.toNat = p.value * 64 + (b.toNat - 0x80)) :
    String.utf8EncodeChar c = part ++ [b] ++ lower (p.owed - 1) c.toNat := by
  have hRange := h.low_le
  have hByte : UInt8.ofNat (upper (p.owed - 1) c.toNat % 64 + 0x80) = b := by
    rw [hUpper, show (p.value * 64 + (b.toNat - 0x80)) % 64 + 0x80 = b.toNat by omega,
      UInt8.ofNat_toNat]
  rw [h.encode_split (h.admits_of_upper hLow hHigh hUpper), hByte, List.append_assoc,
    List.singleton_append]

/-- The next byte of a character under way is in the range, and tells the next six bits. -/
theorem of_prefix_concat (h : p.Reached part) (hPrefix : part ++ [b] <+: String.utf8EncodeChar c) :
    (p.low ≤ b.toNat ∧ b.toNat ≤ p.high) ∧
      upper (p.owed - 1) c.toNat = p.value * 64 + (b.toNat - 0x80) := by
  have hAdmits := h.admits c ((List.prefix_append part [b]).trans hPrefix)
  rw [h.encode_split hAdmits, List.prefix_append_right_inj, List.cons_prefix_cons] at hPrefix
  have hByte := congrArg UInt8.toNat hPrefix.1
  have hSix : upper (p.owed - 1) c.toNat % 64 + 0x80 < 256 := by omega
  rw [UInt8.toNat_ofNat_of_lt' hSix] at hByte
  obtain ⟨hUpper, hLow, hHigh⟩ := hAdmits
  rw [upper_of_pos h.owed_pos] at hUpper
  omega

/-- A character under way can go on with just the bytes of its range. -/
theorem begins_concat_iff (h : p.Reached part) :
    Begins (part ++ [b]) ↔ p.low ≤ b.toNat ∧ b.toNat ≤ p.high := by
  constructor
  · rintro ⟨c, hPrefix⟩
    exact (h.of_prefix_concat hPrefix).1
  · rintro ⟨hLow, hHigh⟩
    obtain ⟨c, hUpper⟩ := h.exists_upper hLow hHigh
    exact ⟨c, _, (h.encode_concat hLow hHigh hUpper).symm⟩

/-- The last byte finishes a character. -/
theorem encode_finished (h : p.Reached part) (hLow : p.low ≤ b.toNat) (hHigh : b.toNat ≤ p.high)
    (hOwed : p.owed ≤ 1) :
    String.utf8EncodeChar (Char.ofNat (p.value * 64 + (b.toNat - 0x80))) = part ++ [b] := by
  have hLast : p.owed - 1 = 0 := by omega
  obtain ⟨c, hUpper⟩ := h.exists_upper hLow hHigh
  have hEncode := h.encode_concat hLow hHigh hUpper
  rw [hLast] at hEncode hUpper
  rw [← hUpper, upper, Char.ofNat_toNat, hEncode, lower, List.append_nil]

/-- Any other byte in the range takes the character one further. -/
theorem concat (h : p.Reached part) (hLow : p.low ≤ b.toNat) (hHigh : b.toNat ≤ p.high)
    (hOwed : 1 < p.owed) :
    Reached ⟨p.owed - 1, 0x80, 0xBF, p.value * 64 + (b.toNat - 0x80)⟩ (part ++ [b]) where
  ne_nil := List.append_ne_nil_of_right_ne_nil part (List.cons_ne_nil b [])
  owed_pos := Nat.sub_pos_of_lt hOwed
  low_le := ⟨Nat.le_refl 0x80, (by decide : 0x80 ≤ 0xBF), Nat.le_refl 0xBF⟩
  valid := fun v hAdmits => h.valid v (h.admits_of_upper hLow hHigh hAdmits.1)
  admits := by
    intro c hPrefix
    refine ⟨(h.of_prefix_concat hPrefix).2, ?_, ?_⟩ <;> dsimp only <;> omega
  encode_eq := fun c hAdmits => h.encode_concat hLow hHigh hAdmits.1

/-- A character under way is begun and not finished. -/
theorem begins (h : p.Reached part) : Begins part := by
  obtain ⟨hLow, hLe, hHigh⟩ := h.low_le
  have hLt : p.low < 256 := by omega
  have hByte : (UInt8.ofNat p.low).toNat = p.low := UInt8.toNat_ofNat_of_lt' hLt
  exact ((h.begins_concat_iff (b := UInt8.ofNat p.low)).2 (by omega)).left

theorem ne_utf8EncodeChar (h : p.Reached part) (c : Char) : part ≠ String.utf8EncodeChar c := by
  intro hSame
  have hSplit := h.encode_split (h.admits c ⟨[], (List.append_nil _).trans hSame⟩)
  rw [← hSame] at hSplit
  cases List.self_eq_append_right.1 hSplit

/-- A character is under way behind its first byte. -/
theorem of_first (hOwed : 0 < p.owed) (hRange : 0x80 ≤ p.low ∧ p.low ≤ p.high ∧ p.high ≤ 0xBF)
    (hAdmits : ∀ v, p.Admits v ↔ v.isValidChar ∧ first v = b.toNat)
    (hFollowing : ∀ v, p.Admits v → following v = p.owed) : p.Reached [b] where
  ne_nil := List.cons_ne_nil b []
  owed_pos := hOwed
  low_le := hRange
  valid := fun v h => ((hAdmits v).1 h).1
  admits := fun c hPrefix => (hAdmits c.toNat).2 ⟨c.valid, singleton_prefix_iff.1 hPrefix⟩
  encode_eq := by
    intro c h
    rw [utf8EncodeChar_eq, ((hAdmits _).1 h).2, hFollowing _ h, UInt8.ofNat_toNat]
    rfl

end Reached

end Pending

/-- The bytes that can begin a character are the first bytes of encodings. -/
theorem begins_singleton_iff {b : UInt8} :
    Begins [b] ↔ ∃ v : Nat, v.isValidChar ∧ first v = b.toNat := by
  constructor
  · rintro ⟨c, hPrefix⟩
    exact ⟨c.toNat, c.valid, singleton_prefix_iff.1 hPrefix⟩
  · rintro ⟨v, hValid, hFirst⟩
    refine ⟨Char.ofNat v, singleton_prefix_iff.2 ?_⟩
    rw [Pending.toNat_ofNat_valid hValid, hFirst]

/-- A byte where a character is to begin finishes one, begins one or begins none. -/
inductive Leads (b : UInt8) : Outcome → Prop where
  | char {c : Char} (hChar : String.utf8EncodeChar c = [b]) : Leads b ([some c], none)
  | pending {p : Pending} (hReached : p.Reached [b]) : Leads b ([], some p)
  | stray (hStray : ¬ Begins [b]) : Leads b ([none], none)

/-- The first byte leads to where the encodings say. -/
theorem leads_lead (b : UInt8) : Leads b (lead b.toNat) := by
  have hLt := b.toNat_lt
  fun_cases lead b.toNat with
  | case1 hAscii =>
      refine .char ?_
      have hValid : b.toNat.isValidChar := .inl (by omega)
      rw [utf8EncodeChar_eq, Pending.toNat_ofNat_valid hValid, first, following,
        if_pos (Nat.le_of_lt_succ hAscii)]
      exact congrArg (List.cons · []) UInt8.ofNat_toNat
  | case9 =>
      refine .stray fun hBegins => ?_
      obtain ⟨v, hValid, hFirst⟩ := begins_singleton_iff.1 hBegins
      revert hValid hFirst
      simp only [Nat.isValidChar, first, following]
      split_ifs <;> simp only [upper, mark] <;> omega
  | _ =>
      -- The rows for the first of several bytes: each tells the range of the code points.
      refine .pending (.of_first (Nat.succ_pos _) (by dsimp only; omega) (fun v => ?_) fun v => ?_)
        <;> simp only [Pending.Admits, first, following, Nat.isValidChar] <;> split_ifs
        <;> simp only [Nat.reduceSub, upper, mark, implies_true] <;> omega

/-- The bytes read of the character under way. -/
inductive Opened : Option Pending → List UInt8 → Prop where
  | outside : Opened none []
  | within {p : Pending} {part : List UInt8} (hReached : p.Reached part) : Opened (some p) part

/-- The outcome finishes all of the stretches in `bytes` but the one under way, however the bytes
behind are divided. -/
def Finishes (outcome : Outcome) (bytes : List UInt8) : Prop :=
  ∃ found next, Opened outcome.2 next ∧ outcome.1 = found.map Stretch.unit ∧
    ∀ rest stretches, Divides (next ++ rest) stretches →
      Divides (bytes ++ rest) (found ++ stretches)

theorem Spelled.finishes (h : ∀ rest, Spelled unit part rest) : Finishes ([unit], none) part := by
  exact ⟨[⟨unit, part⟩], [], .outside, rfl, fun rest _ later => .cons (h rest) later⟩

theorem Pending.Reached.finishes {p : Pending} (h : p.Reached part) :
    Finishes ([], some p) part :=
  ⟨[], part, .within h, rfl, fun _ _ later => later⟩

theorem Leads.finishes {b : UInt8} {outcome : Outcome} (h : Leads b outcome) :
    Finishes outcome [b] := by
  cases h with
  | @char c hChar => exact Spelled.finishes fun rest => hChar ▸ .char c
  | pending hReached => exact hReached.finishes
  | stray hStray => exact Spelled.finishes fun rest => .stray hStray

/-- A character that cannot go on is none, and ends with what was read of it. -/
theorem Pending.Reached.unfinished {p : Pending} (h : p.Reached part)
    (hEnds : ∀ b ∈ rest.head?, ¬ Begins (part ++ [b])) : Spelled none part rest :=
  .unfinished h.ne_nil h.begins h.ne_utf8EncodeChar hEnds

/-- One more byte finishes what it should and leaves the rest open. -/
theorem Opened.step {state : Option Pending} (h : Opened state part) (b : UInt8) :
    Finishes (step state b.toNat) (part ++ [b]) := by
  cases h with
  | outside => exact (leads_lead b).finishes
  | @within p part hReached =>
      rw [Utf8.step]
      dsimp only
      split_ifs with hRange hOwed
      · have hChar := hReached.encode_finished hRange.1 hRange.2 hOwed
        exact Spelled.finishes fun rest => hChar ▸ .char _
      · exact (hReached.concat hRange.1 hRange.2 (Nat.lt_of_not_le hOwed)).finishes
      · -- The byte cannot come next, so what is under way ends before it.
        obtain ⟨found, next, hNext, hFound, hLater⟩ := (leads_lead b).finishes
        refine ⟨⟨none, part⟩ :: found, next, hNext, congrArg (none :: ·) hFound, ?_⟩
        intro rest stretches later
        rw [List.append_assoc]
        refine Divides.cons (hReached.unfinished ?_) (hLater rest stretches later)
        rintro _ ⟨rfl⟩
        exact mt hReached.begins_concat_iff.1 hRange

/-- Decoding finds the stretches that the bytes are divided into. The induction is on the bytes
still to be read. -/
theorem Opened.exists_divides {state : Option Pending} (h : Opened state part)
    (bytes : List UInt8) : ∃ stretches, Divides (part ++ bytes) stretches ∧
      unitsFrom state bytes = stretches.map Stretch.unit := by
  induction bytes generalizing state part with
  | nil =>
      cases h with
      | outside => exact ⟨[], .nil, rfl⟩
      | within hReached =>
          have hEnds : ∀ b ∈ ([] : List UInt8).head?, ¬ Begins (part ++ [b]) := fun _ => nofun
          exact ⟨[⟨none, part⟩], .cons (hReached.unfinished hEnds) .nil, rfl⟩
  | cons b bytes ih =>
      obtain ⟨found, next, hNext, hFound, hLater⟩ := h.step b
      obtain ⟨stretches, hDivides, hUnits⟩ := ih hNext
      refine ⟨found ++ stretches, ?_, by rw [unitsFrom, hFound, hUnits, List.map_append]⟩
      rw [List.append_cons]
      exact hLater bytes stretches hDivides

/-- Bytes can be divided, and reading them finds the stretches. -/
theorem exists_divides (bytes : List UInt8) :
    ∃ stretches, Divides bytes stretches ∧ units bytes = stretches.map Stretch.unit :=
  Opened.outside.exists_divides bytes

namespace Divides

variable {bytes : List UInt8} {stretches : List Stretch}

/-- However some bytes are divided, their units are those that decoding finds. -/
theorem units_eq (h : Divides bytes stretches) : units bytes = stretches.map Stretch.unit := by
  obtain ⟨found, hFound, hUnits⟩ := exists_divides bytes
  rw [hUnits, hFound.eq_of_eq h rfl]

/-- Decoding puts one character for every stretch. -/
theorem decode_eq (h : Divides bytes stretches) : decode bytes = stretches.map Stretch.char := by
  rw [decode, h.units_eq, List.map_map]
  rfl

/-- An encoded text is divided into its characters. -/
theorem encoded (text : List Char) :
    Divides (text.flatMap String.utf8EncodeChar)
      (text.map fun c => ⟨some c, String.utf8EncodeChar c⟩) := by
  induction text with
  | nil => exact .nil
  | cons c text ih => exact .cons (.char c) ih

/-- Bytes without an ill-formed stretch are valid. -/
theorem isValidUTF8 (h : Divides bytes stretches) (hAll : none ∉ stretches.map Stretch.unit) :
    bytes.toByteArray.IsValidUTF8 := by
  induction h with
  | nil => exact ByteArray.isValidUTF8_empty
  | cons hSpelled later ih =>
      rw [List.map_cons, List.mem_cons, not_or] at hAll
      cases hSpelled with
      | char c =>
          rw [List.toByteArray_append]
          exact Char.isValidUTF8_toByteArray_utf8EncodeChar.append (ih hAll.2)
      | unfinished => exact absurd rfl hAll.1
      | stray => exact absurd rfl hAll.1

end Divides

/-- Bytes are well formed where reading finds no ill-formed stretch in them. -/
theorem isValidUTF8_iff {bytes : List UInt8} :
    bytes.toByteArray.IsValidUTF8 ↔ none ∉ units bytes := by
  constructor
  · rintro ⟨text, hText⟩
    have hBytes : bytes = text.flatMap String.utf8EncodeChar := List.toByteArray_inj.1 hText
    rw [hBytes, (Divides.encoded text).units_eq, List.map_map]
    simp
  · intro hAll
    obtain ⟨stretches, hDivides, hUnits⟩ := exists_divides bytes
    exact hDivides.isValidUTF8 (hUnits ▸ hAll)

/-- A newline byte begins no other character than the newline. -/
theorem Begins.eq_newline (h : Begins part) (hMem : 0x0A ∈ part) : part = [0x0A] := by
  obtain ⟨c, hPrefix⟩ := h
  obtain rfl := eq_newline_of_mem (hPrefix.subset hMem)
  rw [utf8EncodeChar_newline] at hPrefix
  exact hPrefix.sublist.eq_of_length_le (List.length_pos_of_mem hMem)

/-- The byte of a newline stands alone. -/
theorem Spelled.eq_newline (h : Spelled unit part rest) (hMem : 0x0A ∈ part) : part = [0x0A] := by
  rcases h.begins_or_singleton with hBegins | ⟨b, rfl⟩
  · exact hBegins.eq_newline hMem
  · rw [List.mem_singleton.1 hMem]

theorem Spelled.unit_eq_newline_iff (h : Spelled unit part rest) :
    unit = some '\n' ↔ 0x0A ∈ part := by
  rw [h.unit_eq_some_iff, utf8EncodeChar_newline]
  exact ⟨fun hPart => hPart ▸ List.mem_singleton_self _, h.eq_newline⟩

/-- A stretch is as many newlines in the bytes as in the text. -/
theorem Spelled.count_newline (h : Spelled unit part rest) :
    part.count 0x0A = [unit.getD replacement].count '\n' := by
  by_cases hMem : 0x0A ∈ part
  · rw [h.unit_eq_newline_iff.2 hMem, h.eq_newline hMem]
    rfl
  · have hOther : unit.getD replacement ≠ '\n' := by
      cases unit with
      | none => exact (by decide : replacement ≠ '\n')
      | some c => exact fun hSame => hMem (h.unit_eq_newline_iff.1 (congrArg some hSame))
    rw [List.count_eq_zero_of_not_mem hMem,
      List.count_eq_zero_of_not_mem (by simpa using hOther.symm)]

/-- The newlines of the text before any stretch are those of the bytes before it. -/
theorem Divides.count_newline {bytes : List UInt8} {before after : List Stretch}
    (h : Divides bytes (before ++ after)) :
    (before.map Stretch.char).count '\n' = (before.flatMap Stretch.bytes).count 0x0A := by
  induction before generalizing bytes with
  | nil => rfl
  | cons stretch before ih =>
      cases h with
      | cons hSpelled later =>
          rw [List.map_cons, List.count_cons, List.flatMap_cons, List.count_append, ih later,
            hSpelled.count_newline, ← List.count_singleton, Nat.add_comm]
          rfl

end GrammarCheck.Text.Utf8
