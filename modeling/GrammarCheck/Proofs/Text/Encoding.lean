import GrammarCheck.Text.Utf8
import Mathlib.Data.List.Infix
import Mathlib.Tactic.SplitIfs

/-! The bytes that encode a character in UTF-8. The first byte tells how many follow it, and each of
these holds six bits of the code point. So no encoding begins another one, and a newline is in no
encoding but its own. -/

namespace GrammarCheck.Text.Utf8

/-- A code point without its last `n` groups of six bits. -/
def upper : Nat → Nat → Nat
  | 0, v => v
  | n + 1, v => upper n v / 64

/-- The last `n` bytes in the encoding of a code point. -/
def lower : Nat → Nat → List UInt8
  | 0, _ => []
  | n + 1, v => UInt8.ofNat (upper n v % 64 + 0x80) :: lower n v

def following (v : Nat) : Nat :=
  if v ≤ 0x7F then 0 else if v ≤ 0x7FF then 1 else if v ≤ 0xFFFF then 2 else 3

/-- What marks a first byte that `n` others follow. -/
def mark : Nat → Nat
  | 0 => 0
  | 1 => 0xC0
  | 2 => 0xE0
  | _ => 0xF0

def first (v : Nat) : Nat := upper (following v) v + mark (following v)

/-- A character is no surrogate, and not beyond the last code point. -/
theorem toNat_valid (c : Char) : c.toNat < 0xD800 ∨ 0xDFFF < c.toNat ∧ c.toNat < 0x110000 :=
  c.valid

theorem upper_of_pos {n : Nat} (h : 0 < n) (v : Nat) : upper n v = upper (n - 1) v / 64 := by
  obtain ⟨m, rfl⟩ := Nat.exists_eq_add_of_lt h
  simp [upper]

theorem lower_of_pos {n : Nat} (h : 0 < n) (v : Nat) :
    lower n v = UInt8.ofNat (upper (n - 1) v % 64 + 0x80) :: lower (n - 1) v := by
  obtain ⟨m, rfl⟩ := Nat.exists_eq_add_of_lt h
  simp [lower]

/-- Every number is what remains of some code point without its last groups. -/
theorem exists_upper_eq (n w : Nat) : ∃ v, upper n v = w := by
  induction n generalizing w with
  | zero => exact ⟨w, rfl⟩
  | succ n ih =>
      obtain ⟨v, hUpper⟩ := ih (w * 64)
      exact ⟨v, by rw [upper, hUpper, Nat.mul_div_cancel w (by decide)]⟩

theorem first_lt (c : Char) : first c.toNat < 256 := by
  have hc := toNat_valid c
  unfold first following
  split_ifs <;> simp only [upper, mark] <;> omega

/-- The four forms of an encoding as one. -/
theorem utf8EncodeChar_eq (c : Char) : String.utf8EncodeChar c =
    UInt8.ofNat (first c.toNat) :: lower (following c.toNat) c.toNat := by
  have hc := toNat_valid c
  have hv : c.val.toNat = c.toNat := rfl
  unfold String.utf8EncodeChar first following
  simp only [hv]
  generalize c.toNat = v at hc ⊢
  split_ifs <;> simp only [upper, lower, mark, Nat.div_div_eq_div_mul, Nat.reduceMul]
  · rfl
  · rw [Nat.mod_eq_of_lt (by omega : v / 64 < 0x20)]
  · rw [Nat.mod_eq_of_lt (by omega : v / 4096 < 0x10)]
  · rw [Nat.mod_eq_of_lt (by omega : v / 262144 < 8)]

/-- An encoding begins with the byte that its code point tells. -/
theorem singleton_prefix_iff {b : UInt8} {c : Char} :
    [b] <+: String.utf8EncodeChar c ↔ first c.toNat = b.toNat := by
  rw [utf8EncodeChar_eq, List.cons_prefix_cons, and_iff_left List.nil_prefix]
  constructor
  · rintro rfl
    exact (UInt8.toNat_ofNat_of_lt' (first_lt c)).symm
  · intro hFirst
    rw [hFirst, UInt8.ofNat_toNat]

/-- Encodings that begin in the same way are the same. -/
theorem utf8EncodeChar_prefix_inj {c d : Char}
    (h : String.utf8EncodeChar c <+: String.utf8EncodeChar d) : c = d := by
  obtain ⟨rest, hRest⟩ := h
  have hFirst : (String.utf8EncodeChar d).toByteArray.utf8DecodeChar? 0 = some c := by
    rw [← hRest, List.toByteArray_append]
    exact ByteArray.utf8DecodeChar?_utf8EncodeChar_append
  have hSecond : (String.utf8EncodeChar d).toByteArray.utf8DecodeChar? 0 = some d := by
    have hAlone := ByteArray.utf8DecodeChar?_utf8EncodeChar_append (b := .empty) (c := d)
    rwa [ByteArray.append_empty] at hAlone
  exact Option.some.inj (hFirst.symm.trans hSecond)

/-- Every byte behind the first one is marked as such. -/
theorem le_toNat_of_mem_lower {b : UInt8} {n v : Nat} (h : b ∈ lower n v) : 0x80 ≤ b.toNat := by
  induction n with
  | zero => cases h
  | succ n ih =>
      rcases List.mem_cons.1 h with rfl | hMem
      · rw [UInt8.toNat_ofNat']
        omega
      · exact ih hMem

theorem utf8EncodeChar_newline : String.utf8EncodeChar '\n' = [0x0A] := by decide

/-- A first byte without a mark is the whole code point. -/
theorem first_eq_of_lt {v : Nat} (h : first v < 0x80) : first v = v := by
  revert h
  unfold first following
  split_ifs <;> simp only [upper, mark] <;> omega

/-- The byte of a newline is in no other encoding. -/
theorem eq_newline_of_mem {c : Char} (h : 0x0A ∈ String.utf8EncodeChar c) : c = '\n' := by
  rw [utf8EncodeChar_eq] at h
  rcases List.mem_cons.1 h with hFirst | hLater
  · have hTen : 0x0A = first c.toNat := by
      have hNat := congrArg UInt8.toNat hFirst
      rwa [UInt8.toNat_ofNat_of_lt' (first_lt c)] at hNat
    have hSame := first_eq_of_lt (hTen ▸ (by decide : 0x0A < 0x80))
    exact Char.toNat_inj.1 (hSame.symm.trans hTen.symm)
  · exact absurd (le_toNat_of_mem_lower hLater) (by decide)

end GrammarCheck.Text.Utf8
