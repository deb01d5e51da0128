/-! Sources of random draws. A source is a step function on its state; nothing is random about it,
so whatever is said of all sources holds however the draws fall. -/

namespace GrammarCheck

/-- A source of 32-bit draws that gives a zero again and again: `wait` bounds how many other draws
can come before the next one. -/
structure DrawSource (σ : Type) where
  next : σ → UInt32 × σ
  wait : σ → Nat
  wait_lt : ∀ s, (next s).1 ≠ 0 → wait (next s).2 < wait s

namespace DrawSource

/-- The draws of a script, and only zeros after it. -/
def nextScripted : List UInt32 → UInt32 × List UInt32
  | [] => (0, [])
  | draw :: draws => (draw, draws)

def scripted : DrawSource (List UInt32) where
  next := nextScripted
  wait := List.length
  wait_lt
    | [], h => absurd rfl h
    | _ :: _, _ => Nat.lt_succ_self _

/-- The same source with a count of the draws taken. -/
def counted {σ : Type} (source : DrawSource σ) : DrawSource (σ × Nat) where
  next s := ((source.next s.1).1, ((source.next s.1).2, s.2 + 1))
  wait s := source.wait s.1
  wait_lt s h := source.wait_lt s.1 h

end DrawSource

/-! The generator SplitMix64 is a counter with an odd increment whose values are mixed. The counter
comes to zero once in each round, and there the draw is zero. -/

namespace SplitMix

def increment : UInt64 := 0x9E3779B97F4A7C15

/-- The inverse of the increment, which tells how far the counter is from a given value. -/
def inverse : UInt64 := 0xF1DE83E19937733D

/-- Mixes the bits of a counter value. -/
def mix (z : UInt64) : UInt64 :=
  let z := (z ^^^ (z >>> 30)) * 0xBF58476D1CE4E5B9
  let z := (z ^^^ (z >>> 27)) * 0x94D049BB133111EB
  z ^^^ (z >>> 31)

/-- Advances the counter and draws the upper half of its mixed value. -/
def next (s : UInt64) : UInt32 × UInt64 :=
  ((mix (s + increment) >>> 32).toUInt32, s + increment)

/-- How many steps remain until the counter is zero, less one. -/
def wait (s : UInt64) : Nat := (-(s + increment) * inverse).toNat

theorem increment_mul_inverse : increment * inverse = 1 := by decide

/-- Zero is mixed to zero, so a draw that is not zero comes from another counter value. -/
theorem add_increment_ne_zero {s : UInt64} (h : (next s).1 ≠ 0) : s + increment ≠ 0 := by
  intro hZero
  apply h
  simp only [next, hZero]
  decide

/-- Each step that does not lead to zero leads one nearer to it. -/
theorem wait_next_lt (s : UInt64) (h : (next s).1 ≠ 0) : wait (next s).2 < wait s := by
  have hNext := add_increment_ne_zero h
  have hInverse := increment_mul_inverse
  have hStep : -(s + increment + increment) * inverse = -(s + increment) * inverse - 1 := by
    grind
  have hWait : -(s + increment) * inverse ≠ 0 := by
    intro hZero
    apply hNext
    grind
  have hPos : 1 ≤ (-(s + increment) * inverse).toNat := by
    rcases Nat.eq_zero_or_pos (-(s + increment) * inverse).toNat with hZero | hPos
    · exact absurd (UInt64.toNat_inj.1 hZero) hWait
    · exact hPos
  have hOne : (1 : UInt64) ≤ -(s + increment) * inverse := UInt64.le_iff_toNat_le.2 hPos
  show (-(s + increment + increment) * inverse).toNat < (-(s + increment) * inverse).toNat
  rw [hStep, UInt64.toNat_sub_of_le _ _ hOne]
  exact Nat.sub_lt hPos Nat.one_pos

/-- The generator as a source; its state is the counter. -/
def source : DrawSource UInt64 := ⟨next, wait, wait_next_lt⟩

end SplitMix

end GrammarCheck
