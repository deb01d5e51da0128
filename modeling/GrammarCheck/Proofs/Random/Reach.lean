import GrammarCheck.Random.Choice
import Mathlib.Data.Nat.Basic

/-! Scripts of draws. Among fewer things than there are draws, each of them is chosen for some draw:
the first one whose product with their number comes to the right high half. Its low half is below
that number, so the draw is accepted. -/

namespace GrammarCheck

/-- Whether each of `n` things is chosen for some script, whatever is drawn after it. -/
def Chooser.Reaches {δ : Type} (chooser : Chooser (List δ)) (n : Nat) : Prop :=
  ∀ (h : 0 < n) (i : Fin n), ∃ script, ∀ more, chooser.pick n h (script ++ more) = (i, more)

namespace DrawSource

/-- The lowest half that is rejected lies above the number of choices. -/
theorem le_zone {n : Nat} (h : 0 < n) (hSize : n < UInt32.size) : n ≤ zone n + 1 := by
  have hBits : n.log2 < 32 := (Nat.log2_lt (by omega)).2 hSize
  have hLess : n < 2 ^ (n.log2 + 1) := Nat.lt_log2_self
  have hShift : n <<< (31 - n.log2) < UInt32.size := by
    rw [Nat.shiftLeft_eq]
    calc n * 2 ^ (31 - n.log2) < 2 ^ (n.log2 + 1) * 2 ^ (31 - n.log2) :=
          Nat.mul_lt_mul_of_pos_right hLess (Nat.two_pow_pos _)
      _ = UInt32.size := by
          have hSum : n.log2 + 1 + (31 - n.log2) = 32 := by omega
          rw [← Nat.pow_add, hSum]
  have hLarge : n ≤ n <<< (31 - n.log2) := by
    rw [Nat.shiftLeft_eq]
    exact Nat.le_mul_of_pos_right n (Nat.two_pow_pos _)
  rw [zone, Nat.mod_eq_of_lt (by omega)]
  omega

/-- The first draw whose product with `n` has a given high half. -/
theorem exists_product {n i : Nat} (h : i < n) (hSize : n < UInt32.size) :
    ∃ draw < UInt32.size, draw * n / UInt32.size = i ∧ draw * n % UInt32.size < n := by
  have hUpper := Nat.div_mul_le_self (i * UInt32.size + (n - 1)) n
  have hLower := Nat.lt_div_mul_add (a := i * UInt32.size + (n - 1)) (b := n) (by omega)
  generalize (i * UInt32.size + (n - 1)) / n = draw at hUpper hLower
  have hBelow : (i + 1) * UInt32.size ≤ n * UInt32.size := Nat.mul_le_mul_right _ h
  rw [Nat.succ_mul] at hBelow
  obtain ⟨low, hProduct⟩ : ∃ low, draw * n = low + i * UInt32.size :=
    ⟨draw * n - i * UInt32.size, by omega⟩
  have hLow : low < n := by omega
  refine ⟨draw, ?_, ?_, ?_⟩
  · apply Nat.lt_of_mul_lt_mul_right (a := n)
    rw [Nat.mul_comm UInt32.size n]
    omega
  · rw [hProduct, Nat.add_mul_div_right _ _ (by decide), Nat.div_eq_of_lt (by omega), Nat.zero_add]
  · rw [hProduct, Nat.add_mul_mod_self_right, Nat.mod_eq_of_lt (by omega)]
    exact hLow

/-- Each of `n` choices is made by some draw that is accepted. -/
theorem exists_draw {n : Nat} (h : 0 < n) (hSize : n < UInt32.size) (i : Fin n) :
    ∃ draw, accepts n draw = true ∧ choice n draw h = i := by
  obtain ⟨draw, hDraw, hHigh, hLow⟩ := exists_product i.isLt hSize
  have hZone := le_zone h hSize
  have hSame : (UInt32.ofNat draw).toNat = draw := UInt32.toNat_ofNat_of_lt' hDraw
  refine ⟨UInt32.ofNat draw, ?_, ?_⟩
  · rw [accepts, hSame, decide_eq_true_eq]
    omega
  · apply Fin.ext
    change (UInt32.ofNat draw).toNat * n / UInt32.size = i
    rw [hSame, hHigh]

/-- With a script every choice can be made in one draw. -/
theorem reaches_scripted {n : Nat} (hSize : n < UInt32.size) : scripted.chooser.Reaches n := by
  intro h i
  obtain ⟨draw, hAccepts, hChoice⟩ := exists_draw h hSize i
  refine ⟨[draw], fun more => ?_⟩
  have hNext : scripted.next ([draw] ++ more) = (draw, more) := rfl
  change scripted.pick n h ([draw] ++ more) = (i, more)
  rw [pick]
  simp only [hNext]
  rw [dif_pos hAccepts, hChoice]

end DrawSource

end GrammarCheck
