import GrammarCheck.Random.Source

/-! Choosing among finitely many things. -/

namespace GrammarCheck

/-- A way to choose one of `n` things, which takes what it needs from a state. -/
structure Chooser (σ : Type) where
  pick : (n : Nat) → 0 < n → σ → Fin n × σ

namespace DrawSource

variable {σ : Type}

/-- The highest low half that is accepted when one of `n` is chosen: `n` shifted up as far as it
goes in 32 bits, less one, so that the accepted draws are spread evenly over the choices. -/
def zone (n : Nat) : Nat := (n <<< (31 - n.log2) - 1) % UInt32.size

def accepts (n : Nat) (draw : UInt32) : Bool := draw.toNat * n % UInt32.size ≤ zone n

/-- The choice that a draw makes: the high half of its product with `n`. -/
def choice (n : Nat) (draw : UInt32) (h : 0 < n) : Fin n :=
  ⟨draw.toNat * n / UInt32.size, Nat.div_lt_of_lt_mul
    (Nat.mul_lt_mul_of_pos_right draw.toNat_lt h)⟩

/-- A zero is accepted, however many there are to choose from. -/
theorem accepts_zero (n : Nat) : accepts n 0 = true := by
  simp [accepts]

/-- Draws until a draw is accepted. A zero always is, so this ends. -/
def pick (source : DrawSource σ) (n : Nat) (h : 0 < n) (s : σ) : Fin n × σ :=
  let drawn := source.next s
  if _hAccepts : accepts n drawn.1 then (choice n drawn.1 h, drawn.2)
  else pick source n h drawn.2
termination_by source.wait s
decreasing_by
  apply source.wait_lt
  intro hZero
  exact _hAccepts (hZero ▸ accepts_zero n)

def chooser (source : DrawSource σ) : Chooser σ := ⟨source.pick⟩

end DrawSource

end GrammarCheck
