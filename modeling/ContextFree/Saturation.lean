/-! Saturation: something grows, round after round, until a round adds nothing. -/
namespace ContextFree

variable {σ : Type} {size : σ → Nat}

/-- Repeats a round that never loses anything, at most so many times, and stops when the size
stays. -/
def saturate (size : σ → Nat) (round : σ → σ) : Nat → σ → σ
  | 0, s => s
  | fuel + 1, s =>
    let next := round s
    if size next = size s then s else saturate size round fuel next

/-- What one round preserves, saturation preserves. -/
theorem saturate_induction {round : σ → σ} {P : σ → Prop} (h : ∀ s, P s → P (round s))
    (fuel : Nat) {s : σ} (hs : P s) : P (saturate size round fuel s) := by
  induction fuel generalizing s with
  | zero => exact hs
  | succ fuel ih =>
    rw [saturate]
    split
    · exact hs
    · exact ih (h s hs)

/-- If rounds never lose anything and no size exceeds the fuel, saturation ends where another
round adds nothing. -/
theorem size_round_saturate {round : σ → σ} {P : σ → Prop} {bound : Nat}
    (h : ∀ s, P s → P (round s)) (grow : ∀ s, P s → size s ≤ size (round s))
    (small : ∀ s, P s → size s ≤ bound) (fuel : Nat) {s : σ} (hs : P s)
    (enough : bound ≤ size s + fuel) :
    size (round (saturate size round fuel s)) = size (saturate size round fuel s) := by
  induction fuel generalizing s with
  | zero =>
    rw [saturate]
    have h1 := grow s hs
    have h2 := small _ (h s hs)
    omega
  | succ fuel ih =>
    rw [saturate]
    split
    · assumption
    · rename_i hne
      have h1 := grow s hs
      exact ih (h s hs) (by omega)

end ContextFree
