/-! Triangular storage. The spans of a word of so many characters are pairs of a first character
and a positive length; they are stored by length, and spans of one length by first character. -/
namespace ContextFree.Triangle

/-- The spans of a word, in the order of storage. -/
def spans (n : Nat) : List (Nat × Nat) :=
  (List.range' 1 n).flatMap fun l => (List.range (n + 1 - l)).map fun i => (i, l)

/-- The place of a span. -/
def index (n i l : Nat) : Nat := (l - 1) * (2 * n - l + 2) / 2 + i

example : (spans 4).map (fun s => index 4 s.1 s.2) = List.range 10 := by decide

example : spans 2 = [(0, 1), (1, 1), (0, 2)] ∧ spans 0 = [] := by decide

end ContextFree.Triangle
