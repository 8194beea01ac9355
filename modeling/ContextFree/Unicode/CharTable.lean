/-! Sets of characters given by sorted ranges of code points. -/
namespace ContextFree.Unicode

/-- Ranges of code points, both ends included, sorted and apart from each other. -/
structure CharTable where
  ranges : Array (Nat × Nat)
  deriving DecidableEq, Repr

namespace CharTable

/-- Halves the part of the table between two positions until one range is left. -/
def search (ranges : Array (Nat × Nat)) (code lo hi : Nat) : Bool :=
  if h : lo + 1 < hi then
    let mid := (lo + hi) / 2
    if (ranges[mid]?.getD (0, 0)).1 ≤ code then search ranges code mid hi
    else search ranges code lo mid
  else match ranges[lo]? with
    | some (first, last) => first ≤ code && code ≤ last
    | none => false
termination_by hi - lo

/-- Looks a character up by halving, since the ranges are sorted. -/
def contains (t : CharTable) (c : Char) : Bool := search t.ranges c.toNat 0 t.ranges.size

example : contains ⟨#[(48, 57), (97, 102)]⟩ 'a' ∧ contains ⟨#[(48, 57), (97, 102)]⟩ '9' := by
  decide +kernel

example : contains ⟨#[(48, 57), (97, 102)]⟩ 'g' = false ∧ contains ⟨#[]⟩ 'a' = false := by
  decide +kernel

end CharTable
end ContextFree.Unicode
