/-! Cells of a chart: for every non-terminal that derives a span, the ways in which it does. -/
namespace ContextFree

/-- One way for a non-terminal to derive a span. -/
inductive Back
  /-- By a rule whose terminal matches the whole span. -/
  | term (rule : Nat)
  /-- By a rule whose first non-terminal derives so many characters. -/
  | split (rule first : Nat)
  deriving DecidableEq, Repr

/-- How many ways are kept for a non-terminal: only the first one found, or all. -/
inductive Mode
  | first
  | exhaustive
  deriving DecidableEq, Repr

/-- Non-terminals in the order in which they were found, each with its ways in the same order. -/
abbrev Cell := List (Nat × List Back)

namespace Cell

/-- Records a way: the first one of a non-terminal always, a later one in exhaustive mode. -/
def record (mode : Mode) (a : Nat) (b : Back) : Cell → Cell
  | [] => [(a, [b])]
  | (a', bs) :: cell =>
    if a' = a then (a', if mode = .exhaustive then bs ++ [b] else bs) :: cell
    else (a', bs) :: record mode a b cell

/-- The cell of the ways found, in order. -/
def ofFound (mode : Mode) (found : List (Nat × Back)) : Cell :=
  found.foldl (fun cell (a, b) => record mode a b cell) []

/-- Whether a non-terminal is in the cell. -/
def has : Cell → Nat → Bool
  | [], _ => false
  | (a', _) :: cell, a => a' == a || has cell a

/-- The ways of a non-terminal, none if it is not in the cell. -/
def backs : Cell → Nat → List Back
  | [], _ => []
  | (a', bs) :: cell, a => if a' = a then bs else backs cell a

theorem backs_record_of_ne (mode : Mode) {a a' : Nat} (b : Back) (cell : Cell) (h : a' ≠ a) :
    (record mode a b cell).backs a' = cell.backs a' := by
  induction cell with
  | nil => simp [record, backs, h.symm]
  | cons e cell ih =>
    rw [record]
    split
    · rename_i he; simp [backs, he, h.symm]
    · rw [backs, backs, ih]

theorem backs_record_self (mode : Mode) (a : Nat) (b : Back) (cell : Cell) :
    (record mode a b cell).backs a =
      if cell.has a then (if mode = .exhaustive then cell.backs a ++ [b] else cell.backs a)
      else [b] := by
  induction cell with
  | nil => simp [record, backs, has]
  | cons e cell ih =>
    rw [record]
    by_cases h : e.1 = a
    · simp [backs, has, h]
    · simp [backs, has, h, ih]

example : ofFound .exhaustive [(2, .term 0), (1, .split 3 1), (2, .split 4 1)] =
    [(2, [.term 0, .split 4 1]), (1, [.split 3 1])] := by decide

example : ofFound .first [(2, .term 0), (1, .split 3 1), (2, .split 4 1)] =
    [(2, [.term 0]), (1, [.split 3 1])] := by decide

end Cell
end ContextFree
