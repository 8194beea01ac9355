import ContextFree.NormalForm

/-! Scanning: every terminal that a rule mentions is tried at every character of a word. This is
the only part of recognition that calls matchers, and it calls them at boundaries only. -/
namespace ContextFree

/-- A match that ends at a boundary: the terminal's number, and how many characters it takes. -/
structure Match where
  term : Nat
  length : Nat
  deriving DecidableEq, Repr

/-- The boundaries of a word, and for each character the matches that start there. -/
structure Scan where
  bounds : List Nat
  rows : List (List Match)
  deriving DecidableEq, Repr

namespace Scan

def matchesAt (s : Scan) (i : Nat) : List Match := s.rows[i]?.getD []

/-- Whether some match takes a character. -/
def covers (s : Scan) (c : Nat) : Bool :=
  s.rows.zipIdx.any fun (row, i) => row.any fun m => i ≤ c && c < i + m.length

end Scan

/-- The matches of terminals at one character. A match that ends inside a character is dropped. -/
def scanAt [Pattern.Engine] (w : String) (bounds : List Nat) (i p : Nat) :
    List (Terminal × Nat) → Except Fault (List Match)
  | [] => .ok []
  | (t, number) :: ts => do
    let stop ← t.accept w p
    let rest ← scanAt w bounds i p ts
    match stop.bind bounds.idxOf? with
    | some j => pure (⟨number, j - i⟩ :: rest)
    | none => pure rest

namespace NormalForm

/-- The rules of each terminal, with their numbers, in order. -/
def termRules (nf : NormalForm) : Index Nat (NumberedRule × Nat) :=
  .ofList (nf.rules.zipIdx.filterMap fun (r, number) =>
    match r.body with
    | .term t => some (t, r, number)
    | .pair _ _ => none)

/-- The terminals that some rule mentions, with their numbers. -/
def usefulTerms (nf : NormalForm) : List (Terminal × Nat) :=
  let rules := nf.termRules
  nf.terms.toList.zipIdx.filter fun (_, t) => !(rules.get t).isEmpty

/-- Tries the useful terminals at every character of a word. -/
def scan [Pattern.Engine] (nf : NormalForm) (w : String) : Except Fault Scan := do
  let bounds := Text.bounds w
  let terms := nf.usefulTerms
  let rows ← bounds.dropLast.zipIdx.mapM fun (p, i) => scanAt w bounds i p terms
  pure ⟨bounds, rows⟩

end NormalForm
end ContextFree
