import ContextFree.Register
import ContextFree.SyntaxError
import ContextFree.Tree

/-! Arenas. Trees are taken apart into entries whose children go by number; equal entries share a
number, so equal trees do, and comparing trees is comparing numbers. -/
namespace ContextFree

/-- A leaf, or a node whose children are entries that were numbered before it. -/
inductive Arena.Entry (κ ι : Type)
  | leaf (piece : ι)
  | node (key : κ) (children : List Nat)
  deriving DecidableEq, Repr

variable {κ ι : Type} [DecidableEq κ] [DecidableEq ι] [Coded κ] [Coded ι]

instance : Coded (Arena.Entry κ ι) where
  code
    | .leaf piece => Coded.code piece
    | .node key children => Coded.code (key, children)

instance : Coded Span := ⟨fun s => Coded.code (s.start, s.stop)⟩

/-- Entries, each with its place as its number. -/
abbrev Arena (κ ι : Type) [DecidableEq κ] [DecidableEq ι] [Coded κ] [Coded ι] :=
  Roster (Arena.Entry κ ι)

namespace Arena

def empty : Arena κ ι := Register.empty

/-- The number of an entry, which is new if the entry is. -/
def intern (a : Arena κ ι) (e : Entry κ ι) : Nat × Arena κ ι := (a.placeOf e, a.enter e)

mutual
/-- The number of a tree. -/
def internTree (a : Arena κ ι) : SyntaxTree κ ι → Nat × Arena κ ι
  | .leaf p => a.intern (.leaf p)
  | .node k ts =>
    let r := a.internAll ts
    r.2.intern (.node k r.1)
def internAll (a : Arena κ ι) : List (SyntaxTree κ ι) → List Nat × Arena κ ι
  | [] => ([], a)
  | t :: ts =>
    let r := a.internTree t
    let rs := r.2.internAll ts
    (r.1 :: rs.1, rs.2)
end

/-- The tree of a number, whose children have smaller numbers. -/
def tree? (a : Arena κ ι) (number : Nat) : Option (SyntaxTree κ ι) :=
  match a.toList[number]? with
  | none => none
  | some (.leaf p) => some (.leaf p)
  | some (.node k children) =>
    (children.mapM fun c => if _h : c < number then a.tree? c else none).map (.node k)
termination_by number

/-- The numbers of lists of trees, in one arena. -/
def internLists (a : Arena κ ι) : List (List (SyntaxTree κ ι)) → List (List Nat)
  | [] => []
  | ts :: rest =>
    let r := a.internAll ts
    r.1 :: r.2.internLists rest

@[simp] theorem length_internLists (a : Arena κ ι) (l : List (List (SyntaxTree κ ι))) :
    (a.internLists l).length = l.length := by
  induction l generalizing a with
  | nil => rfl
  | cons ts l ih => simp [internLists, ih]

end Arena

/-- Keeps an element if no element before it has the same trees and the same label. -/
def distinctByTrees {α β : Type} [DecidableEq β] [Coded β]
    (trees : α → List (SyntaxTree κ ι)) (label : α → β) (l : List α) : List α :=
  match l with
  | [] => []
  | [a] => [a]
  | l =>
    let numbers := (Arena.empty : Arena κ ι).internLists (l.map trees)
    (Register.ofList (fun e => (e.1, label e.2)) (numbers.zip l)).toList.map (·.2)

/-- The trees of a list, each once. -/
def distinctTrees (l : List (SyntaxTree κ ι)) : List (SyntaxTree κ ι) :=
  distinctByTrees (fun t => [t]) (fun _ => ()) l

end ContextFree
