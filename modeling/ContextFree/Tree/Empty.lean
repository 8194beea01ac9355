import ContextFree.Chart.Cell
import ContextFree.Nilability
import ContextFree.Tree.Arena
import ContextFree.Tree.Text

/-! Empty trees: the derivations of the empty word in which no non-terminal is its own
descendant. They take no part of the input, so they fit at every offset. -/
namespace ContextFree

/-- Every way to pick one element from each list; the last pick changes first. -/
def picks {α : Type} : List (List α) → List (List α)
  | [] => [[]]
  | l :: ls =>
    let rest := picks ls
    l.flatMap fun a => rest.map (a :: ·)

/-- A list without elements leaves no way to pick. -/
theorem picks_eq_nil {α : Type} {ls : List (List α)} : picks ls = [] ↔ [] ∈ ls := by
  induction ls with
  | nil => simp [picks]
  | cons l ls ih =>
    cases l with
    | nil => simp [picks]
    | cons a l =>
      simp only [picks, List.flatMap_cons, List.append_eq_nil_iff, List.map_eq_nil_iff, ih,
        List.flatMap_eq_nil_iff, List.mem_cons, reduceCtorEq, false_or]
      exact ⟨fun h => h.1, fun h => ⟨h, fun _ _ => h⟩⟩

example : picks [[1, 2], [3], [4, 5]] = [[1, 3, 4], [1, 3, 5], [2, 3, 4], [2, 3, 5]] := by decide

/-- A tree of empty leaves. -/
abbrev EmptyTree := SyntaxTree String Unit

/-- The tree where the empty leaves stand at an offset. -/
def EmptyTree.place (p : Nat) (t : EmptyTree) : ParseTree := t.mapLeaves fun _ => ⟨p, p⟩

namespace Grammar

/-- The empty trees of a non-terminal below which only free non-terminals occur, each at most once
on the way down. The first one follows the proofs of nilability; with one derivation a cell it
is the only one. -/
def emptyTreesBelow (g : Grammar) (proofs : EmptyProofs) (mode : Mode) (free : List String)
    (name : String) : List EmptyTree :=
  match proofs.proof? name with
  | none => []
  | some e =>
    let productions := if mode = .first then [e.production] else g.proofFirst e
    distinctTrees (productions.flatMap fun p =>
      (picks (p.rhs.map fun x => match x with
        | .term t => if t.isEmpty then [.leaf ()] else []
        | .nonterm child =>
          if _h : child ∈ free then g.emptyTreesBelow proofs mode (free.erase child) child
          else [])).map (.node name))
termination_by free.length
decreasing_by exact length_erase_lt _h

/-- The empty trees of a non-terminal. -/
def emptyTrees (g : Grammar) (proofs : EmptyProofs) (mode : Mode) (name : String) :
    List EmptyTree :=
  g.emptyTreesBelow proofs mode ((proofs.toList.map (·.production.lhs)).erase name) name

end Grammar
end ContextFree
