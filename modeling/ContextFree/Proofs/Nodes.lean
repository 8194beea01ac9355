import ContextFree.Tree
import Mathlib.Data.List.Basic

/-! Trees as lists: the nodes in preorder, and the leaves with the keys on the way down to them. -/
namespace ContextFree.SyntaxTree

variable {κ ι : Type}

mutual
/-- The nodes by key and children, each before those below it. -/
def nodes : SyntaxTree κ ι → List (κ × List (SyntaxTree κ ι))
  | node k ts => (k, ts) :: nodesOf ts
  | leaf _ => []
def nodesOf : List (SyntaxTree κ ι) → List (κ × List (SyntaxTree κ ι))
  | [] => []
  | t :: ts => t.nodes ++ nodesOf ts
end

/-- The keys in preorder. -/
def keys (t : SyntaxTree κ ι) : List κ := t.nodes.map (·.1)

mutual
/-- The leaves, left to right, each with the keys above it, the outermost first. -/
def paths : SyntaxTree κ ι → List (List κ × ι)
  | node k ts => (pathsOf ts).map fun a => (k :: a.1, a.2)
  | leaf p => [([], p)]
def pathsOf : List (SyntaxTree κ ι) → List (List κ × ι)
  | [] => []
  | t :: ts => t.paths ++ pathsOf ts
end

/-- The leaves, each with the key of its parent, if it has one. -/
def keyedLeaves (t : SyntaxTree κ ι) : List (Option κ × ι) :=
  t.paths.map fun a => (a.1.getLast?, a.2)

example : (node "S" [leaf 1, node "T" [leaf 2], node "U" []]).keys = ["S", "T", "U"] ∧
    (node "S" [leaf 1, node "T" [leaf 2]]).paths = [(["S"], 1), (["S", "T"], 2)] ∧
    (node "S" [leaf 1, node "T" [leaf 2]]).keyedLeaves = [(some "S", 1), (some "T", 2)] := by
  decide

theorem nodesOf_eq (ts : List (SyntaxTree κ ι)) : nodesOf ts = ts.flatMap nodes := by
  induction ts with
  | nil => rfl
  | cons t ts ih => simp [nodesOf, ih]

theorem pathsOf_eq (ts : List (SyntaxTree κ ι)) : pathsOf ts = ts.flatMap paths := by
  induction ts with
  | nil => rfl
  | cons t ts ih => simp [pathsOf, ih]

@[simp] theorem nodes_leaf (p : ι) : (leaf p : SyntaxTree κ ι).nodes = [] := rfl

@[simp] theorem nodes_node (k : κ) (ts : List (SyntaxTree κ ι)) :
    (node k ts).nodes = (k, ts) :: ts.flatMap nodes := by
  rw [nodes, nodesOf_eq]

@[simp] theorem paths_leaf (p : ι) : (leaf p : SyntaxTree κ ι).paths = [([], p)] := rfl

@[simp] theorem paths_node (k : κ) (ts : List (SyntaxTree κ ι)) :
    (node k ts).paths = (ts.flatMap paths).map fun a => (k :: a.1, a.2) := by
  rw [paths, pathsOf_eq]

@[simp] theorem keyedLeaves_leaf (p : ι) :
    (leaf p : SyntaxTree κ ι).keyedLeaves = [(none, p)] := rfl

/-- A leaf right below a node has its key; those further below keep theirs. -/
@[simp] theorem keyedLeaves_node (k : κ) (ts : List (SyntaxTree κ ι)) :
    (node k ts).keyedLeaves =
      ts.flatMap fun t => t.keyedLeaves.map fun a => (some (a.1.getD k), a.2) := by
  simp [keyedLeaves, List.map_flatMap, List.getLast?_cons, Function.comp_def]

/-- Paths lead to the leaves. -/
theorem map_paths (t : SyntaxTree κ ι) : t.paths.map (·.2) = t.leaves := by
  induction t with
  | leaf p => rfl
  | node k ts ih =>
    rw [paths_node, leaves_node, List.map_map, List.map_flatMap]
    exact List.flatMap_congr ih

theorem map_keyedLeaves (t : SyntaxTree κ ι) : t.keyedLeaves.map (·.2) = t.leaves := by
  rw [keyedLeaves, List.map_map]
  exact t.map_paths

end ContextFree.SyntaxTree
