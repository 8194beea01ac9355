/-! Syntax trees: inner nodes have a key, leaves hold a piece of the input. -/
namespace ContextFree

inductive SyntaxTree (κ ι : Type)
  | node (key : κ) (children : List (SyntaxTree κ ι))
  | leaf (piece : ι)
  deriving Repr

namespace SyntaxTree

variable {κ ι : Type}

mutual
/-- Trees are equal if their keys, children and pieces are. -/
def decEq [DecidableEq κ] [DecidableEq ι] : (s t : SyntaxTree κ ι) → Decidable (s = t)
  | node k ts, node l us =>
    match decEqAll ts us with
    | isTrue h => decidable_of_iff (k = l) (by simp [h])
    | isFalse h => isFalse (by simp [h])
  | leaf p, leaf q => decidable_of_iff (p = q) (by simp)
  | node _ _, leaf _ => isFalse (by simp)
  | leaf _, node _ _ => isFalse (by simp)
def decEqAll [DecidableEq κ] [DecidableEq ι] :
    (ss ts : List (SyntaxTree κ ι)) → Decidable (ss = ts)
  | [], [] => isTrue rfl
  | s :: ss, t :: ts =>
    match decEqAll ss ts with
    | isTrue h => match decEq s t with
      | isTrue h' => isTrue (by rw [h, h'])
      | isFalse h' => isFalse (by simp [h'])
    | isFalse h => isFalse (by simp [h])
  | [], _ :: _ => isFalse (by simp)
  | _ :: _, [] => isFalse (by simp)
end

instance [DecidableEq κ] [DecidableEq ι] : DecidableEq (SyntaxTree κ ι) := decEq

/-- What holds of a piece, and of a node if it holds of its children, holds of every tree. -/
@[elab_as_elim, induction_eliminator]
theorem induction {motive : SyntaxTree κ ι → Prop} (leaf : ∀ p, motive (leaf p))
    (node : ∀ k ts, (∀ t ∈ ts, motive t) → motive (node k ts)) : (t : SyntaxTree κ ι) → motive t
  | .leaf p => leaf p
  | .node k ts => node k ts fun t _ => induction leaf node t

def key? : SyntaxTree κ ι → Option κ
  | node k _ => some k
  | leaf _ => none

def children : SyntaxTree κ ι → List (SyntaxTree κ ι)
  | node _ ts => ts
  | leaf _ => []

def isLeaf : SyntaxTree κ ι → Bool
  | node _ _ => false
  | leaf _ => true

mutual
/-- The pieces, left to right. -/
def leaves : SyntaxTree κ ι → List ι
  | node _ ts => leavesOf ts
  | leaf p => [p]
def leavesOf : List (SyntaxTree κ ι) → List ι
  | [] => []
  | t :: ts => t.leaves ++ leavesOf ts
end

mutual
/-- Replaces keys and pieces. -/
def map {κ' ι' : Type} (f : κ → κ') (g : ι → ι') : SyntaxTree κ ι → SyntaxTree κ' ι'
  | node k ts => node (f k) (mapAll f g ts)
  | leaf p => leaf (g p)
def mapAll {κ' ι' : Type} (f : κ → κ') (g : ι → ι') :
    List (SyntaxTree κ ι) → List (SyntaxTree κ' ι')
  | [] => []
  | t :: ts => t.map f g :: mapAll f g ts
end

def mapKeys {κ' : Type} (f : κ → κ') (t : SyntaxTree κ ι) : SyntaxTree κ' ι := t.map f id

def mapLeaves {ι' : Type} (g : ι → ι') (t : SyntaxTree κ ι) : SyntaxTree κ ι' := t.map id g

mutual
/-- Removes every node whose key is not to be kept, with all below it. Nothing is left of a tree
whose root is removed; leaves stay. -/
def filter (keep : κ → Bool) : SyntaxTree κ ι → Option (SyntaxTree κ ι)
  | node k ts => if keep k then some (node k (filterAll keep ts)) else none
  | leaf p => some (leaf p)
def filterAll (keep : κ → Bool) : List (SyntaxTree κ ι) → List (SyntaxTree κ ι)
  | [] => []
  | t :: ts => (t.filter keep).toList ++ filterAll keep ts
end

mutual
/-- Replaces every node with one child that is a node by that child. Nodes right above a leaf
stay, so that leaves keep their key. -/
def compressed : SyntaxTree κ ι → SyntaxTree κ ι
  | node _ [node k ts] => (node k ts).compressed
  | node k ts => node k (compressedAll ts)
  | leaf p => leaf p
def compressedAll : List (SyntaxTree κ ι) → List (SyntaxTree κ ι)
  | [] => []
  | t :: ts => t.compressed :: compressedAll ts
end

mutual
/-- Replaces every node whose key is to explode by its children. The root may explode too. -/
def explode (burst : κ → Bool) : SyntaxTree κ ι → List (SyntaxTree κ ι)
  | node k ts =>
    let inner := explodeAll burst ts
    if burst k then inner else [node k inner]
  | leaf p => [leaf p]
def explodeAll (burst : κ → Bool) : List (SyntaxTree κ ι) → List (SyntaxTree κ ι)
  | [] => []
  | t :: ts => t.explode burst ++ explodeAll burst ts
end

example : (node "S" [leaf 1, node "T" [leaf 2]]).leaves = [1, 2] ∧
    (node "S" [node "T" [leaf 1]]).compressed = node "T" [leaf 1] ∧
    (node "S" [node "T" [leaf 1], leaf 2]).explode (· == "T") = [node "S" [leaf 1, leaf 2]] ∧
    (node "S" [node "T" [leaf 1], leaf 2]).filter (· == "S") = some (node "S" [leaf 2]) := by
  decide +kernel

theorem leavesOf_eq (ts : List (SyntaxTree κ ι)) : leavesOf ts = ts.flatMap leaves := by
  induction ts with
  | nil => rfl
  | cons t ts ih => simp [leavesOf, ih]

theorem mapAll_eq {κ' ι' : Type} (f : κ → κ') (g : ι → ι') (ts : List (SyntaxTree κ ι)) :
    mapAll f g ts = ts.map (map f g) := by
  induction ts with
  | nil => rfl
  | cons t ts ih => simp [mapAll, ih]

theorem filterAll_eq (keep : κ → Bool) (ts : List (SyntaxTree κ ι)) :
    filterAll keep ts = ts.filterMap (filter keep) := by
  induction ts with
  | nil => rfl
  | cons t ts ih => cases h : t.filter keep <;> simp [filterAll, ih, h]

theorem compressedAll_eq (ts : List (SyntaxTree κ ι)) :
    compressedAll ts = ts.map compressed := by
  induction ts with
  | nil => rfl
  | cons t ts ih => simp [compressedAll, ih]

theorem explodeAll_eq (burst : κ → Bool) (ts : List (SyntaxTree κ ι)) :
    explodeAll burst ts = ts.flatMap (explode burst) := by
  induction ts with
  | nil => rfl
  | cons t ts ih => simp [explodeAll, ih]

@[simp] theorem leaves_leaf (p : ι) : (leaf p : SyntaxTree κ ι).leaves = [p] := rfl

@[simp] theorem leaves_node (k : κ) (ts : List (SyntaxTree κ ι)) :
    (node k ts).leaves = ts.flatMap leaves :=
  leavesOf_eq ts

@[simp] theorem map_leaf {κ' ι' : Type} (f : κ → κ') (g : ι → ι') (p : ι) :
    (leaf p).map f g = leaf (g p) := rfl

@[simp] theorem map_node {κ' ι' : Type} (f : κ → κ') (g : ι → ι') (k : κ)
    (ts : List (SyntaxTree κ ι)) : (node k ts).map f g = node (f k) (ts.map (map f g)) := by
  rw [map, mapAll_eq]

@[simp] theorem filter_leaf (keep : κ → Bool) (p : ι) :
    (leaf p).filter keep = some (leaf p) := rfl

@[simp] theorem filter_node (keep : κ → Bool) (k : κ) (ts : List (SyntaxTree κ ι)) :
    (node k ts).filter keep =
      if keep k then some (node k (ts.filterMap (filter keep))) else none := by
  rw [filter, filterAll_eq]

@[simp] theorem compressed_leaf (p : ι) : (leaf p : SyntaxTree κ ι).compressed = leaf p := rfl

@[simp] theorem compressed_only (k l : κ) (us : List (SyntaxTree κ ι)) :
    (node k [node l us]).compressed = (node l us).compressed := by
  rw [compressed]

theorem compressed_node {k : κ} {ts : List (SyntaxTree κ ι)} (h : ∀ l us, ts ≠ [node l us]) :
    (node k ts).compressed = node k (ts.map compressed) := by
  rw [compressed, compressedAll_eq]
  exact fun l us hts => h l us hts

@[simp] theorem explode_leaf (burst : κ → Bool) (p : ι) : (leaf p).explode burst = [leaf p] := rfl

@[simp] theorem explode_node (burst : κ → Bool) (k : κ) (ts : List (SyntaxTree κ ι)) :
    (node k ts).explode burst =
      if burst k then ts.flatMap (explode burst) else [node k (ts.flatMap (explode burst))] := by
  rw [explode, explodeAll_eq]

section Replacing
variable {κ' ι' : Type}

theorem map_comp {κ₂ ι₂ : Type} (f : κ → κ') (g : ι → ι') (f' : κ' → κ₂) (g' : ι' → ι₂)
    (t : SyntaxTree κ ι) : (t.map f g).map f' g' = t.map (f' ∘ f) (g' ∘ g) := by
  induction t with
  | leaf p => rfl
  | node k ts ih =>
    rw [map_node, map_node, map_node, List.map_map]
    exact congrArg (node (f' (f k))) (List.map_congr_left ih)

mutual
theorem eq_of_map_eq {f : κ → κ'} {g : ι → ι'} (hf : Function.Injective f)
    (hg : Function.Injective g) : (s t : SyntaxTree κ ι) → s.map f g = t.map f g → s = t
  | leaf p, leaf q, h => by
    rw [map_leaf, map_leaf, leaf.injEq] at h
    rw [hg h]
  | node k ss, node l ts, h => by
    rw [map, map, node.injEq] at h
    rw [hf h.1, eq_of_mapAll_eq hf hg ss ts h.2]
  | leaf p, node l ts, h => by simp at h
  | node k ss, leaf q, h => by simp at h
theorem eq_of_mapAll_eq {f : κ → κ'} {g : ι → ι'} (hf : Function.Injective f)
    (hg : Function.Injective g) :
    (ss ts : List (SyntaxTree κ ι)) → mapAll f g ss = mapAll f g ts → ss = ts
  | [], [], _ => rfl
  | s :: ss, t :: ts, h => by
    rw [mapAll, mapAll, List.cons.injEq] at h
    rw [eq_of_map_eq hf hg s t h.1, eq_of_mapAll_eq hf hg ss ts h.2]
  | [], t :: ts, h => by simp [mapAll] at h
  | s :: ss, [], h => by simp [mapAll] at h
end

/-- Where keys and pieces are kept apart, different trees stay different. -/
theorem map_injective {f : κ → κ'} {g : ι → ι'} (hf : Function.Injective f)
    (hg : Function.Injective g) : Function.Injective (map f g) :=
  fun s t => eq_of_map_eq hf hg s t

end Replacing

end SyntaxTree
end ContextFree
