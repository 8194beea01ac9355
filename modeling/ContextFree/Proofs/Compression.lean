import ContextFree.Proofs.Nodes
import ContextFree.Tree.Text
import Mathlib.Logic.Relation

/-! Compressed trees. A node whose only child is a node collapses onto that child. However one goes
about it, the tree in the end is the compressed one, and every leaf keeps the key of its parent. -/
namespace ContextFree

namespace SyntaxTree
variable {κ ι : Type}

/-- No node has one child that is a node, and no other. -/
def Compact (t : SyntaxTree κ ι) : Prop := ∀ k l us, (k, [node l us]) ∉ t.nodes

theorem compact_leaf (p : ι) : (leaf p : SyntaxTree κ ι).Compact := fun _ _ _ h => by cases h

theorem compact_node {k : κ} {ts : List (SyntaxTree κ ι)} :
    (node k ts).Compact ↔ (∀ l us, ts ≠ [node l us]) ∧ ∀ t ∈ ts, t.Compact := by
  rw [Compact, nodes_node]
  constructor
  · intro h
    exact ⟨fun l us hts => h k l us (hts ▸ List.mem_cons_self), fun t ht k l us hn =>
      h k l us (.tail _ (List.mem_flatMap.2 ⟨t, ht, hn⟩))⟩
  · rintro ⟨hts, hcompact⟩ k' l us hn
    rcases List.mem_cons.1 hn with he | hn
    · exact hts l us (congrArg Prod.snd he).symm
    · obtain ⟨t, ht, hn⟩ := List.mem_flatMap.1 hn
      exact hcompact t ht k' l us hn

/-- Trees in the cases of compression: a node may have one child that is a node, or not. -/
@[elab_as_elim]
theorem compressed_induction {motive : SyntaxTree κ ι → Prop} (leaf : ∀ p, motive (leaf p))
    (only : ∀ k l us, motive (node l us) → motive (node k [node l us]))
    (other : ∀ k ts, (∀ l us, ts ≠ [node l us]) → (∀ t ∈ ts, motive t) → motive (node k ts))
    (t : SyntaxTree κ ι) : motive t := by
  induction t with
  | leaf p => exact leaf p
  | node k ts ih =>
    by_cases h : ∃ l us, ts = [node l us]
    · obtain ⟨l, us, rfl⟩ := h
      exact only k l us (ih _ List.mem_cons_self)
    · exact other k ts (fun l us hts => h ⟨l, us, hts⟩) ih

theorem isLeaf_compressed (t : SyntaxTree κ ι) : t.compressed.isLeaf = t.isLeaf := by
  induction t using compressed_induction with
  | leaf p => rfl
  | only k l us ih => rwa [compressed_only]
  | other k ts h ih => rw [compressed_node h, isLeaf, isLeaf]

theorem isLeaf_map {κ' ι' : Type} (f : κ → κ') (g : ι → ι') (t : SyntaxTree κ ι) :
    (t.map f g).isLeaf = t.isLeaf := by
  cases t <;> rfl

/-- Where leaves and nodes stay such, no only child becomes a node. -/
theorem map_ne_only {κ' ι' : Type} {F : SyntaxTree κ ι → SyntaxTree κ' ι'}
    (hF : ∀ t, (F t).isLeaf = t.isLeaf) {ts : List (SyntaxTree κ ι)}
    (h : ∀ l us, ts ≠ [node l us]) (l : κ') (us : List (SyntaxTree κ' ι')) :
    ts.map F ≠ [node l us] := by
  intro hmap
  obtain ⟨t, rfl, ht⟩ := List.map_eq_singleton_iff.1 hmap
  have hleaf := hF t
  rw [ht] at hleaf
  cases t with
  | leaf p => cases hleaf
  | node l' us' => exact h l' us' rfl

theorem compact_compressed (t : SyntaxTree κ ι) : t.compressed.Compact := by
  induction t using compressed_induction with
  | leaf p => exact compact_leaf p
  | only k l us ih => rwa [compressed_only]
  | other k ts h ih =>
    rw [compressed_node h, compact_node]
    exact ⟨map_ne_only isLeaf_compressed h, List.forall_mem_map.2 ih⟩

/-- Nothing is left to collapse in a compact tree. -/
theorem Compact.compressed_eq {t : SyntaxTree κ ι} (h : t.Compact) : t.compressed = t := by
  induction t with
  | leaf p => rfl
  | node k ts ih =>
    obtain ⟨hts, hcompact⟩ := compact_node.1 h
    rw [compressed_node hts, List.map_congr_left fun t ht => ih t ht (hcompact t ht), List.map_id']

theorem compressed_map {κ' ι' : Type} (f : κ → κ') (g : ι → ι') (t : SyntaxTree κ ι) :
    (t.map f g).compressed = t.compressed.map f g := by
  induction t using compressed_induction with
  | leaf p => rfl
  | only k l us ih =>
    rw [map_node, List.map_singleton, compressed_only, ← ih, map_node, compressed_only]
  | other k ts h ih =>
    rw [map_node, compressed_node (map_ne_only (isLeaf_map f g) h), compressed_node h, map_node,
      List.map_map, List.map_map]
    exact congrArg (node (f k)) (List.map_congr_left ih)

/-- The node that a leaf hangs from is never the one that collapses. -/
theorem keyedLeaves_compressed (t : SyntaxTree κ ι) :
    t.compressed.keyedLeaves = t.keyedLeaves := by
  induction t using compressed_induction with
  | leaf p => rfl
  | only k l us ih =>
    rw [compressed_only, ih]
    simp [List.map_flatMap, Function.comp_def]
  | other k ts h ih =>
    rw [compressed_node h, keyedLeaves_node, keyedLeaves_node, List.flatMap_map]
    exact List.flatMap_congr fun t ht => by rw [ih t ht]

theorem leaves_compressed (t : SyntaxTree κ ι) : t.compressed.leaves = t.leaves := by
  rw [← map_keyedLeaves, keyedLeaves_compressed, map_keyedLeaves]

/-- Compressed trees are compact, stay as they are when compressed again, have the same leaves under
the same keys and yield the same text; and it is the same to compress a tree before its keys or
its leaves are replaced and after. -/
theorem compressed_laws :
    (∀ t : SyntaxTree κ ι, t.compressed.Compact ∧ t.compressed.compressed = t.compressed ∧
      t.compressed.keyedLeaves = t.keyedLeaves ∧ t.compressed.leaves = t.leaves ∧
      (∀ (κ' : Type) (f : κ → κ'), (t.mapKeys f).compressed = t.compressed.mapKeys f) ∧
      ∀ (ι' : Type) (g : ι → ι'), (t.mapLeaves g).compressed = t.compressed.mapLeaves g) ∧
    ∀ (t : ParseTree) (w : String), ParseTree.yielded t.compressed w = t.yielded w := by
  constructor
  · intro t
    exact ⟨t.compact_compressed, t.compact_compressed.compressed_eq, t.keyedLeaves_compressed,
      t.leaves_compressed, fun _ f => t.compressed_map f id, fun _ g => t.compressed_map id g⟩
  · intro t w
    rw [ParseTree.yielded, leaves_compressed, ParseTree.yielded]

/-- One node in a tree gives way to its only child, which is a node. -/
inductive Collapses : SyntaxTree κ ι → SyntaxTree κ ι → Prop
  | only (k l : κ) (us : List (SyntaxTree κ ι)) : Collapses (node k [node l us]) (node l us)
  | child (k : κ) (before after : List (SyntaxTree κ ι)) {s t : SyntaxTree κ ι}
    (h : Collapses s t) : Collapses (node k (before ++ s :: after)) (node k (before ++ t :: after))

namespace Collapses
variable {s t : SyntaxTree κ ι}

theorem isLeaf_left (h : Collapses s t) : s.isLeaf = false := by cases h <;> rfl

theorem isLeaf_right (h : Collapses s t) : t.isLeaf = false := by cases h <;> rfl

end Collapses

theorem compressed_singleton {k : κ} {t : SyntaxTree κ ι} (h : t.isLeaf = false) :
    (node k [t]).compressed = t.compressed := by
  cases t with
  | leaf p => cases h
  | node l us => exact compressed_only k l us

/-- Whatever collapses, what is left in the end is the same. -/
theorem Collapses.compressed_eq {s t : SyntaxTree κ ι} (h : Collapses s t) :
    s.compressed = t.compressed := by
  induction h with
  | only k l us => exact compressed_only k l us
  | child k before after h ih =>
    by_cases hempty : before = [] ∧ after = []
    · -- an only child stays a node, so both nodes collapse onto it
      obtain ⟨rfl, rfl⟩ := hempty
      rw [List.nil_append, List.nil_append, compressed_singleton h.isLeaf_left,
        compressed_singleton h.isLeaf_right, ih]
    · -- with siblings the child does not collapse into this node, whatever becomes of it
      have hother (t : SyntaxTree κ ι) (l : κ) (us : List (SyntaxTree κ ι)) :
          before ++ t :: after ≠ [node l us] := by
        intro hts
        have hlength := congrArg List.length hts
        rw [List.length_append, List.length_cons, List.length_singleton] at hlength
        exact hempty ⟨List.eq_nil_of_length_eq_zero (by omega),
          List.eq_nil_of_length_eq_zero (by omega)⟩
      rw [compressed_node (hother _), compressed_node (hother _), List.map_append,
        List.map_append, List.map_cons, List.map_cons, ih]

open Relation in
/-- Children collapse one after another. -/
theorem collapses_children {k : κ} {ts : List (SyntaxTree κ ι)}
    (h : ∀ t ∈ ts, ReflTransGen Collapses t t.compressed) (before : List (SyntaxTree κ ι)) :
    ReflTransGen Collapses (node k (before ++ ts)) (node k (before ++ ts.map compressed)) := by
  induction ts generalizing before with
  | nil => exact .refl
  | cons t ts ih =>
    have hhead : ReflTransGen Collapses (node k (before ++ t :: ts))
        (node k (before ++ t.compressed :: ts)) :=
      (h t List.mem_cons_self).lift (fun u => node k (before ++ u :: ts))
        fun _ _ => Collapses.child k before ts
    have htail := ih (fun u hu => h u (.tail _ hu)) (before ++ [t.compressed])
    rw [← List.append_cons, ← List.append_cons] at htail
    exact hhead.trans htail

theorem collapses_compressed (t : SyntaxTree κ ι) :
    Relation.ReflTransGen Collapses t t.compressed := by
  induction t using compressed_induction with
  | leaf p => exact .refl
  | only k l us ih =>
    rw [compressed_only]
    exact .head (.only k l us) ih
  | other k ts h ih =>
    rw [compressed_node h]
    exact collapses_children ih []

/-- The compressed tree is the one compact tree that a tree collapses to. -/
theorem collapses_compact_iff {s t : SyntaxTree κ ι} :
    Relation.ReflTransGen Collapses t s ∧ s.Compact ↔ s = t.compressed := by
  constructor
  · rintro ⟨hsteps, hcompact⟩
    have hsame : t.compressed = s.compressed := by
      induction hsteps using Relation.ReflTransGen.head_induction_on with
      | refl => rfl
      | head h _ ih => exact h.compressed_eq.trans ih
    rw [hsame, hcompact.compressed_eq]
  · rintro rfl
    exact ⟨t.collapses_compressed, t.compact_compressed⟩

end SyntaxTree
end ContextFree
