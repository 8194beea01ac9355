import ContextFree.Proofs.Nodes

/-! Trees without some of their nodes. Where a node explodes, its children stand in its place; where
one is removed, all below it goes too. Both can be done in one pass or in several, and one before
the other. -/
namespace ContextFree.SyntaxTree

variable {κ ι : Type} (t : SyntaxTree κ ι)

/-- What is made of those that remain, side by side. -/
theorem flatMap_filterMap {α β γ : Type} (f : α → Option β) (g : β → List γ) (l : List α) :
    (l.filterMap f).flatMap g = l.flatMap fun a => (f a).elim [] g := by
  rw [List.filterMap_eq_flatMap_toList, List.flatMap_assoc]
  refine List.flatMap_congr fun a _ => ?_
  cases f a <;> simp

section Explosion
variable (e e₁ e₂ : κ → Bool)

theorem flatMap_explode :
    (t.explode e₁).flatMap (explode e₂) = t.explode fun k => e₁ k || e₂ k := by
  induction t with
  | leaf p => rfl
  | node k ts ih =>
    have hts : (ts.flatMap (explode e₁)).flatMap (explode e₂) =
        ts.flatMap (explode fun k => e₁ k || e₂ k) := by
      rw [List.flatMap_assoc]
      exact List.flatMap_congr ih
    cases h : e₁ k <;> simp [h, hts]

/-- The nodes left are those that do not explode, over what is left of their children. -/
theorem flatMap_nodes_explode : (t.explode e).flatMap nodes =
    (t.nodes.filter fun n => !e n.1).map fun n => (n.1, n.2.flatMap (explode e)) := by
  induction t with
  | leaf p => rfl
  | node k ts ih =>
    have hts : (ts.flatMap (explode e)).flatMap nodes =
        ((ts.flatMap nodes).filter fun n => !e n.1).map fun n =>
          (n.1, n.2.flatMap (explode e)) := by
      rw [List.flatMap_assoc, List.filter_flatMap, List.map_flatMap]
      exact List.flatMap_congr ih
    cases h : e k <;> simp [h, hts]

theorem flatMap_keys_explode : (t.explode e).flatMap keys = t.keys.filter fun k => !e k := by
  have hnodes := congrArg (List.map (·.1)) (t.flatMap_nodes_explode e)
  rw [List.map_flatMap, List.map_map] at hnodes
  rw [keys, List.filter_map]
  exact hnodes

theorem eq_false_of_mem_explode {s : SyntaxTree κ ι} {k : κ} (hs : s ∈ t.explode e)
    (hk : k ∈ s.keys) : e k = false := by
  have hmem : k ∈ (t.explode e).flatMap keys := List.mem_flatMap.2 ⟨s, hs, hk⟩
  rw [flatMap_keys_explode, List.mem_filter] at hmem
  simpa using hmem.2

/-- Every leaf stays below those nodes above it that do not explode. -/
theorem flatMap_paths_explode : (t.explode e).flatMap paths =
    t.paths.map fun a => (a.1.filter fun k => !e k, a.2) := by
  induction t with
  | leaf p => rfl
  | node k ts ih =>
    have hts : (ts.flatMap (explode e)).flatMap paths =
        (ts.flatMap paths).map fun a => (a.1.filter fun k => !e k, a.2) := by
      rw [List.flatMap_assoc, List.map_flatMap]
      exact List.flatMap_congr ih
    cases h : e k <;> simp [h, hts, Function.comp_def]

theorem flatMap_leaves_explode : (t.explode e).flatMap leaves = t.leaves := by
  have hpaths := congrArg (List.map (·.2)) (t.flatMap_paths_explode e)
  rw [List.map_flatMap, List.map_map] at hpaths
  rw [← map_paths, ← funext map_paths]
  exact hpaths

/-- To explode a tree in two passes, in either order, is to explode it in one; exploded nodes are
gone, the other nodes stay in order, and so do all leaves. -/
theorem explode_laws :
    (t.explode e₁).flatMap (explode e₂) = t.explode (fun k => e₁ k || e₂ k) ∧
      (t.explode e₁).flatMap (explode e₁) = t.explode e₁ ∧
      (t.explode e₁).flatMap (explode e₂) = (t.explode e₂).flatMap (explode e₁) ∧
      (∀ s ∈ t.explode e₁, ∀ k ∈ s.keys, e₁ k = false) ∧
      (t.explode e₁).flatMap keys = (t.keys.filter fun k => !e₁ k) ∧
      (t.explode e₁).flatMap leaves = t.leaves := by
  refine ⟨t.flatMap_explode e₁ e₂, ?_, ?_, fun s hs k hk => t.eq_false_of_mem_explode e₁ hs hk,
    t.flatMap_keys_explode e₁, t.flatMap_leaves_explode e₁⟩
  · simp only [flatMap_explode, Bool.or_self]
  · simp only [flatMap_explode, Bool.or_comm]

/-- A sum with a blank in it. -/
def xPlusY : SyntaxTree String Char :=
  node "E" [node "T" [node "F" [leaf 'x']], node "W" [leaf ' '], node "O" [leaf '+'],
    node "E" [node "T" [node "F" [leaf 'y']]]]

theorem explode_laws_xPlusY :
    xPlusY.explode (fun k => k == "E" || k == "T") =
        [node "F" [leaf 'x'], node "W" [leaf ' '], node "O" [leaf '+'], node "F" [leaf 'y']] ∧
      (xPlusY.explode (· == "E")).flatMap (explode (· == "T")) =
        xPlusY.explode (fun k => k == "E" || k == "T") ∧
      (node "T" [node "F" [leaf 'y']] ∈ xPlusY.explode (· == "E") ∧
        "F" ∈ (node "T" [node "F" [leaf 'y']]).keys ∧ ("F" == "E") = false) ∧
      (xPlusY.explode (· == "E")).flatMap keys = ["T", "F", "W", "O", "T", "F"] ∧
      (xPlusY.explode (· == "E")).flatMap leaves = xPlusY.leaves := by
  have hmem : node "T" [node "F" [leaf 'y']] ∈ xPlusY.explode (· == "E") := by decide +kernel
  have hkey : "F" ∈ (node "T" [node "F" [leaf 'y']]).keys := by decide
  obtain ⟨htwice, -, -, hgone, hkeys, hleaves⟩ := xPlusY.explode_laws (· == "E") (· == "T")
  exact ⟨by decide +kernel, htwice, ⟨hmem, hkey, hgone _ hmem "F" hkey⟩,
    hkeys.trans (by decide +kernel), hleaves⟩

end Explosion

section Filtering
variable (e p q : κ → Bool)

theorem bind_filter : (t.filter p).bind (filter q) = t.filter fun k => p k && q k := by
  induction t with
  | leaf _ => rfl
  | node k ts ih =>
    have hts : (ts.filterMap (filter p)).filterMap (filter q) =
        ts.filterMap (filter fun k => p k && q k) := by
      rw [List.filterMap_filterMap]
      exact List.filterMap_congr ih
    cases h : p k <;> simp [h, hts]

/-- Those leaves stay all nodes above which are kept. -/
theorem paths_filter : (t.filter p).elim [] paths = t.paths.filter fun a => a.1.all p := by
  induction t with
  | leaf _ => rfl
  | node k ts ih =>
    have hts : (ts.filterMap (filter p)).flatMap paths =
        (ts.flatMap paths).filter fun a => a.1.all p := by
      rw [flatMap_filterMap, List.filter_flatMap]
      exact List.flatMap_congr ih
    cases h : p k <;> simp [h, hts, List.filter_map, Function.comp_def]

theorem leaves_filter :
    (t.filter p).elim [] leaves = (t.paths.filter fun a => a.1.all p).map (·.2) := by
  rw [← paths_filter]
  cases t.filter p with
  | none => rfl
  | some s => exact s.map_paths.symm

/-- To remove nodes before the others explode, those that explode must be kept. -/
theorem filterMap_explode :
    (t.explode e).filterMap (filter p) = (t.filter fun k => e k || p k).elim [] (explode e) := by
  induction t with
  | leaf _ => rfl
  | node k ts ih =>
    have hts : (ts.flatMap (explode e)).filterMap (filter p) =
        (ts.filterMap (filter fun k => e k || p k)).flatMap (explode e) := by
      rw [List.filterMap_flatMap, flatMap_filterMap]
      exact List.flatMap_congr ih
    cases h : e k <;> cases h' : p k <;> simp [h, h', hts]

/-- To filter a tree twice is to filter it once by both predicates; those leaves stay all nodes
above which are kept; and where no node that explodes is removed, it is the same to explode a tree
before it is filtered and after. -/
theorem filter_laws :
    (t.filter p).bind (filter q) = t.filter (fun k => p k && q k) ∧
      (t.filter p).elim [] leaves = (t.paths.filter fun a => a.1.all p).map (·.2) ∧
      ∀ e : κ → Bool, (∀ k, e k → p k) →
        (t.explode e).filterMap (filter p) = (t.filter p).elim [] (explode e) := by
  refine ⟨t.bind_filter p q, t.leaves_filter p, fun e he => ?_⟩
  -- what explodes is kept anyway, so `p` already spares it
  have hkept : (fun k => e k || p k) = p := funext fun k => by
    cases h : e k with
    | true => exact (he k h).symm
    | false => rfl
  rw [filterMap_explode, hkept]

theorem filter_laws_xPlusY :
    xPlusY.filter (· != "W") = some (node "E" [node "T" [node "F" [leaf 'x']], node "O" [leaf '+'],
        node "E" [node "T" [node "F" [leaf 'y']]]]) ∧
      (xPlusY.filter (· != "W")).bind (filter (· != "O")) =
        xPlusY.filter (fun k => k != "W" && k != "O") ∧
      (xPlusY.filter (· != "W")).elim [] leaves = ['x', '+', 'y'] ∧
      (∀ k : String, k == "T" → k != "W") ∧
      (xPlusY.explode (· == "T")).filterMap (filter (· != "W")) =
        (xPlusY.filter (· != "W")).elim [] (explode (· == "T")) := by
  have hkept : ∀ k : String, k == "T" → k != "W" := by simp
  obtain ⟨htwice, hleaves, hexplode⟩ := xPlusY.filter_laws (· != "W") (· != "O")
  exact ⟨by decide +kernel, htwice, hleaves.trans (by decide +kernel), hkept, hexplode _ hkept⟩

-- A node that explodes leaves its children behind; one that is removed takes them along.
example : ((node "S" [leaf 1]).explode (· == "S")).filterMap (filter (· != "S")) = [leaf 1] ∧
    ((node "S" [leaf 1]).filter (· != "S")).elim [] (explode (· == "S")) = [] := by
  decide

end Filtering

end ContextFree.SyntaxTree
