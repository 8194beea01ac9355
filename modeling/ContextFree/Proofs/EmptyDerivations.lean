import ContextFree.Pattern.Standard
import ContextFree.Proofs.Grounding
import ContextFree.Proofs.Nodes

/-! Empty derivations below given ancestors. The search for them leaves out the ancestors and, on
the way down, everything it came through. What it finds, each once, are the derivations of nothing
in which no non-terminal is its own descendant and no ancestor occurs, and the one that follows the
proofs of nilability is found first. -/
namespace ContextFree

namespace SyntaxTree
variable {κ ι : Type} {k : κ} {ts : List (SyntaxTree κ ι)}

/-- No key occurs again below itself. -/
def Unnested (t : SyntaxTree κ ι) : Prop := ∀ n ∈ t.nodes, ∀ u ∈ n.2, n.1 ∉ u.keys

theorem keys_leaf (p : ι) : (leaf p : SyntaxTree κ ι).keys = [] := rfl

theorem mem_keys_node {l : κ} : l ∈ (node k ts).keys ↔ l = k ∨ ∃ u ∈ ts, l ∈ u.keys := by
  simp [keys, List.map_flatMap]

theorem unnested_leaf (p : ι) : (leaf p : SyntaxTree κ ι).Unnested := by simp [Unnested]

theorem unnested_node :
    (node k ts).Unnested ↔ ∀ u ∈ ts, k ∉ u.keys ∧ u.Unnested := by
  simp only [Unnested, nodes_node, List.forall_mem_cons, List.mem_flatMap]
  constructor
  · rintro ⟨hk, h⟩ u hu
    exact ⟨hk u hu, fun n hn => h n ⟨u, hu, hn⟩⟩
  · intro h
    exact ⟨fun u hu => (h u hu).1, fun n ⟨u, hu, hn⟩ => (h u hu).2 n hn⟩

end SyntaxTree

open SyntaxTree

variable {g : Grammar} {w : String}

/-- No key of a tree occurs below itself, or above with no bytes at an offset. -/
def FreshAt (above : List (String × Nat × Nat)) (p : Nat) (t : ParseTree) : Prop :=
  t.Unnested ∧ ∀ k ∈ t.keys, (k, p, p) ∉ above

theorem freshAt_node {above : List (String × Nat × Nat)} {p : Nat} {k : String}
    {ts : List ParseTree} : FreshAt above p (.node k ts) ↔
      (k, p, p) ∉ above ∧ ∀ u ∈ ts, FreshAt ((k, p, p) :: above) p u := by
  simp only [FreshAt, unnested_node, List.mem_cons, not_or, Prod.mk.injEq, and_true]
  constructor
  · rintro ⟨hu, hk⟩
    refine ⟨hk k (mem_keys_node.2 (.inl rfl)), fun u hmem => ⟨(hu u hmem).2, fun l hl => ⟨?_, ?_⟩⟩⟩
    · rintro rfl
      exact (hu u hmem).1 hl
    · exact hk l (mem_keys_node.2 (.inr ⟨u, hmem, hl⟩))
  · rintro ⟨hk, hu⟩
    refine ⟨fun u hmem => ⟨fun hl => ((hu u hmem).2 k hl).1 rfl, (hu u hmem).1⟩, fun l hl => ?_⟩
    rcases mem_keys_node.1 hl with rfl | ⟨u, hmem, hl⟩
    · exact hk
    · exact ((hu u hmem).2 l hl).2

section Fresh
variable [Pattern.Engine]

mutual
/-- Over no bytes all parts start and stop at one offset, where what stands above does not occur. -/
theorem DerivesAcyclic.freshAt {above : List (String × Nat × Nat)} {x : Symbol} {a b : Nat}
    {t : ParseTree} : DerivesAcyclic g w above x a b t → a = b → FreshAt above a t
  | .term _, _ => ⟨unnested_leaf _, by simp [keys_leaf]⟩
  | .node _ hn h, hab => by
    subst hab
    exact freshAt_node.2 ⟨hn, h.freshAt rfl⟩
theorem DerivesAllAcyclic.freshAt {above : List (String × Nat × Nat)} {xs : List Symbol}
    {a b : Nat} {ts : List ParseTree} :
    DerivesAllAcyclic g w above xs a b ts → a = b → ∀ t ∈ ts, FreshAt above a t
  | .nil, _ => by simp
  | .cons h hs, hab => by
    obtain rfl := Nat.le_antisymm h.derives.le (hab ▸ hs.derivesAll.le)
    exact List.forall_mem_cons.2 ⟨h.freshAt rfl, hs.freshAt hab⟩
end

mutual
/-- So there is no other way for a derivation of nothing to be acyclic. -/
theorem Derives.acyclic_of_freshAt {above : List (String × Nat × Nat)} {x : Symbol} {a b : Nat}
    {t : ParseTree} :
    Derives g w x a b t → a = b → FreshAt above a t → DerivesAcyclic g w above x a b t
  | .term h, _, _ => .term h
  | .node hp h, hab, hfresh => by
    subst hab
    obtain ⟨hn, hfresh⟩ := freshAt_node.1 hfresh
    exact .node hp hn (h.acyclic_of_freshAt rfl hfresh)
theorem DerivesAll.acyclic_of_freshAt {above : List (String × Nat × Nat)} {xs : List Symbol}
    {a b : Nat} {ts : List ParseTree} : DerivesAll g w xs a b ts → a = b →
      (∀ t ∈ ts, FreshAt above a t) → DerivesAllAcyclic g w above xs a b ts
  | .nil, _, _ => .nil
  | .cons h hs, hab, hfresh => by
    obtain rfl := Nat.le_antisymm h.le (hab ▸ hs.le)
    obtain ⟨ht, hts⟩ := List.forall_mem_cons.1 hfresh
    exact .cons (h.acyclic_of_freshAt rfl ht) (hs.acyclic_of_freshAt hab hts)
end

/-- Over no bytes, a derivation is acyclic below given non-terminals if no non-terminal is its own
descendant and none of the given ones occurs. -/
theorem derivesAcyclic_self_iff {ancestors : List String} {x : Symbol} {p : Nat} {t : ParseTree} :
    DerivesAcyclic g w (ancestors.map fun a => (a, p, p)) x p p t ↔
      Derives g w x p p t ∧ t.Unnested ∧ ∀ a ∈ ancestors, a ∉ t.keys := by
  have hfresh : FreshAt (ancestors.map fun a => (a, p, p)) p t ↔
      t.Unnested ∧ ∀ a ∈ ancestors, a ∉ t.keys := by
    simp only [FreshAt, List.mem_map, Prod.mk.injEq, and_true, exists_eq_right]
    exact and_congr_right fun _ => ⟨fun h a ha hk => h a hk ha, fun h a hk ha => h a ha hk⟩
  rw [← hfresh]
  constructor
  · intro h
    exact ⟨h.derives, h.freshAt rfl⟩
  · rintro ⟨h, hf⟩
    exact h.acyclic_of_freshAt rfl hf

end Fresh

namespace Grammar

/-- The nilable non-terminals that are not among given ones. -/
def nilablesBut (g : Grammar) (names : List String) : List String :=
  (g.emptyProofs.toList.map (·.production.lhs)).filter (· ∉ names)

/-- The empty derivations of a non-terminal at an offset, below given ancestors. -/
def emptyDerivations (g : Grammar) (mode : Mode) (ancestors : List String) (name : String)
    (p : Nat) : List ParseTree :=
  (g.emptyTreesBelow g.emptyProofs mode (g.nilablesBut (name :: ancestors)) name).map
    (EmptyTree.place p)

theorem mem_nilablesBut {names : List String} {m : String} :
    m ∈ g.nilablesBut names ↔ g.emptyProofs.nilable (.nonterm m) = true ∧ m ∉ names := by
  rw [nilablesBut, List.mem_filter, EmptyProofs.nilable, Register.has_iff, decide_eq_true_eq]

theorem nilablesBut_cons (name : String) (names : List String) :
    g.nilablesBut (name :: names) = (g.nilablesBut names).erase name := by
  have hnodup : (g.nilablesBut names).Nodup := g.emptyProofs_spec.1.nodup.filter _
  rw [hnodup.erase_eq_filter, nilablesBut, nilablesBut, List.filter_filter]
  refine List.filter_congr fun m _ => ?_
  rw [Bool.eq_iff_iff]
  simp

/-- Without ancestors they are the empty trees of the non-terminal, at their place. -/
theorem emptyDerivations_nil (mode : Mode) (name : String) (p : Nat) :
    g.emptyDerivations mode [] name p =
      (g.emptyTrees g.emptyProofs mode name).map (EmptyTree.place p) := by
  rw [emptyDerivations, nilablesBut_cons, emptyTrees, nilablesBut]
  simp

/-- What stands for a symbol of a production at an offset, below given ancestors. -/
def placedChoices (g : Grammar) (mode : Mode) (ancestors : List String) (p : Nat) :
    Symbol → List ParseTree
  | .term t => if t.isEmpty then [.leaf ⟨p, p⟩] else []
  | .nonterm child =>
    if g.emptyProofs.nilable (.nonterm child) = true ∧ child ∉ ancestors then
      g.emptyDerivations mode ancestors child p
    else []

theorem map_emptyChoices (mode : Mode) (ancestors : List String) (p : Nat) (x : Symbol) :
    (g.emptyChoices mode (g.nilablesBut ancestors) x).map (EmptyTree.place p) =
      g.placedChoices mode ancestors p x := by
  cases x with
  | term t =>
    rw [emptyChoices, placedChoices]
    split <;> rfl
  | nonterm child =>
    simp only [emptyChoices, placedChoices, mem_nilablesBut]
    split
    · rw [emptyDerivations, nilablesBut_cons]
    · rfl

/-- The proof of a non-terminal comes first, and on the way down the non-terminal joins the
ancestors. -/
theorem emptyDerivations_eq (mode : Mode) (ancestors : List String) (name : String) (p : Nat) :
    g.emptyDerivations mode ancestors name p = match g.emptyProofs.proof? name with
      | none => []
      | some e => distinct ((if mode = .first then [e.production] else g.proofFirst e).flatMap
          fun q => (picks (q.rhs.map (g.placedChoices mode (name :: ancestors) p))).map
            (.node name)) := by
  rw [emptyDerivations, emptyTreesBelow_eq]
  cases g.emptyProofs.proof? name with
  | none => rfl
  | some e =>
    simp only
    rw [← distinct_map (EmptyTree.place_injective p), List.map_flatMap]
    refine congrArg distinct (List.flatMap_congr fun q _ => ?_)
    have hpicks : picks (q.rhs.map (g.placedChoices mode (name :: ancestors) p)) =
        (picks (q.rhs.map (g.emptyChoices mode (g.nilablesBut (name :: ancestors))))).map
          (List.map (EmptyTree.place p)) := by
      rw [← picks_map, List.map_map]
      exact congrArg picks (List.map_congr_left fun x _ => (map_emptyChoices mode _ p x).symm)
    rw [hpicks, List.map_map, List.map_map]
    exact List.map_congr_left fun ts _ => EmptyTree.place_node p name ts

theorem nodup_emptyDerivations (mode : Mode) (ancestors : List String) (name : String) (p : Nat) :
    (g.emptyDerivations mode ancestors name p).Nodup :=
  (nodup_emptyTreesBelow mode _ name).map (EmptyTree.place_injective p)

/-- Ancestors take no bytes, as does what is below them. -/
theorem mem_emptyDerivations [Pattern.Engine] {ancestors : List String} {name : String}
    (ha : name ∉ ancestors) {p : Nat} {t : ParseTree} :
    t ∈ g.emptyDerivations .exhaustive ancestors name p ↔
      DerivesAcyclic g w (ancestors.map fun a => (a, p, p)) (.nonterm name) p p t := by
  have hname : (name, p, p) ∉ ancestors.map fun a => (a, p, p) := by simpa using ha
  have hfree : Spares g ((name, p, p) :: ancestors.map fun a => (a, p, p)) p
      (g.nilablesBut (name :: ancestors)) := by
    refine ⟨g.emptyProofs_spec.1.nodup.filter _, fun m => ?_⟩
    rw [mem_nilablesBut]
    simp
  rw [emptyDerivations, List.mem_map]
  constructor
  · rintro ⟨e, he, rfl⟩
    exact (mem_emptyTreesBelow p _ _ _ name rfl hname hfree e).1 he
  · intro h
    obtain ⟨e, rfl⟩ := h.derives.exists_place rfl
    exact ⟨e, (mem_emptyTreesBelow p _ _ _ name rfl hname hfree e).2 h, rfl⟩

/-- The search for empty derivations is exact: it finds those in which no non-terminal is its own
descendant and no ancestor occurs, each of them once. Without ancestors the first of them follows
the proofs of nilability, and with one derivation a cell that one is all that is found. -/
theorem emptyDerivations_exact [Pattern.Engine] {name : String}
    (h : g.emptyProofs.nilable (.nonterm name) = true) {ancestors : List String}
    (ha : name ∉ ancestors) (w : String) (p : Nat) :
    (g.emptyDerivations .exhaustive ancestors name p).Nodup ∧
    (∀ t, t ∈ g.emptyDerivations .exhaustive ancestors name p ↔
      Derives g w (.nonterm name) p p t ∧ t.Unnested ∧ ∀ a ∈ ancestors, a ∉ t.keys) ∧
    ∃ t, (∀ u, g.emptyProofs.Follows (.nonterm name) u ↔ u = t) ∧
      (g.emptyDerivations .exhaustive [] name p).head? = some (t.place p) ∧
      g.emptyDerivations .first [] name p = [t.place p] := by
  refine ⟨nodup_emptyDerivations _ _ _ _, fun t => ?_, ?_⟩
  · rw [mem_emptyDerivations ha, derivesAcyclic_self_iff]
  · obtain ⟨t, ht⟩ := EmptyProofs.exists_follows g.emptyProofs_spec.1 h
    refine ⟨t, fun u => ⟨fun hu => hu.unique ht, fun hu => hu ▸ ht⟩, ?_, ?_⟩
    · obtain ⟨u, rest, hfirst, hall⟩ := leads_emptyTrees h
      rw [emptyTrees_first ht] at hfirst
      obtain rfl := List.singleton_inj.1 hfirst
      rw [emptyDerivations_nil, hall]
      rfl
    · rw [emptyDerivations_nil, emptyTrees_first ht]
      rfl

/-- Two non-terminals that derive nothing through each other, where the proof of `T` goes through
`S`. -/
def entangled : Grammar where
  start := "S"
  productions := [⟨"S", [.nonterm "S"]⟩, ⟨"S", [.nonterm "T"]⟩, ⟨"S", []⟩, ⟨"T", [.nonterm "S"]⟩,
    ⟨"T", []⟩]
  start_defined := ⟨_, .head _, rfl⟩
  closed := by simp [Production.references, Symbol.nonterm?]

theorem emptyDerivations_exact_entangled :
    entangled.emptyProofs.nilable (.nonterm "T") = true ∧ "T" ∉ ["S"] ∧
    (entangled.emptyDerivations .exhaustive ["S"] "T" 0).Nodup ∧
    .node "T" [] ∈ entangled.emptyDerivations .exhaustive ["S"] "T" 0 ∧
    .node "T" [.node "S" []] ∉ entangled.emptyDerivations .exhaustive ["S"] "T" 0 := by
  have h : entangled.emptyProofs.nilable (.nonterm "T") = true := by decide +kernel
  have ha : "T" ∉ ["S"] := by decide
  obtain ⟨hnodup, hmem, -⟩ := emptyDerivations_exact h ha "" 0
  refine ⟨h, ha, hnodup, (hmem _).2 ⟨?_, ?_, ?_⟩, fun hm => ?_⟩
  · exact .node (p := ⟨"T", []⟩) (by simp [entangled]) .nil
  · simp [unnested_node]
  · simp [mem_keys_node]
  · exact ((hmem _).1 hm).2.2 "S" (.head _) (by simp [mem_keys_node])

end Grammar
end ContextFree
