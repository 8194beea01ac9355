import ContextFree.Proofs.Acyclic
import ContextFree.Proofs.EmptyWord
import ContextFree.Proofs.Interning
import ContextFree.Tree.Empty

/-! Empty trees are exactly the acyclic derivations of the empty word, each of them once. The
search for them carries the non-terminals that are still free, which are those that do not stand
above. -/
namespace ContextFree

theorem mem_picks {α : Type} {ls : List (List α)} {l : List α} :
    l ∈ picks ls ↔ List.Forall₂ (fun a as => a ∈ as) l ls := by
  induction ls generalizing l with
  | nil => simp [picks]
  | cons as ls ih =>
    simp only [picks, List.mem_flatMap, List.mem_map, ih, List.forall₂_cons_right_iff]
    constructor
    · rintro ⟨a, ha, l, hl, rfl⟩
      exact ⟨a, l, ha, hl, rfl⟩
    · rintro ⟨a, l, ha, hl, rfl⟩
      exact ⟨a, ha, l, hl, rfl⟩

theorem picks_map {α β : Type} (F : α → β) (ls : List (List α)) :
    picks (ls.map (List.map F)) = (picks ls).map (List.map F) := by
  induction ls with
  | nil => rfl
  | cons l ls ih =>
    rw [List.map_cons, picks, picks, ih, List.flatMap_map, List.map_flatMap]
    refine List.flatMap_congr fun a _ => ?_
    rw [List.map_map, List.map_map]
    rfl

namespace EmptyTree

@[simp] theorem place_leaf (p : Nat) : place p (.leaf ()) = .leaf ⟨p, p⟩ := rfl

@[simp] theorem place_node (p : Nat) (k : String) (ts : List EmptyTree) :
    place p (.node k ts) = .node k (ts.map (place p)) := by
  rw [place, SyntaxTree.mapLeaves, SyntaxTree.map, SyntaxTree.mapAll_eq]
  rfl

/-- Placed at an offset, different empty trees stay different. -/
theorem place_injective (p : Nat) : Function.Injective (place p) :=
  SyntaxTree.map_injective Function.injective_id fun _ _ _ => rfl

end EmptyTree

variable {g : Grammar} {w : String}

section Places
variable [Pattern.Engine]

mutual
/-- What derives no bytes is an empty tree at its place. -/
theorem Derives.exists_place {x : Symbol} {a b : Nat} {t : ParseTree} :
    Derives g w x a b t → a = b → ∃ e : EmptyTree, e.place a = t
  | .term h, hab => ⟨.leaf (), by rw [EmptyTree.place_leaf, hab]⟩
  | .node hp h, hab => by
    obtain ⟨es, rfl⟩ := h.exists_place hab
    exact ⟨.node _ es, EmptyTree.place_node _ _ _⟩
theorem DerivesAll.exists_place {xs : List Symbol} {a b : Nat} {ts : List ParseTree} :
    DerivesAll g w xs a b ts → a = b → ∃ es : List EmptyTree, es.map (EmptyTree.place a) = ts
  | .nil, _ => ⟨[], rfl⟩
  | .cons h hs, hab => by
    have hle := h.le
    have hle' := hs.le
    obtain ⟨e, rfl⟩ := h.exists_place (by omega)
    obtain ⟨es, rfl⟩ := hs.exists_place (by omega)
    obtain rfl : _ = _ := Nat.le_antisymm hle (by omega)
    exact ⟨e :: es, rfl⟩
end

/-- Side by side over no bytes, each tree derives no bytes. -/
theorem derivesAllAcyclic_self {above : List (String × Nat × Nat)} {p : Nat} {xs : List Symbol}
    {ts : List ParseTree} : DerivesAllAcyclic g w above xs p p ts ↔
      List.Forall₂ (fun x t => DerivesAcyclic g w above x p p t) xs ts := by
  induction xs generalizing ts with
  | nil => simp [derivesAllAcyclic_nil]
  | cons x xs ih =>
    rw [derivesAllAcyclic_cons, List.forall₂_cons_left_iff]
    constructor
    · rintro ⟨b, t, us, rfl, h, hs⟩
      obtain rfl : b = p := Nat.le_antisymm hs.derivesAll.le h.derives.le
      exact ⟨t, us, h, ih.1 hs, rfl⟩
    · rintro ⟨t, us, h, hs, rfl⟩
      exact ⟨p, t, us, rfl, h, ih.2 hs⟩

theorem Terminal.takes_self {t : Terminal} {p : Nat} : t.Takes w p p ↔ t.isEmpty = true := by
  unfold Takes
  split
  · simp_all
  · rename_i h
    constructor
    · intro htakes
      have := lt_of_accept htakes.2
      omega
    · intro hempty
      exact absurd hempty h

end Places

namespace EmptyProofs

theorem proof?_eq_none {ps : EmptyProofs} {name : String} :
    ps.proof? name = none ↔ ¬ ps.nilable (.nonterm name) = true := by
  rw [proof?, Register.get?_eq, List.find?_eq_none, nilable, Register.has_iff]
  simp

theorem exists_proof?_iff {ps : EmptyProofs} {name : String} :
    (∃ e, ps.proof? name = some e) ↔ ps.nilable (.nonterm name) = true := by
  rw [← Option.ne_none_iff_exists', ne_eq, proof?_eq_none, not_not]

theorem proof?_eq_some {ps : EmptyProofs} {name : String} {e : NumberedProduction}
    (h : ps.proof? name = some e) : e ∈ ps.toList ∧ e.production.lhs = name := by
  rw [proof?, Register.get?_eq] at h
  exact ⟨List.mem_of_find?_eq_some h, by simpa using List.find?_some h⟩

end EmptyProofs

namespace Grammar

theorem mem_proofFirst {e : NumberedProduction} (he : e ∈ g.numbered) {p : Production} :
    p ∈ g.proofFirst e ↔ p ∈ g.productions ∧ p.lhs = e.production.lhs := by
  rw [proofFirst, List.mem_cons, List.mem_map]
  constructor
  · rintro (rfl | ⟨f, hf, rfl⟩)
    · exact ⟨production_of_mem_numbered he, rfl⟩
    · rw [List.mem_filter, Bool.and_eq_true, beq_iff_eq] at hf
      exact ⟨production_of_mem_numbered hf.1, hf.2.1⟩
  · rintro ⟨hp, hl⟩
    obtain ⟨f, hf, rfl⟩ := exists_numbered hp
    by_cases hn : f.number = e.number
    · rw [mem_numbered] at he hf
      rw [hn, he] at hf
      exact .inl (Option.some.inj hf).symm
    · exact .inr ⟨f, List.mem_filter.2 ⟨hf, by simp [hl, hn]⟩, rfl⟩

/-- What stands for a symbol of a production in an empty tree. -/
def emptyChoices (g : Grammar) (mode : Mode) (free : List String) : Symbol → List EmptyTree
  | .term t => if t.isEmpty then [.leaf ()] else []
  | .nonterm child =>
    if child ∈ free then g.emptyTreesBelow g.emptyProofs mode (free.erase child) child else []

theorem emptyTreesBelow_eq (mode : Mode) (free : List String) (name : String) :
    g.emptyTreesBelow g.emptyProofs mode free name = match g.emptyProofs.proof? name with
      | none => []
      | some e => distinct ((if mode = .first then [e.production] else g.proofFirst e).flatMap
          fun p => (picks (p.rhs.map (g.emptyChoices mode free))).map (.node name)) := by
  rw [emptyTreesBelow]
  cases g.emptyProofs.proof? name with
  | none => rfl
  | some e =>
    simp only [distinctTrees_eq]
    rfl

/-- The free non-terminals are the nilable ones that do not stand above at an offset. -/
structure Spares (g : Grammar) (above : List (String × Nat × Nat)) (p : Nat)
    (free : List String) : Prop where
  nodup : free.Nodup
  mem_iff (m : String) : m ∈ free ↔
    g.emptyProofs.nilable (.nonterm m) = true ∧ (m, p, p) ∉ above

section Below
variable {above : List (String × Nat × Nat)} {p : Nat} {free : List String} {name : String}

theorem spares_nil (g : Grammar) (p : Nat) :
    Spares g [] p (g.emptyProofs.toList.map (·.production.lhs)) := by
  refine ⟨g.emptyProofs_spec.1.nodup, fun m => ?_⟩
  rw [EmptyProofs.nilable, Register.has_iff]
  simp

/-- What comes to stand above is free no more. -/
theorem Spares.erase (h : Spares g above p free) (name : String) :
    Spares g ((name, p, p) :: above) p (free.erase name) := by
  refine ⟨h.nodup.erase name, fun m => ?_⟩
  rw [h.nodup.mem_erase_iff, h.mem_iff, List.mem_cons, not_or]
  simp only [Prod.mk.injEq, and_true]
  exact and_left_comm

variable [Pattern.Engine]

/-- A symbol has the choices that derive nothing, if that holds for the free non-terminals. -/
theorem mem_emptyChoices (h : Spares g above p free)
    (below : ∀ child ∈ free, ∀ u : EmptyTree,
      u ∈ g.emptyTreesBelow g.emptyProofs .exhaustive (free.erase child) child ↔
        DerivesAcyclic g w above (.nonterm child) p p (u.place p)) (x : Symbol) (u : EmptyTree) :
    u ∈ g.emptyChoices .exhaustive free x ↔ DerivesAcyclic g w above x p p (u.place p) := by
  cases x with
  | term t =>
    rw [emptyChoices, derivesAcyclic_term, Terminal.takes_self, ← EmptyTree.place_leaf,
      (EmptyTree.place_injective p).eq_iff]
    split <;> simp_all
  | nonterm child =>
    rw [emptyChoices]
    by_cases hc : child ∈ free
    · rw [if_pos hc]
      exact below child hc u
    · rw [if_neg hc]
      constructor
      · intro hu
        simp at hu
      · intro hu
        obtain ⟨hnot, -⟩ := derivesAcyclic_nonterm.1 hu
        exact (hc ((h.mem_iff child).2 ⟨hu.derives.nilable rfl, hnot⟩)).elim

/-- A non-terminal has the trees that its productions make of their choices. -/
theorem mem_emptyTreesBelow_of_choices (habove : (name, p, p) ∉ above)
    (choice : ∀ (x : Symbol) (u : EmptyTree), u ∈ g.emptyChoices .exhaustive free x ↔
      DerivesAcyclic g w ((name, p, p) :: above) x p p (u.place p)) (t : EmptyTree) :
    t ∈ g.emptyTreesBelow g.emptyProofs .exhaustive free name ↔
      DerivesAcyclic g w above (.nonterm name) p p (t.place p) := by
  rw [emptyTreesBelow_eq, derivesAcyclic_nonterm]
  cases hproof : g.emptyProofs.proof? name with
  | none =>
    constructor
    · intro ht
      simp at ht
    · rintro ⟨-, q, hq, hl, ts, -, h⟩
      have hnot := EmptyProofs.proof?_eq_none.1 hproof
      exact (hnot (hl ▸ (Derives.node hq h.derivesAll).nilable rfl)).elim
  | some e =>
    obtain ⟨he, hel⟩ := EmptyProofs.proof?_eq_some hproof
    have he := g.emptyProofs_spec.1.numbered e he
    simp only [reduceCtorEq, if_false, mem_distinct, List.mem_flatMap, List.mem_map,
      mem_proofFirst he, mem_picks, List.forall₂_map_right_iff, hel]
    constructor
    · rintro ⟨q, ⟨hq, hl⟩, ts, hts, rfl⟩
      refine ⟨habove, q, hq, hl, ts.map (EmptyTree.place p), by simp, ?_⟩
      rw [derivesAllAcyclic_self, List.forall₂_map_right_iff]
      exact hts.flip.imp fun x u h => (choice x u).1 h
    · rintro ⟨_, q, hq, hl, ts, ht, hts⟩
      obtain ⟨us, rfl⟩ := hts.derivesAll.exists_place rfl
      rw [← EmptyTree.place_node, (EmptyTree.place_injective p).eq_iff] at ht
      refine ⟨q, ⟨hq, hl⟩, us, ?_, ht.symm⟩
      rw [derivesAllAcyclic_self, List.forall₂_map_right_iff] at hts
      exact (hts.imp fun x u h => (choice x u).2 h).flip

end Below

/-- The induction is on the free non-terminals: on the way down each of them stands above at most
once. -/
theorem mem_emptyTreesBelow [Pattern.Engine] (p n : Nat) : ∀ (above : List (String × Nat × Nat))
    (free : List String) (name : String), free.length = n → (name, p, p) ∉ above →
    Spares g ((name, p, p) :: above) p free →
    ∀ t : EmptyTree, t ∈ g.emptyTreesBelow g.emptyProofs .exhaustive free name ↔
      DerivesAcyclic g w above (.nonterm name) p p (t.place p) := by
  induction n using Nat.strongRecOn with
  | ind n ih =>
    intro above free name hlen habove hfree
    apply mem_emptyTreesBelow_of_choices habove
    apply mem_emptyChoices hfree
    intro child hc
    have hless : (free.erase child).length < n := hlen ▸ length_erase_lt hc
    exact ih _ hless _ _ child rfl ((hfree.mem_iff child).1 hc).2 (hfree.erase child)

/-- The empty trees of a non-terminal are its acyclic derivations of the empty word. -/
theorem mem_emptyTrees [Pattern.Engine] (p : Nat) {name : String} {t : EmptyTree} :
    t ∈ g.emptyTrees g.emptyProofs .exhaustive name ↔
      DerivesAcyclic g w [] (.nonterm name) p p (t.place p) :=
  mem_emptyTreesBelow p _ [] _ name rfl (by simp) ((spares_nil g p).erase name) t

theorem nodup_emptyTreesBelow (mode : Mode) (free : List String) (name : String) :
    (g.emptyTreesBelow g.emptyProofs mode free name).Nodup := by
  rw [emptyTreesBelow_eq]
  split
  · exact List.nodup_nil
  · exact nodup_distinct _

theorem nodup_emptyTrees (mode : Mode) (name : String) :
    (g.emptyTrees g.emptyProofs mode name).Nodup :=
  nodup_emptyTreesBelow mode _ name

end Grammar
end ContextFree
