import ContextFree.Derivation
import ContextFree.Nilability
import ContextFree.Proofs.Fixpoint

/-! Nilability is exact: a symbol is found nilable just if it derives the empty word. The proofs
of nilability are grounded, each in those before it. -/
namespace ContextFree

/-- Whether a symbol is nilable by the proofs of a list. -/
def Symbol.NilableBy (l : List NumberedProduction) : Symbol → Prop
  | nonterm name => ∃ e ∈ l, e.production.lhs = name
  | term t => t.isEmpty = true

/-- Each production of a list is nilable by those before it. -/
inductive Grounded : List NumberedProduction → Prop
  | nil : Grounded []
  | concat {l : List NumberedProduction} {e : NumberedProduction} (h : Grounded l)
    (he : ∀ x ∈ e.production.rhs, x.NilableBy l) : Grounded (l ++ [e])

namespace EmptyProofs

theorem nilable_iff {ps : EmptyProofs} {x : Symbol} :
    ps.nilable x = true ↔ x.NilableBy ps.toList := by
  cases x with
  | term t => rfl
  | nonterm name =>
    rw [nilable, Register.has_iff, List.mem_map]
    rfl

/-- What considering productions keeps: the proofs are productions, one for a non-terminal, and
grounded. -/
structure Sound (g : Grammar) (ps : EmptyProofs) : Prop where
  numbered : ∀ e ∈ ps.toList, e ∈ g.numbered
  nodup : (ps.toList.map (·.production.lhs)).Nodup
  grounded : Grounded ps.toList

theorem Sound.consider {g : Grammar} {ps : EmptyProofs} (h : ps.Sound g) {e : NumberedProduction}
    (he : e ∈ g.numbered) : (ps.consider e).Sound g := by
  rw [EmptyProofs.consider]
  split
  · rename_i hall
    refine ⟨?_, Register.nodup_enter h.nodup e, ?_⟩
    all_goals
      rw [Register.toList_enter]
      split
    · exact h.numbered
    · simpa using fun f hf => hf.elim (h.numbered f) (· ▸ he)
    · exact h.grounded
    · exact h.grounded.concat fun x hx => nilable_iff.1 (List.all_eq_true.1 hall x hx)
  · exact h

end EmptyProofs

namespace Grammar
variable {g : Grammar} {w : String}

theorem mem_numbered {e : NumberedProduction} :
    e ∈ g.numbered ↔ g.productions[e.number]? = some e.production := by
  rw [numbered, List.mem_map]
  constructor
  · rintro ⟨⟨p, i⟩, h, rfl⟩
    exact List.mem_zipIdx_iff_getElem?.1 h
  · exact fun h => ⟨(e.production, e.number), List.mem_zipIdx_iff_getElem?.2 h, rfl⟩

theorem exists_numbered {p : Production} (hp : p ∈ g.productions) :
    ∃ e ∈ g.numbered, e.production = p := by
  obtain ⟨i, hi⟩ := List.mem_iff_getElem?.1 hp
  exact ⟨⟨p, i⟩, mem_numbered.2 hi, rfl⟩

theorem production_of_mem_numbered {e : NumberedProduction} (he : e ∈ g.numbered) :
    e.production ∈ g.productions :=
  List.mem_of_getElem? (mem_numbered.1 he)

/-- The proofs of nilability are sound, and every production that they make nilable has one. -/
theorem emptyProofs_spec (g : Grammar) : g.emptyProofs.Sound g ∧
    ∀ p ∈ g.productions, (∀ x ∈ p.rhs, g.emptyProofs.nilable x = true) →
      g.emptyProofs.nilable (.nonterm p.lhs) = true := by
  have small (ps : EmptyProofs) (h : ps.Sound g) : ps.size ≤ g.productions.length := by
    have hsub : ps.toList.map (·.production.lhs) ⊆ g.productions.map (·.lhs) := by
      intro name hn
      obtain ⟨e, he, rfl⟩ := List.mem_map.1 hn
      exact List.mem_map_of_mem (production_of_mem_numbered (h.numbered e he))
    have hle := List.Nodup.length_le_of_subset h.nodup hsub
    rwa [List.length_map, List.length_map, Register.length_toList] at hle
  have empty : EmptyProofs.Sound g Register.empty :=
    ⟨by simp, by simp, .nil⟩
  obtain ⟨hs, _, hfix⟩ := Register.saturate_spec EmptyProofs.consider (P := EmptyProofs.Sound g)
    g.productions.length (l := g.numbered)
    EmptyProofs.prefix_consider (fun ps e he h => h.consider he) small empty (by omega)
  refine ⟨hs, fun p hp hall => ?_⟩
  obtain ⟨e, he, rfl⟩ := exists_numbered hp
  obtain ⟨u, hu, hstep⟩ := hfix e he
  have hall : e.production.rhs.all (EmptyProofs.nilable u) = true := by
    rw [List.all_eq_true]
    intro x hx
    rw [EmptyProofs.nilable_iff, hu]
    exact EmptyProofs.nilable_iff.1 (hall x hx)
  rw [EmptyProofs.consider, if_pos hall, Register.toList_enter] at hstep
  rw [EmptyProofs.nilable, Register.has_iff]
  change _ ∈ List.map _ (Register.toList (saturate _ _ _ _))
  rw [← hstep]
  split
  · assumption
  · simp

/-- What holds of the empty literal, and of a name if it holds of a whole right-hand side, holds of
every symbol that is found nilable. -/
@[elab_as_elim]
theorem nilable_induction {motive : Symbol → Prop} {x : Symbol}
    (hx : g.emptyProofs.nilable x = true)
    (term : ∀ t : Terminal, t.isEmpty = true → motive (.term t))
    (nonterm : ∀ p ∈ g.productions, (∀ x ∈ p.rhs, motive x) → motive (.nonterm p.lhs)) :
    motive x := by
  obtain ⟨hs, -⟩ := g.emptyProofs_spec
  have hmem : ∀ e ∈ g.emptyProofs.toList, e.production ∈ g.productions :=
    fun e he => production_of_mem_numbered (hs.numbered e he)
  rw [EmptyProofs.nilable_iff] at hx
  have hl := hs.grounded
  clear hs
  generalize g.emptyProofs.toList = l at hx hl hmem
  induction hl generalizing x with
  | nil =>
    cases x with
    | term t => exact term t hx
    | nonterm name => simp [Symbol.NilableBy] at hx
  | @concat l e hl he ih =>
    have ih {x : Symbol} (hx : x.NilableBy l) : motive x :=
      ih hx fun f hf => hmem f (List.mem_append_left _ hf)
    cases x with
    | term t => exact term t hx
    | nonterm name =>
      obtain ⟨f, hf, rfl⟩ := hx
      rcases List.mem_append.1 hf with hf | hf
      · exact ih ⟨f, hf, rfl⟩
      · obtain rfl := List.mem_singleton.1 hf
        exact nonterm _ (hmem f (by simp)) fun x hx => ih (he x hx)

end Grammar

variable [Pattern.Engine] {g : Grammar} {w : String}

mutual
theorem Derives.nilable {x : Symbol} {a b : Nat} {t : ParseTree} :
    Derives g w x a b t → a = b → g.emptyProofs.nilable x = true
  | .term (t := t') h, hab => by
    unfold Terminal.Takes at h
    split at h
    · assumption
    · have := Terminal.lt_of_accept h.2
      omega
  | .node hp h, hab => g.emptyProofs_spec.2 _ hp (h.nilable hab)
theorem DerivesAll.nilable {xs : List Symbol} {a b : Nat} {ts : List ParseTree} :
    DerivesAll g w xs a b ts → a = b → ∀ x ∈ xs, g.emptyProofs.nilable x = true
  | .nil, _, _, hx => by simp at hx
  | .cons h hs, hab, x, hx => by
    have hle := h.le
    have hle' := hs.le
    rcases List.mem_cons.1 hx with rfl | hx
    · exact h.nilable (by omega)
    · exact hs.nilable (by omega) x hx
end

/-- Symbols that derive the empty word at an offset do so side by side. -/
theorem exists_derivesAll_empty {xs : List Symbol} {p : Nat}
    (h : ∀ x ∈ xs, ∃ t, Derives g w x p p t) : ∃ ts, DerivesAll g w xs p p ts := by
  induction xs with
  | nil => exact ⟨[], .nil⟩
  | cons x xs ih =>
    obtain ⟨t, ht⟩ := h x (.head _)
    obtain ⟨ts, hts⟩ := ih fun y hy => h y (.tail _ hy)
    exact ⟨t :: ts, .cons ht hts⟩

/-- A symbol is found nilable just if it derives the empty word. -/
theorem nilable_emptyProofs {x : Symbol} (p : Nat) :
    g.emptyProofs.nilable x = true ↔ ∃ t, Derives g w x p p t := by
  constructor
  · intro hx
    refine Grammar.nilable_induction hx (fun t ht => ?_) fun q hq hrhs => ?_
    · have htakes : t.Takes w p p := by
        unfold Terminal.Takes
        rw [if_pos ht]
      exact ⟨_, .term htakes⟩
    · obtain ⟨ts, hts⟩ := exists_derivesAll_empty hrhs
      exact ⟨_, .node hq hts⟩
  · rintro ⟨t, h⟩
    exact h.nilable rfl

end ContextFree
