import ContextFree.Proofs.Interning
import ContextFree.Proofs.Variants

/-! Renaming. Names are opaque: under other names, which are kept apart, the same symbols are
nilable by the same proofs, and the variants are the same up to the names in them. Whatever goes by
names is found again by the new ones. -/
namespace ContextFree

variable (f : String → String)

def Symbol.rename : Symbol → Symbol
  | nonterm name => nonterm (f name)
  | term t => term t

def Production.rename (p : Production) : Production := ⟨f p.lhs, p.rhs.map (Symbol.rename f)⟩

def NumberedProduction.rename (e : NumberedProduction) : NumberedProduction :=
  ⟨e.production.rename f, e.number⟩

def Slot.rename (s : Slot) : Slot := ⟨s.symbol.rename f, s.kept⟩

def Variant.rename (v : Variant) : Variant := ⟨v.number, v.label.map f, v.slots.map (Slot.rename f)⟩

/-- The non-terminals that are not the grammar's have no names. -/
def Nonterm.rename : Nonterm → Nonterm
  | start => start
  | source name => source (f name)
  | tail variant position => tail variant position
  | wrap t => wrap t

theorem Production.references_rename (p : Production) :
    (p.rename f).references = p.references.map f := by
  rw [references, references, rename, List.filterMap_map, List.map_filterMap]
  refine List.filterMap_congr fun x _ => ?_
  cases x <;> rfl

/-- A grammar with other names for its non-terminals. -/
def Grammar.rename (g : Grammar) : Grammar where
  start := f g.start
  productions := g.productions.map (Production.rename f)
  start_defined := by
    obtain ⟨p, hp, hlhs⟩ := g.start_defined
    exact ⟨p.rename f, List.mem_map_of_mem hp, congrArg f hlhs⟩
  closed := by
    rintro _ hp _ hname
    obtain ⟨p, hp', rfl⟩ := List.mem_map.1 hp
    rw [Production.references_rename] at hname
    obtain ⟨name, hname', rfl⟩ := List.mem_map.1 hname
    obtain ⟨q, hq, hlhs⟩ := g.closed p hp' name hname'
    exact ⟨q.rename f, List.mem_map_of_mem hq, congrArg f hlhs⟩

section Registers
variable {α α' κ κ' : Type} [DecidableEq κ] [Coded κ] [DecidableEq κ'] [Coded κ']

/-- A register has what is in another under other keys, which are kept apart. -/
structure Register.Renames {key : α → κ} {key' : α' → κ'} (r : Register key) (r' : Register key')
    (h : κ → κ') (F : α → α') : Prop where
  injective : Function.Injective h
  key_eq : ∀ a, key' (F a) = h (key a)
  toList_eq : r'.toList = r.toList.map F

namespace Register.Renames
variable {key : α → κ} {key' : α' → κ'} {r : Register key} {r' : Register key'} {h : κ → κ'}
  {F : α → α'}

theorem ofList (hinj : Function.Injective h) (hkey : ∀ a, key' (F a) = h (key a)) (l : List α) :
    (Register.ofList key l).Renames (Register.ofList key' (l.map F)) h F where
  injective := hinj
  key_eq := hkey
  toList_eq := by
    rw [toList_ofList, toList_ofList, map_distinctBy key key']
    intro a _ b _
    rw [hkey, hkey, hinj.eq_iff]

variable (hr : r.Renames r' h F)
include hr

theorem keys_eq : r'.toList.map key' = (r.toList.map key).map h := by
  rw [hr.toList_eq, List.map_map, List.map_map]
  exact List.map_congr_left fun a _ => hr.key_eq a

theorem size_eq : r'.size = r.size := by
  rw [← length_toList, ← length_toList, hr.toList_eq, List.length_map]

theorem has_eq (k : κ) : r'.has (h k) = r.has k := by
  rw [Bool.eq_iff_iff, has_iff, has_iff, hr.keys_eq, List.mem_map_of_injective hr.injective]

theorem get?_eq (k : κ) : r'.get? (h k) = (r.get? k).map F := by
  rw [Register.get?_eq, Register.get?_eq, hr.toList_eq, List.find?_map]
  congr 2
  funext a
  rw [Function.comp_apply, hr.key_eq, Bool.eq_iff_iff, beq_iff_eq, beq_iff_eq, hr.injective.eq_iff]

theorem placeOf_eq (k : κ) : r'.placeOf (h k) = r.placeOf k := by
  rw [Register.placeOf_eq, Register.placeOf_eq, hr.keys_eq, List.findIdx_map]
  congr 1
  funext k'
  rw [Function.comp_apply, Bool.eq_iff_iff, beq_iff_eq, beq_iff_eq, hr.injective.eq_iff]

theorem enter (a : α) : (r.enter a).Renames (r'.enter (F a)) h F where
  injective := hr.injective
  key_eq := hr.key_eq
  toList_eq := by
    have hmem : key' (F a) ∈ r'.toList.map key' ↔ key a ∈ r.toList.map key := by
      rw [hr.keys_eq, hr.key_eq, List.mem_map_of_injective hr.injective]
    rw [toList_enter, toList_enter, if_congr hmem rfl rfl, hr.toList_eq]
    split
    · rfl
    · rw [List.map_append, List.map_singleton]

end Register.Renames

/-- An index has under another key what it has under the old one. -/
theorem Index.get_ofList_map {β β' : Type} {h : κ → κ'} (hinj : Function.Injective h) (F : β → β')
    (l : List (κ × β)) (k : κ) :
    (ofList (l.map (Prod.map h F))).get (h k) = ((ofList l).get k).map F := by
  rw [get_ofList, get_ofList, List.filter_map, List.map_map, List.map_map]
  have hfilter : l.filter ((fun e => decide (e.1 = h k)) ∘ Prod.map h F) =
      l.filter fun e => decide (e.1 = k) := by
    refine List.filter_congr fun e _ => ?_
    simp [hinj.eq_iff]
  rw [hfilter]
  rfl

end Registers

/-- Two saturations side by side: what their rounds keep, they keep. -/
theorem saturate_rel {σ σ' : Type} {size : σ → Nat} {size' : σ' → Nat} {round : σ → σ}
    {round' : σ' → σ'} {R : σ → σ' → Prop} (hround : ∀ s s', R s s' → R (round s) (round' s'))
    (hsize : ∀ s s', R s s' → size' s' = size s) (fuel : Nat) {s : σ} {s' : σ'} (h : R s s') :
    R (saturate size round fuel s) (saturate size' round' fuel s') := by
  induction fuel generalizing s s' with
  | zero => exact h
  | succ fuel ih =>
    rw [saturate, saturate, hsize _ _ h, hsize _ _ (hround _ _ h)]
    split
    · exact h
    · exact ih (hround _ _ h)

section Nilability
variable {f} (hf : Function.Injective f) (g : Grammar)

/-- Proofs of nilability are proofs under other names. -/
abbrev EmptyProofs.Renames (f : String → String) (ps ps' : EmptyProofs) : Prop :=
  Register.Renames ps ps' f (NumberedProduction.rename f)

theorem EmptyProofs.Renames.nilable_eq {ps ps' : EmptyProofs} (h : ps.Renames f ps') (x : Symbol) :
    ps'.nilable (x.rename f) = ps.nilable x := by
  cases x with
  | nonterm name => exact h.has_eq name
  | term t => rfl

theorem EmptyProofs.Renames.consider {ps ps' : EmptyProofs} (h : ps.Renames f ps')
    (e : NumberedProduction) : (ps.consider e).Renames f (ps'.consider (e.rename f)) := by
  have hall : (e.rename f).production.rhs.all ps'.nilable = e.production.rhs.all ps.nilable := by
    rw [NumberedProduction.rename, Production.rename, List.all_map]
    exact congrArg e.production.rhs.all (funext h.nilable_eq)
  rw [EmptyProofs.consider, EmptyProofs.consider, hall]
  split
  · exact h.enter e
  · exact h

theorem Grammar.numbered_rename :
    (g.rename f).numbered = g.numbered.map (NumberedProduction.rename f) := by
  rw [numbered, numbered, rename, List.zipIdx_map, List.map_map, List.map_map]
  rfl

include hf

/-- The same productions are proofs, round after round. -/
theorem Grammar.renames_emptyProofs : g.emptyProofs.Renames f (g.rename f).emptyProofs := by
  have hlength : (g.rename f).productions.length = g.productions.length := List.length_map _
  have hempty : EmptyProofs.Renames f Register.empty Register.empty := ⟨hf, fun _ => rfl, rfl⟩
  rw [emptyProofs, emptyProofs, hlength]
  refine saturate_rel (fun ps ps' h => ?_) (fun _ _ h => h.size_eq) _ hempty
  rw [numbered_rename, List.foldl_map]
  exact List.foldl_rel h fun e _ _ _ h => h.consider e

theorem Grammar.nilable_rename (x : Symbol) :
    (g.rename f).emptyProofs.nilable (x.rename f) = g.emptyProofs.nilable x :=
  (g.renames_emptyProofs hf).nilable_eq x

end Nilability

section Variants

theorem Symbol.isEmptyLiteral_rename (x : Symbol) :
    (x.rename f).isEmptyLiteral = x.isEmptyLiteral := by
  cases x <;> rfl

theorem Symbol.term?_rename (x : Symbol) : (x.rename f).term? = x.term? := by
  cases x <;> rfl

variable {f} {nilable nilable' : Symbol → Bool}
  (h : ∀ x : Symbol, nilable' (x.rename f) = nilable x)

include h in
theorem slotChoices_rename (xs : List Symbol) : slotChoices nilable' (xs.map (Symbol.rename f)) =
    (slotChoices nilable xs).map (List.map (Slot.rename f)) := by
  induction xs with
  | nil => rfl
  | cons x xs ih =>
    have keep (b : Bool) : ((slotChoices nilable xs).map (List.map (Slot.rename f))).map
        (⟨x.rename f, b⟩ :: ·) = ((slotChoices nilable xs).map (⟨x, b⟩ :: ·)).map
          (List.map (Slot.rename f)) := by
      rw [List.map_map, List.map_map]
      rfl
    rw [List.map_cons, slotChoices, slotChoices, ih, Symbol.isEmptyLiteral_rename, h]
    simp only [keep]
    split
    · rfl
    · split
      · rw [List.map_append]
      · rfl

theorem Variant.head_rename (v : Variant) : (v.rename f).head = v.head.rename f := by
  rw [head, head, rename]
  cases v.label <;> rfl

theorem Variant.kept_rename (v : Variant) : (v.rename f).kept = v.kept.map (Symbol.rename f) := by
  rw [kept, kept, rename, List.filter_map, List.map_map, List.map_map]
  rfl

theorem Variant.unitTarget?_rename (v : Variant) :
    (v.rename f).unitTarget? = v.unitTarget?.map (Nonterm.rename f) := by
  rw [unitTarget?, unitTarget?, kept_rename]
  rcases v.kept with _ | ⟨x, _ | ⟨y, xs⟩⟩
  · rfl
  · cases x <;> rfl
  · cases x <;> rfl

theorem Nonterm.rename_injective (hf : Function.Injective f) : Function.Injective (rename f) := by
  intro a b hab
  cases a <;> cases b <;> simp_all [rename, hf.eq_iff]

namespace Grammar

include h in
theorem variantSlots_rename (p : Production) : variantSlots nilable' (p.rename f) =
    (variantSlots nilable p).map (List.map (Slot.rename f)) := by
  rw [variantSlots, variantSlots, Production.rename, slotChoices_rename h, List.filter_map]
  congr 1
  refine List.filter_congr fun slots _ => ?_
  rw [Function.comp_apply, List.any_map]
  rfl

include h in
/-- The variants are the same in the same order, under other names. -/
theorem variants_rename (g : Grammar) :
    (g.rename f).variants nilable' = (g.variants nilable).map (Variant.rename f) := by
  have hslots : (g.rename f).unnumbered nilable' =
      (g.unnumbered nilable).map (Prod.map (Option.map f) (List.map (Slot.rename f))) := by
    rw [unnumbered, unnumbered, List.map_cons, rename, List.flatMap_map, List.map_flatMap]
    congr 1
    refine List.flatMap_congr fun p _ => ?_
    rw [variantSlots_rename h, List.map_map, List.map_map]
    rfl
  have hvariants (g : Grammar) (nilable : Symbol → Bool) : g.variants nilable =
      (g.unnumbered nilable).zipIdx.map fun e => ⟨e.2, e.1.1, e.1.2⟩ := rfl
  rw [hvariants, hvariants, hslots, List.zipIdx_map, List.map_map, List.map_map]
  rfl

theorem heads_rename (hf : Function.Injective f) (g : Grammar) :
    (g.rename f).heads = g.heads.map (Nonterm.rename f) := by
  have hlhs : (g.rename f).productions.map (·.lhs) = (g.productions.map (·.lhs)).map f := by
    rw [rename, List.map_map, List.map_map]
    rfl
  rw [heads, heads, hlhs, distinct_map hf, List.map_cons, List.map_map, List.map_map]
  rfl

end Grammar
end Variants
end ContextFree
