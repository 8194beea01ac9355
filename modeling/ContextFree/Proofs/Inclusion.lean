import ContextFree.Proofs.Diagnosis

/-! Inclusion. A grammar is included in another with the same start if whatever its start leads to
has no productions that the other has not. Everything that answers are made of then carries over:
derivations, empty words, variants and their routes, sentences, and the lists of symbols that the
non-terminals of the normal form stand for, whatever numbers these have. -/
namespace ContextFreeGrammar

/-- Rules that are needed for a phrase are enough to spell it. -/
theorem Spells.of_closed {T N : Type} {rules rules' : Finset (ContextFreeRule T N)} {P : N → Prop}
    (hrules : ∀ r ∈ rules, P r.input → r ∈ rules' ∧ ∀ n, .nonterminal n ∈ r.output → P n)
    {u : Phrase T N} {w : List T} (h : Spells rules u w) (hu : ∀ n, .nonterminal n ∈ u → P n) :
    Spells rules' u w := by
  induction h with
  | nil => exact .nil
  | terminal _ ih => exact .terminal (ih fun n hn => hu n (.tail _ hn))
  | nonterminal hr _ _ ih ihs =>
    obtain ⟨hr', houtput⟩ := hrules _ hr (hu _ (.head _))
    exact .nonterminal hr' (ih houtput) (ihs fun n hn => hu n (.tail _ hn))

end ContextFreeGrammar

namespace ContextFree
open ContextFreeGrammar (Phrase Spells)

namespace Grammar

/-- The names that the start leads to through right-hand sides. -/
inductive Accessible (g : Grammar) : String → Prop
  | start : Accessible g g.start
  | reference {p : Production} {name : String} (hp : p ∈ g.productions) (h : Accessible g p.lhs)
    (hn : name ∈ p.references) : Accessible g name

/-- Terminals, and the names that the start leads to. -/
def AccessibleSymbol (g : Grammar) : Symbol → Prop
  | .nonterm name => g.Accessible name
  | .term _ => True

/-- The start leads to the name that a non-terminal stands for, if there is one. -/
def AccessibleHead (g : Grammar) (n : Nonterm) : Prop :=
  ∀ name, n.name? g = some name → g.Accessible name

/-- Of what the start leads to, the other grammar has all productions. -/
structure Included (g h : Grammar) : Prop where
  start_eq : g.start = h.start
  mem : ∀ p ∈ g.productions, g.Accessible p.lhs → p ∈ h.productions

theorem Accessible.symbol {g : Grammar} {p : Production} (hp : p ∈ g.productions)
    (h : g.Accessible p.lhs) : ∀ x ∈ p.rhs, g.AccessibleSymbol x := by
  intro x hx
  cases x with
  | term t => trivial
  | nonterm name => exact .reference hp h (List.mem_filterMap.2 ⟨_, hx, rfl⟩)

end Grammar

section Derivations
variable [Pattern.Engine] {g h : Grammar} {w : String}

mutual
theorem DerivesAcyclic.of_included (hgh : g.Included h) {above : List (String × Nat × Nat)}
    {x : Symbol} {a b : Nat} {t : ParseTree} :
    DerivesAcyclic g w above x a b t → g.AccessibleSymbol x → DerivesAcyclic h w above x a b t
  | .term ht, _ => .term ht
  | .node hp hn hts, hx =>
    .node (hgh.mem _ hp hx) hn (hts.of_included hgh (Grammar.Accessible.symbol hp hx))
theorem DerivesAllAcyclic.of_included (hgh : g.Included h) {above : List (String × Nat × Nat)}
    {xs : List Symbol} {a b : Nat} {ts : List ParseTree} :
    DerivesAllAcyclic g w above xs a b ts → (∀ x ∈ xs, g.AccessibleSymbol x) →
      DerivesAllAcyclic h w above xs a b ts
  | .nil, _ => .nil
  | .cons ht hts, hxs =>
    .cons (ht.of_included hgh (hxs _ (.head _))) (hts.of_included hgh fun x hx => hxs x (.tail _ hx))
end

variable (hgh : g.Included h)
include hgh

theorem PartsDerive.of_included {above : List (String × Nat × Nat)} {xs : List Symbol} {a b : Nat}
    {ps : Parts} (hps : PartsDerive g w above xs a b ps) (hxs : ∀ x ∈ xs, g.AccessibleSymbol x) :
    PartsDerive h w above xs a b ps := by
  induction hps with
  | nil => exact .nil
  | cons hab ht _ ih =>
    exact .cons hab (ht.of_included hgh (hxs _ (.head _))) (ih fun x hx => hxs x (.tail _ hx))

namespace Grammar.Included

theorem generates (hw : g.Generates w) : h.Generates w := by
  obtain ⟨t, ht⟩ := generates_iff_acyclic.1 hw
  have hstart : g.AccessibleSymbol (.nonterm g.start) := Accessible.start
  have ht := ht.of_included hgh hstart
  rw [hgh.start_eq] at ht
  exact ⟨t, ht.derives⟩

omit [Pattern.Engine] in
theorem nilable {x : Symbol} (hx : g.AccessibleSymbol x)
    (hnil : g.emptyProofs.nilable x = true) : h.emptyProofs.nilable x = true := by
  revert hx
  refine nilable_induction hnil (fun t ht _ => ht) fun p hp hrhs hlhs => ?_
  have hsymbols := Accessible.symbol hp hlhs
  exact h.emptyProofs_spec.2 p (hgh.mem p hp hlhs) fun y hy => hrhs y hy (hsymbols y hy)

omit [Pattern.Engine] in
theorem slotChoices {xs : List Symbol} (hxs : ∀ x ∈ xs, g.AccessibleSymbol x) {slots : List Slot}
    (hslots : slots ∈ ContextFree.slotChoices g.emptyProofs.nilable xs) :
    slots ∈ ContextFree.slotChoices h.emptyProofs.nilable xs := by
  induction xs generalizing slots with
  | nil => exact hslots
  | cons x xs ih =>
    obtain ⟨kept, rest, rfl, hrest, hkeep, hdrop⟩ := mem_slotChoices_cons.1 hslots
    obtain ⟨hx, hxs⟩ := List.forall_mem_cons.1 hxs
    exact mem_slotChoices_cons.2
      ⟨kept, rest, rfl, ih hxs hrest, hkeep, fun hk => hgh.nilable hx (hdrop hk)⟩

end Grammar.Included
end Derivations

section Variants
variable {g : Grammar} {v : Variant} {n m : Nonterm} {route : Route} {stops : List Nonterm}

/-- The start leads to whatever a variant keeps, if it leads to the variant's head. -/
theorem accessible_of_mem_kept (hv : v ∈ g.ownVariants) (hhead : g.AccessibleHead v.head) :
    ∀ x ∈ v.kept, g.AccessibleSymbol x := by
  rcases Grammar.cases_of_mem_variants hv with ⟨-, hkept⟩ | ⟨p, hp, hlabel, hslots⟩
  · intro x hx
    obtain rfl : x = .nonterm g.start := by simpa [hkept] using hx
    exact Grammar.Accessible.start
  · intro x hx
    rw [Variant.kept_eq, keptSymbols, List.mem_map] at hx
    obtain ⟨s, hs, rfl⟩ := hx
    have hlhs : g.Accessible p.lhs := hhead _ (by rw [Variant.head, hlabel]; rfl)
    apply hlhs.symbol hp
    rw [← symbols_of_mem_slotChoices (Grammar.mem_variantSlots.1 hslots).1]
    exact List.mem_map_of_mem (List.mem_of_mem_filter hs)

theorem accessibleHead_of_travels (h : Travels g.ownVariants n route stops m)
    (hn : g.AccessibleHead n) : g.AccessibleHead m := by
  induction h with
  | nil => exact hn
  | cons hu hh hc _ ih =>
    obtain ⟨name, hkept, rfl⟩ := Variant.unitTarget?_eq_some.1 hc
    refine ih fun name' hname => ?_
    obtain rfl := Option.some.inj hname
    exact accessible_of_mem_kept hu (hh ▸ hn) _ (by rw [hkept]; exact .head _)

namespace Grammar.Included
variable {h : Grammar} (hgh : g.Included h)
include hgh

theorem exists_variant (hv : v ∈ g.ownVariants) (hhead : g.AccessibleHead v.head) :
    ∃ v' ∈ h.ownVariants, v'.head = v.head ∧ v'.kept = v.kept := by
  rcases cases_of_mem_variants hv with ⟨hlabel, hkept⟩ | ⟨p, hp, hlabel, hslots⟩
  · obtain ⟨v', hv', hlabel', hkept'⟩ := exists_start_variant h h.emptyProofs.nilable
    refine ⟨v', hv', ?_, ?_⟩
    · rw [Variant.head, Variant.head, hlabel, hlabel']
    · rw [hkept', hkept, hgh.start_eq]
  · have hlhs : g.Accessible p.lhs := hhead _ (by rw [Variant.head, hlabel]; rfl)
    obtain ⟨hchoice, hne⟩ := mem_variantSlots.1 hslots
    have hslots' : v.slots ∈ variantSlots h.emptyProofs.nilable p :=
      mem_variantSlots.2 ⟨hgh.slotChoices (hlhs.symbol hp) hchoice, hne⟩
    obtain ⟨v', hv', hlabel', hslots'⟩ := exists_source_variant (hgh.mem p hp hlhs) hslots'
    refine ⟨v', hv', ?_, ?_⟩
    · rw [Variant.head, Variant.head, hlabel, hlabel']
    · rw [Variant.kept_eq, Variant.kept_eq, hslots']

theorem travels (hroute : Travels g.ownVariants n route stops m) (hn : g.AccessibleHead n) :
    ∃ route' stops', Travels h.ownVariants n route' stops' m := by
  induction hroute with
  | nil => exact ⟨[], [], .nil⟩
  | cons hu hh hc hrest ih =>
    subst hh
    have hstep := accessibleHead_of_travels (.cons hu rfl hc .nil) hn
    obtain ⟨route', stops', htravel⟩ := ih hstep
    obtain ⟨u', hu', hhead, hkept⟩ := hgh.exists_variant hu hn
    refine ⟨_, _, .cons hu' hhead ?_ htravel⟩
    obtain ⟨name, hname, rfl⟩ := Variant.unitTarget?_eq_some.1 hc
    exact Variant.unitTarget?_eq_some.2 ⟨name, hkept.trans hname, rfl⟩

end Grammar.Included
end Variants

section Sentences
variable {g h : Grammar} (hgh : g.Included h) {xs : List Symbol} {ks : List Terminal.Key}

theorem nonterminal_mem_phrase {name : String} :
    .nonterminal name ∈ phrase xs ↔ .nonterm name ∈ xs := by
  rw [phrase, List.mem_map]
  constructor
  · rintro ⟨x, hx, heq⟩
    cases x with
    | nonterm name' => exact Symbol.nonterminal.inj heq ▸ hx
    | term t => simp at heq
  · exact fun hx => ⟨_, hx, rfl⟩

theorem terminal_mem_phrase {k : Terminal.Key} :
    .terminal k ∈ phrase xs ↔ ∃ t, .term t ∈ xs ∧ t.key = k := by
  rw [phrase, List.mem_map]
  constructor
  · rintro ⟨x, hx, heq⟩
    cases x with
    | nonterm name => simp at heq
    | term t => exact ⟨t, hx, Symbol.terminal.inj heq⟩
  · rintro ⟨t, ht, rfl⟩
    exact ⟨_, ht, rfl⟩

namespace Grammar.Included
include hgh

theorem spells (hxs : ∀ x ∈ xs, g.AccessibleSymbol x) (hspells : Spells g.rewriteRules (phrase xs) ks) :
    Spells h.rewriteRules (phrase xs) ks := by
  refine hspells.of_closed (P := g.Accessible) (fun r hr hinput => ?_)
    fun name hname => hxs _ (nonterminal_mem_phrase.1 hname)
  obtain ⟨p, hp, rfl⟩ := mem_rewriteRules.1 hr
  refine ⟨mem_rewriteRules.2 ⟨p, hgh.mem p hp hinput, rfl⟩, fun name hname => ?_⟩
  exact hinput.symbol hp _ (nonterminal_mem_phrase.1 hname)

theorem spells_variants (hxs : ∀ x ∈ xs, g.AccessibleSymbol x)
    (hspells : Spells g.variantRules (phrase xs) ks) : Spells h.variantRules (phrase xs) ks := by
  refine hspells.of_closed (P := g.Accessible) (fun r hr hinput => ?_)
    fun name hname => hxs _ (nonterminal_mem_phrase.1 hname)
  obtain ⟨v, hv, hlabel, houtput⟩ := mem_variantRules.1 hr
  have hhead : g.AccessibleHead v.head := by
    rw [Variant.head, hlabel]
    intro name hname
    exact Option.some.inj hname ▸ hinput
  obtain ⟨v', hv', hhead', hkept⟩ := hgh.exists_variant hv hhead
  have hlabel' : v'.label = some r.input := by
    rw [Variant.head, Variant.head, hlabel] at hhead'
    cases hl : v'.label with
    | none => simp [hl] at hhead'
    | some name => simpa [hl] using hhead'
  refine ⟨mem_variantRules.2 ⟨v', hv', hlabel', by rw [houtput, hkept]⟩, fun name hname => ?_⟩
  rw [houtput, nonterminal_mem_phrase] at hname
  exact accessible_of_mem_kept hv hhead _ hname

end Grammar.Included
end Sentences

end ContextFree
