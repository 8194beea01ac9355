import ContextFree.Proofs.Rewriting
import ContextFree.Proofs.Rules

/-! Compaction. The variants of productions spell what the productions spell, without the empty
literals: what spells nothing is dropped, and only that. -/
namespace ContextFree
open ContextFreeGrammar (Phrase Spells)

/-- Whether a key is that of the empty literal. -/
def Terminal.Key.isEmpty : Terminal.Key → Bool
  | .literal s => s.toList.isEmpty
  | _ => false

@[simp] theorem Terminal.isEmpty_key (t : Terminal) : t.key.isEmpty = t.isEmpty := by
  cases t <;> rfl

/-- A sentence without its empty literals. -/
def withoutEmpties (ks : List Terminal.Key) : List Terminal.Key := ks.filter (!·.isEmpty)

@[simp] theorem withoutEmpties_nil : withoutEmpties [] = [] := rfl

@[simp] theorem withoutEmpties_append (ks ls : List Terminal.Key) :
    withoutEmpties (ks ++ ls) = withoutEmpties ks ++ withoutEmpties ls := by simp [withoutEmpties]

theorem withoutEmpties_cons (t : Terminal) (ks : List Terminal.Key) :
    withoutEmpties (t.key :: ks) =
      if t.isEmpty then withoutEmpties ks else t.key :: withoutEmpties ks := by
  cases h : t.isEmpty <;> simp [withoutEmpties, h]

/-- Symbols as a phrase, where terminals go by their keys. -/
def phrase (xs : List Symbol) : Phrase Terminal.Key String :=
  xs.map fun x => match x with
    | .nonterm name => .nonterminal name
    | .term t => .terminal t.key

@[simp] theorem phrase_nil : phrase [] = [] := rfl

@[simp] theorem phrase_nonterm (name : String) (xs : List Symbol) :
    phrase (.nonterm name :: xs) = .nonterminal name :: phrase xs := rfl

@[simp] theorem phrase_term (t : Terminal) (xs : List Symbol) :
    phrase (.term t :: xs) = .terminal t.key :: phrase xs := rfl

@[simp] theorem phrase_append (xs ys : List Symbol) : phrase (xs ++ ys) = phrase xs ++ phrase ys :=
  List.map_append

section Phrase
variable {xs : List Symbol} {u : Phrase Terminal.Key String}

theorem phrase_eq_nil : phrase xs = [] ↔ xs = [] := List.map_eq_nil_iff

theorem phrase_eq_terminal_cons {k : Terminal.Key} : phrase xs = .terminal k :: u ↔
    ∃ t ys, xs = .term t :: ys ∧ t.key = k ∧ phrase ys = u := by
  constructor
  · intro h
    obtain ⟨x, ys, rfl, hx, hys⟩ := List.map_eq_cons_iff.1 h
    cases x with
    | nonterm name => simp at hx
    | term t => exact ⟨t, ys, rfl, Symbol.terminal.inj hx, hys⟩
  · rintro ⟨t, ys, rfl, rfl, rfl⟩
    rfl

theorem phrase_eq_nonterminal_cons {name : String} : phrase xs = .nonterminal name :: u ↔
    ∃ ys, xs = .nonterm name :: ys ∧ phrase ys = u := by
  constructor
  · intro h
    obtain ⟨x, ys, rfl, hx, hys⟩ := List.map_eq_cons_iff.1 h
    cases x with
    | nonterm n => exact ⟨ys, by rw [Symbol.nonterminal.inj hx], hys⟩
    | term t => simp at hx
  · rintro ⟨ys, rfl, rfl⟩
    rfl

end Phrase

namespace Grammar

/-- The productions as rules that rewrite. -/
def rewriteRules (g : Grammar) : Finset (ContextFreeRule Terminal.Key String) :=
  (g.productions.map fun p => ⟨p.lhs, phrase p.rhs⟩).toFinset

/-- A grammar as a system that rewrites its start symbol. -/
def toContextFreeGrammar (g : Grammar) : ContextFreeGrammar Terminal.Key where
  NT := String
  initial := g.start
  rules := g.rewriteRules

/-- The variants of productions as rules that rewrite. -/
def variantRules (g : Grammar) : Finset (ContextFreeRule Terminal.Key String) :=
  (g.ownVariants.filterMap fun v => v.label.map fun name => ⟨name, phrase v.kept⟩).toFinset

variable {g : Grammar} {r : ContextFreeRule Terminal.Key String}

theorem mem_rewriteRules :
    r ∈ g.rewriteRules ↔ ∃ p ∈ g.productions, r = ⟨p.lhs, phrase p.rhs⟩ := by
  simp [rewriteRules, eq_comm]

theorem mem_variantRules :
    r ∈ g.variantRules ↔ ∃ v ∈ g.ownVariants, v.label = some r.input ∧ r.output = phrase v.kept := by
  simp only [variantRules, List.mem_toFinset, List.mem_filterMap, Option.map_eq_some_iff]
  constructor
  · rintro ⟨v, hv, name, hlabel, rfl⟩
    exact ⟨v, hv, hlabel, rfl⟩
  · rintro ⟨v, hv, hlabel, houtput⟩
    exact ⟨v, hv, r.input, hlabel, by rw [← houtput]⟩

end Grammar

variable {g : Grammar} {xs : List Symbol} {us ks : List Terminal.Key}

/-- Variants spell no empty sentence. -/
theorem ne_nil_of_spells (h : Spells g.variantRules (phrase xs) ks) (hxs : xs ≠ []) : ks ≠ [] := by
  have key : ∀ u ks, Spells g.variantRules u ks → u ≠ [] → ks ≠ [] := by
    intro u ks h
    induction h with
    | nil => simp
    | terminal => simp
    | nonterminal hr _ _ ih =>
      obtain ⟨v, hv, -, houtput⟩ := Grammar.mem_variantRules.1 hr
      have houtput : phrase v.kept ≠ [] := by simp [phrase, Grammar.kept_ne_nil hv]
      simp_all
  exact key _ _ h (by simp [phrase, hxs])

/-- The production of a variant keeps something if its choice does; if not, it is nilable. -/
theorem nilable_of_keptSymbols_eq_nil {p : Production} (hp : p ∈ g.productions)
    {slots : List Slot} (hslots : slots ∈ slotChoices g.emptyProofs.nilable p.rhs)
    (hkept : keptSymbols slots = []) : g.emptyProofs.nilable (.nonterm p.lhs) = true := by
  apply g.emptyProofs_spec.2 p hp
  intro x hx
  rw [← symbols_of_mem_slotChoices hslots] at hx
  obtain ⟨s, hs, rfl⟩ := List.mem_map.1 hx
  have hdropped : s.kept = false := by
    by_contra hk
    have hmem : s.symbol ∈ keptSymbols slots :=
      List.mem_map_of_mem (List.mem_filter.2 ⟨hs, by simpa using hk⟩)
    simp [hkept] at hmem
  exact nilable_of_mem_slotChoices hslots s hs hdropped

/-- What productions spell, the variants spell by a choice of what is kept. The induction follows
the spelling: a non-terminal is kept if its part is not empty. -/
theorem exists_slots_of_spells (h : Spells g.rewriteRules (phrase xs) us) :
    ∃ slots ∈ slotChoices g.emptyProofs.nilable xs,
      Spells g.variantRules (phrase (keptSymbols slots)) (withoutEmpties us) := by
  generalize hu : phrase xs = u at h
  induction h generalizing xs with
  | nil =>
    obtain rfl := phrase_eq_nil.1 hu
    exact ⟨[], by simp [slotChoices], .nil⟩
  | terminal _ ih =>
    obtain ⟨t, ys, rfl, rfl, hys⟩ := phrase_eq_terminal_cons.1 hu
    obtain ⟨slots, hslots, hspells⟩ := ih hys
    rw [withoutEmpties_cons]
    by_cases he : t.isEmpty = true
    · refine ⟨⟨.term t, false⟩ :: slots, ?_, by simpa [he] using hspells⟩
      exact mem_slotChoices_cons.2 ⟨false, slots, rfl, hslots, by simp, fun _ => he⟩
    · refine ⟨⟨.term t, true⟩ :: slots, ?_, by simpa [he] using .terminal hspells⟩
      exact mem_slotChoices_cons.2
        ⟨true, slots, rfl, hslots, fun _ => Bool.eq_false_iff.2 he, by simp⟩
  | @nonterminal r u us ws hr _ _ ih ihs =>
    obtain ⟨ys, rfl, hys⟩ := phrase_eq_nonterminal_cons.1 hu
    obtain ⟨p, hp, rfl⟩ := Grammar.mem_rewriteRules.1 hr
    obtain ⟨inner, hinner, hspells⟩ := ih rfl
    obtain ⟨slots, hslots, hrest⟩ := ihs hys
    rw [withoutEmpties_append]
    by_cases hkept : keptSymbols inner = []
    · have hnil : withoutEmpties us = [] := by simpa [hkept] using hspells
      refine ⟨⟨.nonterm p.lhs, false⟩ :: slots, ?_, by simpa [hnil] using hrest⟩
      exact mem_slotChoices_cons.2 ⟨false, slots, rfl, hslots, by simp,
        fun _ => nilable_of_keptSymbols_eq_nil hp hinner hkept⟩
    · obtain ⟨v, hv, hlabel, rfl⟩ := Grammar.exists_source_variant hp
        (Grammar.mem_variantSlots.2 ⟨hinner, hkept⟩)
      refine ⟨⟨.nonterm p.lhs, true⟩ :: slots, ?_, ?_⟩
      · exact mem_slotChoices_cons.2 ⟨true, slots, rfl, hslots, fun _ => rfl, by simp⟩
      · simpa using .nonterminal (r := ⟨p.lhs, phrase v.kept⟩)
          (Grammar.mem_variantRules.2 ⟨v, hv, hlabel, rfl⟩) hspells hrest

/-- Symbols that spell sentences of empty literals do so one after the other. -/
theorem exists_spells_empties {xs : List Symbol}
    (h : ∀ x ∈ xs, ∃ us, Spells g.rewriteRules (phrase [x]) us ∧ withoutEmpties us = []) :
    ∃ us, Spells g.rewriteRules (phrase xs) us ∧ withoutEmpties us = [] := by
  induction xs with
  | nil => exact ⟨[], .nil, rfl⟩
  | cons x xs ih =>
    obtain ⟨us, hus, hnil⟩ := h x (.head _)
    obtain ⟨ws, hws, hnil'⟩ := ih fun y hy => h y (.tail _ hy)
    refine ⟨us ++ ws, ?_, by simp [hnil, hnil']⟩
    simpa using phrase_append [x] xs ▸ hus.append hws

/-- A nilable symbol spells a sentence of empty literals only. -/
theorem exists_spells_of_nilable {x : Symbol} (hx : g.emptyProofs.nilable x = true) :
    ∃ us, Spells g.rewriteRules (phrase [x]) us ∧ withoutEmpties us = [] := by
  refine Grammar.nilable_induction hx (fun t ht => ?_) fun p hp hrhs => ?_
  · exact ⟨[t.key], .terminal .nil, by simp [withoutEmpties_cons, ht]⟩
  · obtain ⟨us, hus, hnil⟩ := exists_spells_empties hrhs
    exact ⟨us, ContextFreeGrammar.spells_nonterminal.2
      ⟨_, Grammar.mem_rewriteRules.2 ⟨p, hp, rfl⟩, rfl, hus⟩, hnil⟩

/-- What a choice drops can be put back without changing what is spelled. -/
theorem exists_spells_of_slots {slots : List Slot}
    (hslots : slots ∈ slotChoices g.emptyProofs.nilable xs)
    (h : Spells g.rewriteRules (phrase (keptSymbols slots)) us) :
    ∃ ws, Spells g.rewriteRules (phrase xs) ws ∧ withoutEmpties ws = withoutEmpties us := by
  induction xs generalizing slots us with
  | nil =>
    obtain rfl : slots = [] := by simpa [slotChoices] using hslots
    exact ⟨us, h, rfl⟩
  | cons x xs ih =>
    obtain ⟨kept, rest, rfl, hrest, -, hnil⟩ := mem_slotChoices_cons.1 hslots
    have hcons : phrase (x :: xs) = phrase [x] ++ phrase xs := phrase_append [x] xs
    cases kept with
    | false =>
      obtain ⟨ws, hws, heq⟩ := ih hrest (by simpa using h)
      obtain ⟨vs, hvs, hempty⟩ := exists_spells_of_nilable (hnil rfl)
      exact ⟨vs ++ ws, hcons ▸ hvs.append hws, by simp [hempty, heq]⟩
    | true =>
      have hkept : phrase (keptSymbols (⟨x, true⟩ :: rest)) = phrase [x] ++ phrase (keptSymbols rest) := by
        rw [← phrase_append]
        simp
      obtain ⟨u₁, u₂, rfl, h₁, h₂⟩ := ContextFreeGrammar.spells_append.1 (hkept ▸ h)
      obtain ⟨ws, hws, heq⟩ := ih hrest h₂
      exact ⟨u₁ ++ ws, hcons ▸ h₁.append hws, by simp [heq]⟩

theorem isEmptyLiteral_of_kept {slots : List Slot}
    (hslots : slots ∈ slotChoices g.emptyProofs.nilable xs) :
    ∀ x ∈ keptSymbols slots, x.isEmptyLiteral = false := by
  induction xs generalizing slots with
  | nil =>
    obtain rfl : slots = [] := by simpa [slotChoices] using hslots
    simp
  | cons x xs ih =>
    obtain ⟨kept, rest, rfl, hrest, hlit, -⟩ := mem_slotChoices_cons.1 hslots
    cases kept with
    | false => simpa using ih hrest
    | true => simpa [hlit rfl] using ih hrest

/-- What variants spell, the productions spell with some empty literals in it. -/
theorem exists_spells_of_variants (h : Spells g.variantRules (phrase xs) ks)
    (hxs : ∀ x ∈ xs, x.isEmptyLiteral = false) :
    ∃ us, Spells g.rewriteRules (phrase xs) us ∧ withoutEmpties us = ks := by
  generalize hu : phrase xs = u at h
  induction h generalizing xs with
  | nil =>
    obtain rfl := phrase_eq_nil.1 hu
    exact ⟨[], .nil, rfl⟩
  | terminal _ ih =>
    obtain ⟨t, ys, rfl, rfl, hys⟩ := phrase_eq_terminal_cons.1 hu
    obtain ⟨us, hus, rfl⟩ := ih (fun y hy => hxs y (.tail _ hy)) hys
    have hlit : t.isEmpty = false := hxs _ (.head _)
    exact ⟨t.key :: us, .terminal hus, by simp [withoutEmpties_cons, hlit]⟩
  | @nonterminal r u ks ls hr _ _ ih ihs =>
    obtain ⟨ys, rfl, hys⟩ := phrase_eq_nonterminal_cons.1 hu
    obtain ⟨v, hv, hlabel, houtput⟩ := Grammar.mem_variantRules.1 hr
    obtain ⟨hnone, -⟩ | ⟨p, hp, hsome, hslots⟩ := Grammar.cases_of_mem_variants hv
    · simp [hnone] at hlabel
    · obtain ⟨hslots, -⟩ := Grammar.mem_variantSlots.1 hslots
      obtain ⟨us, hus, rfl⟩ := ih (isEmptyLiteral_of_kept hslots) houtput.symm
      rw [houtput, Variant.kept_eq] at hus
      obtain ⟨ws, hws, hempty⟩ := exists_spells_of_slots hslots hus
      obtain ⟨vs, hvs, rfl⟩ := ihs (fun y hy => hxs y (.tail _ hy)) hys
      have hname : p.lhs = r.input := Option.some.inj (hsome.symm.trans hlabel)
      refine ⟨ws ++ vs, ?_, by simp [hempty]⟩
      rw [← hname]
      exact .nonterminal (r := ⟨p.lhs, phrase p.rhs⟩)
        (Grammar.mem_rewriteRules.2 ⟨p, hp, rfl⟩) hws hvs

end ContextFree
