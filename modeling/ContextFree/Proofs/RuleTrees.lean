import ContextFree.Proofs.Usefulness

/-! Rule trees. A derivation by the rules of a normal form is a tree with a rule at every node: a
terminal rule is a leaf, and below a pair stands a tree for each of the two. Pruning keeps just the
rules that occur in trees of the start, and a normal form is empty just if its grammar has no
sentence. -/
namespace ContextFree

inductive RuleTree (ν τ : Type)
  | leaf (r : Rule ν τ)
  | fork (r : Rule ν τ) (left right : RuleTree ν τ)

namespace RuleTree
variable {ν τ : Type}

/-- The rules at the nodes, from the root down and from left to right. -/
def rules : RuleTree ν τ → List (Rule ν τ)
  | leaf r => [r]
  | fork r left right => r :: (left.rules ++ right.rules)

/-- A tree that derives terminals from a non-terminal by given rules. -/
inductive Complete (rules : List (Rule ν τ)) : ν → RuleTree ν τ → Prop
  | leaf {r : Rule ν τ} {t : τ} (hr : r ∈ rules) (hb : r.body = .term t) :
    Complete rules r.lhs (.leaf r)
  | fork {r : Rule ν τ} {b c : ν} {left right : RuleTree ν τ} (hr : r ∈ rules)
    (hb : r.body = .pair b c) (hleft : Complete rules b left) (hright : Complete rules c right) :
    Complete rules r.lhs (.fork r left right)

/-- A rule is at some node of a complete tree of the start. -/
def Occurs (start : ν) (rules : List (Rule ν τ)) (r : Rule ν τ) : Prop :=
  ∃ t, Complete rules start t ∧ r ∈ t.rules

variable {given kept : List (Rule ν τ)} {n start : ν} {t : RuleTree ν τ} {r : Rule ν τ}

/-- Fewer rules are enough if they are those of the nodes. -/
theorem Complete.of_rules_subset (h : Complete given n t) (hkept : t.rules ⊆ kept) :
    Complete kept n t := by
  induction h with
  | leaf _ hb => exact .leaf (hkept (.head _)) hb
  | fork _ hb _ _ ihleft ihright =>
    obtain ⟨hr, hkept⟩ := List.cons_subset.1 hkept
    obtain ⟨hleft, hright⟩ := List.append_subset.1 hkept
    exact .fork hr hb (ihleft hleft) (ihright hright)

theorem Complete.generating (h : Complete given n t) : Generating given n := by
  induction h with
  | leaf hr hb => exact .rule hr (by simp [Rule.references, hb])
  | fork hr hb _ _ ihleft ihright => exact .rule hr (by simp [Rule.references, hb, ihleft, ihright])

theorem exists_complete_of_rule (hr : r ∈ given)
    (h : ∀ m ∈ r.references, ∃ t, Complete given m t) :
    ∃ t, Complete given r.lhs t ∧ r ∈ t.rules := by
  cases hb : r.body with
  | term _ => exact ⟨.leaf r, .leaf hr hb, .head _⟩
  | pair b c =>
    have hrefs := Rule.references_of_pair hb
    obtain ⟨left, hleft⟩ := h b (by simp [hrefs])
    obtain ⟨right, hright⟩ := h c (by simp [hrefs])
    exact ⟨.fork r left right, .fork hr hb hleft hright, .head _⟩

theorem exists_complete_of_generating (h : Generating given n) : ∃ t, Complete given n t := by
  induction h with
  | rule hr _ ih =>
    obtain ⟨t, ht, -⟩ := exists_complete_of_rule hr ih
    exact ⟨t, ht⟩

variable [DecidableEq ν] [Coded ν]

/-- Whether rules all of whose references generate lead from the start to a non-terminal. -/
def FromStart (start : ν) (rules : List (Rule ν τ)) (n : ν) : Prop :=
  Reached start (rules.filter (Rule.productive (ContextFree.generating rules))) n

/-- A tree of a non-terminal that the start leads to is a part of a tree of the start. The
induction follows the way from the start; the other non-terminal of a pair has a tree of its own. -/
theorem exists_complete_of_fromStart (h : FromStart start given n) (ht : Complete given n t) :
    ∃ whole, Complete given start whole ∧ t.rules ⊆ whole.rules := by
  induction h generalizing t with
  | start => exact ⟨t, ht, List.Subset.refl _⟩
  | @rule r n hr _ hn ih =>
    obtain ⟨hr, hgen⟩ := mem_filter_productive.1 hr
    cases hb : r.body with
    | term _ => simp [Rule.references, hb] at hn
    | pair b c =>
      have hrefs := Rule.references_of_pair hb
      rw [hrefs, List.mem_pair] at hn
      rcases hn with rfl | rfl
      · obtain ⟨right, hright⟩ := exists_complete_of_generating (hgen c (by simp [hrefs]))
        obtain ⟨whole, hwhole, hsub⟩ := ih (.fork hr hb ht hright)
        exact ⟨whole, hwhole, fun s hs => hsub (by simp [rules, hs])⟩
      · obtain ⟨left, hleft⟩ := exists_complete_of_generating (hgen b (by simp [hrefs]))
        obtain ⟨whole, hwhole, hsub⟩ := ih (.fork hr hb hleft ht)
        exact ⟨whole, hwhole, fun s hs => hsub (by simp [rules, hs])⟩

/-- Pruning spares the trees of what the start leads to. -/
theorem Complete.rules_subset_prune (h : Complete given n t) (hn : FromStart start given n) :
    t.rules ⊆ prune start given := by
  induction h with
  | leaf hr hb =>
    rw [rules, List.cons_subset, mem_prune]
    exact ⟨⟨hr, by simp [Rule.references, hb], hn⟩, List.nil_subset _⟩
  | @fork r b c left right hr hb hleft hright ihleft ihright =>
    have hrefs := Rule.references_of_pair hb
    have hgen : ∀ m ∈ r.references, Generating given m := by
      simp [hrefs, hleft.generating, hright.generating]
    have fromStart {m : ν} (hm : m ∈ r.references) : FromStart start given m :=
      .rule (mem_filter_productive.2 ⟨hr, hgen⟩) hn hm
    rw [rules, List.cons_subset, List.append_subset, mem_prune]
    exact ⟨⟨hr, hgen, hn⟩, ihleft (fromStart (by simp [hrefs])),
      ihright (fromStart (by simp [hrefs]))⟩

theorem mem_prune_iff_occurs : r ∈ prune start given ↔ Occurs start given r := by
  constructor
  · intro h
    obtain ⟨hr, hgen, hfrom⟩ := mem_prune.1 h
    obtain ⟨t, ht, hrt⟩ := exists_complete_of_rule hr fun m hm =>
      exists_complete_of_generating (hgen m hm)
    obtain ⟨whole, hwhole, hsub⟩ := exists_complete_of_fromStart hfrom ht
    exact ⟨whole, hwhole, hsub hrt⟩
  · rintro ⟨t, ht, hr⟩
    exact ht.rules_subset_prune .start hr

theorem Occurs.prune (h : Occurs start given r) : Occurs start (prune start given) r := by
  obtain ⟨t, ht, hr⟩ := h
  exact ⟨t, ht.of_rules_subset (ht.rules_subset_prune .start), hr⟩

open scoped Classical in
theorem prune_eq_filter (start : ν) (given : List (Rule ν τ)) :
    prune start given = given.filter (Occurs start given ·) := by
  rw [ContextFree.prune, List.filter_filter]
  refine List.filter_congr fun r hr => ?_
  rw [Bool.eq_iff_iff, decide_eq_true_eq, ← mem_prune_iff_occurs, mem_prune, Bool.and_eq_true,
    Roster.has_iff, mem_reachable, productive_iff, and_iff_right hr, and_comm]
  simp only [mem_generating]

end RuleTree

namespace NormalForm

/-- There is a rule of use just if there is a sentence that is not empty. -/
theorem exists_rule_iff_exists_sentence {g : Grammar} : (∃ r, r ∈ g.normalForm.rules) ↔
    ∃ ks, ks ∈ g.normalForm.toContextFreeGrammar.language := by
  simp only [ContextFreeGrammar.mem_language_iff_spells]
  constructor
  · rintro ⟨r, hr⟩
    obtain ⟨hr, hgen, hreach⟩ := mem_rules_normalForm.1 hr
    obtain ⟨ks, hks⟩ := exists_spells_of_generating (.rule hr hgen) hreach
    obtain ⟨before, after, h⟩ := exists_sentence_of_reached hreach hks
    exact ⟨_, h⟩
  · rintro ⟨ks, h⟩
    obtain ⟨r, hr, -⟩ := ContextFreeGrammar.spells_nonterminal.1 h
    obtain ⟨r, hr, -⟩ := NormalForm.mem_rewriteRules.1 hr
    exact ⟨r, hr⟩

theorem isEmpty_iff {g : Grammar} :
    g.normalForm.isEmpty = true ↔ ∀ us, us ∉ g.toContextFreeGrammar.language := by
  obtain ⟨hrest, hempty⟩ := language_normalForm g
  have hrules : g.normalForm.rules.isEmpty = true ↔ ¬ ∃ r, r ∈ g.normalForm.rules := by
    rw [List.isEmpty_iff, List.eq_nil_iff_forall_not_mem, not_exists]
  rw [isEmpty, Bool.and_eq_true, Bool.not_eq_true', ← Bool.not_eq_true, hrules, hempty,
    exists_rule_iff_exists_sentence]
  simp only [hrest]
  constructor
  · rintro ⟨hno, hnone⟩ us hus
    exact hno ⟨_, fun h => hnone ⟨us, hus, h⟩, us, hus, rfl⟩
  · intro h
    constructor
    · rintro ⟨ks, -, us, hus, -⟩
      exact h us hus
    · rintro ⟨us, hus, -⟩
      exact h us hus

end NormalForm

open scoped Classical in
/-- Pruning leaves just the rules that occur in complete trees of the start, in their order, and
leaves these alone when it is done again; and so a normal form is empty just if its grammar has no
sentence, not even the empty one. -/
theorem prune_exact :
    (∀ {ν τ : Type} [DecidableEq ν] [Coded ν] (start : ν) (rules : List (Rule ν τ)),
      prune start rules = rules.filter (RuleTree.Occurs start rules ·) ∧
        prune start (prune start rules) = prune start rules) ∧
      ∀ g : Grammar, g.normalForm.isEmpty = true ↔ ∀ us, us ∉ g.toContextFreeGrammar.language := by
  refine ⟨fun start rules => ⟨RuleTree.prune_eq_filter start rules, ?_⟩,
    fun _ => NormalForm.isEmpty_iff⟩
  rw [RuleTree.prune_eq_filter start (prune start rules), List.filter_eq_self]
  intro r hr
  exact decide_eq_true (RuleTree.mem_prune_iff_occurs.1 hr).prune

end ContextFree
