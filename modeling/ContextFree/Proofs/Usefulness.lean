import ContextFree.Proofs.Language

/-! Terminals of use. A rule is left after pruning just if some sentence of the start needs it. So
the terminals that a scan tries are those that sentences of the grammar contain, except for the
empty literals. -/
namespace ContextFreeGrammar

/-- A terminal of a sentence stands in the phrase that spells it, or on the right-hand side of a
rule. -/
theorem Spells.terminal_mem {T N : Type} {rules : Finset (ContextFreeRule T N)} {u : Phrase T N}
    {w : List T} (h : Spells rules u w) {t : T} (ht : t ∈ w) :
    .terminal t ∈ u ∨ ∃ r ∈ rules, .terminal t ∈ r.output := by
  induction h with
  | nil => simp at ht
  | terminal _ ih =>
    rcases List.mem_cons.1 ht with rfl | ht
    · left
      exact .head _
    · exact (ih ht).imp_left (.tail _)
  | nonterminal hr _ _ ih ihs =>
    rcases List.mem_append.1 ht with ht | ht
    · right
      rcases ih ht with hm | hm
      · exact ⟨_, hr, hm⟩
      · exact hm
    · exact (ihs ht).imp_left (.tail _)

end ContextFreeGrammar

namespace ContextFree
open ContextFreeGrammar (Phrase Spells)

variable {g : Grammar} {ks : List Terminal.Key} {n : Nat}

/-- What pruning leaves, by numbers: a rule is kept if the start reaches its left-hand side and all
references generate. -/
theorem mem_rules_normalForm {r : NumberedRule} : r ∈ g.normalForm.rules ↔ r ∈ g.numberedRules ∧
    (∀ m ∈ r.references, Generating g.numberedRules m) ∧ Reached NormalForm.start
      (g.numberedRules.filter (Rule.productive (generating g.numberedRules))) r.lhs := by
  rw [Grammar.rules_normalForm, mem_prune]

/-- Rules of use mention terminals that have entries. -/
theorem exists_term_of_body {r : NumberedRule} (hr : r ∈ g.normalForm.rules) {number : Nat}
    (hb : r.body = .term number) : ∃ t, g.normalForm.terms.toList[number]? = some t := by
  obtain ⟨named, hnamed, rfl⟩ := exists_rule_of_mem hr
  obtain ⟨xs, hxs⟩ := stands_lhs hnamed
  obtain ⟨v, t, -, hv, ht, rfl, -⟩ := exists_termRule hr hxs rfl hb
  obtain ⟨s, hs, -⟩ := exists_termNumber hv ht
  exact ⟨s, hs⟩

/-- A rule of use makes its left-hand side spell what its right-hand side spells. -/
theorem spells_lhs_of_term {r : NumberedRule} (hr : r ∈ g.normalForm.rules) {number : Nat}
    (hb : r.body = .term number) {t : Terminal}
    (ht : g.normalForm.terms.toList[number]? = some t) :
    Spells g.normalForm.rewriteRules [.nonterminal r.lhs] [t.key] :=
  ContextFreeGrammar.spells_nonterminal.2 ⟨⟨r.lhs, [.terminal t.key]⟩,
    NormalForm.mem_rewriteRules.2 ⟨r, hr, rfl, .inl ⟨number, t, hb, ht, rfl⟩⟩, rfl, .terminal .nil⟩

theorem spells_lhs_of_pair {r : NumberedRule} (hr : r ∈ g.normalForm.rules) {b c : Nat}
    (hb : r.body = .pair b c) {ls : List Terminal.Key}
    (hfirst : Spells g.normalForm.rewriteRules [.nonterminal b] ks)
    (hsecond : Spells g.normalForm.rewriteRules [.nonterminal c] ls) :
    Spells g.normalForm.rewriteRules [.nonterminal r.lhs] (ks ++ ls) :=
  ContextFreeGrammar.spells_nonterminal.2 ⟨⟨r.lhs, [.nonterminal b, .nonterminal c]⟩,
    NormalForm.mem_rewriteRules.2 ⟨r, hr, rfl, .inr ⟨b, c, hb, rfl⟩⟩, rfl, hfirst.append hsecond⟩

/-- Whether the start reaches a non-terminal, which goes by number, by rules of use. -/
def Grammar.ReachesNumber (g : Grammar) (n : Nat) : Prop :=
  Reached NormalForm.start
    (g.numberedRules.filter (Rule.productive (generating g.numberedRules))) n

theorem Grammar.ReachesNumber.reference {r : NumberedRule} (hr : r ∈ g.numberedRules)
    (hgen : ∀ m ∈ r.references, Generating g.numberedRules m) (h : g.ReachesNumber r.lhs)
    (hn : n ∈ r.references) : g.ReachesNumber n :=
  .rule (mem_filter_productive.2 ⟨hr, hgen⟩) h hn

/-- What generates and is reached spells a sentence. The induction follows the generation. -/
theorem exists_spells_of_generating (h : Generating g.numberedRules n) :
    g.ReachesNumber n → ∃ ks, Spells g.normalForm.rewriteRules [.nonterminal n] ks := by
  induction h with
  | @rule r hr hgen ih =>
    intro hreach
    have hmem := mem_rules_normalForm.2 ⟨hr, hgen, hreach⟩
    cases hb : r.body with
    | term number =>
      obtain ⟨t, ht⟩ := exists_term_of_body hmem hb
      exact ⟨_, spells_lhs_of_term hmem hb ht⟩
    | pair b c =>
      have hrefs := Rule.references_of_pair hb
      have spelled {m : Nat} (hm : m ∈ r.references) := ih m hm (hreach.reference hr hgen hm)
      obtain ⟨ks, hks⟩ := spelled (m := b) (by simp [hrefs])
      obtain ⟨ls, hls⟩ := spelled (m := c) (by simp [hrefs])
      exact ⟨_, spells_lhs_of_pair hmem hb hks hls⟩

/-- What the start reaches is a part of its sentences. The induction follows the way from the
start; the other non-terminal of a pair spells something beside it. -/
theorem exists_sentence_of_reached (h : g.ReachesNumber n)
    (hn : Spells g.normalForm.rewriteRules [.nonterminal n] ks) :
    ∃ before after, Spells g.normalForm.rewriteRules [.nonterminal NormalForm.start]
      (before ++ ks ++ after) := by
  induction h generalizing ks with
  | start => exact ⟨[], [], by simpa using hn⟩
  | @rule r n hr hreach href ih =>
    obtain ⟨hr, hgen⟩ := mem_filter_productive.1 hr
    have hmem := mem_rules_normalForm.2 ⟨hr, hgen, hreach⟩
    cases hb : r.body with
    | term number => simp [Rule.references, hb] at href
    | pair b c =>
      have hrefs := Rule.references_of_pair hb
      have spelled {m : Nat} (hm : m ∈ r.references) :=
        exists_spells_of_generating (hgen m hm) (Grammar.ReachesNumber.reference hr hgen hreach hm)
      rw [hrefs, List.mem_pair] at href
      rcases href with rfl | rfl
      · obtain ⟨ls, hls⟩ := spelled (m := c) (by simp [hrefs])
        obtain ⟨before, after, h⟩ := ih (spells_lhs_of_pair hmem hb hn hls)
        exact ⟨before, ls ++ after, by simpa using h⟩
      · obtain ⟨ls, hls⟩ := spelled (m := b) (by simp [hrefs])
        obtain ⟨before, after, h⟩ := ih (spells_lhs_of_pair hmem hb hls hn)
        exact ⟨before ++ ls, after, by simpa using h⟩

/-- A key is that of a rule of use just if some sentence of the start contains it. -/
theorem exists_rule_iff_mem_sentence {k : Terminal.Key} :
    (∃ t number, (t, number) ∈ g.normalForm.usefulTerms ∧ t.key = k) ↔
      ∃ ks, Spells g.normalForm.rewriteRules [.nonterminal NormalForm.start] ks ∧ k ∈ ks := by
  constructor
  · rintro ⟨t, number, ht, rfl⟩
    obtain ⟨hget, r, hr, hb⟩ := NormalForm.mem_usefulTerms.1 ht
    obtain ⟨-, -, hreach⟩ := mem_rules_normalForm.1 hr
    obtain ⟨before, after, h⟩ := exists_sentence_of_reached hreach (spells_lhs_of_term hr hb hget)
    exact ⟨_, h, by simp⟩
  · rintro ⟨ks, h, hk⟩
    rcases h.terminal_mem hk with hm | ⟨r, hr, hm⟩
    · simp at hm
    · obtain ⟨r', hr', -, ⟨number, t, hb, ht, houtput⟩ | ⟨b, c, -, houtput⟩⟩ :=
        NormalForm.mem_rewriteRules.1 hr
      · have hkey : k = t.key := by simpa [houtput] using hm
        exact ⟨t, number, NormalForm.mem_usefulTerms.2 ⟨ht, r', hr', hb⟩, hkey.symm⟩
      · simp [houtput] at hm

namespace Grammar

theorem mem_language_iff {us : List Terminal.Key} : us ∈ g.toContextFreeGrammar.language ↔
    Spells g.rewriteRules [.nonterminal g.start] us :=
  ContextFreeGrammar.mem_language_iff_spells

/-- A terminal is of use if some sentence contains it and it is no empty literal. -/
def Useful (g : Grammar) (t : Terminal) : Prop :=
  t.isEmpty = false ∧ ∃ us ∈ g.toContextFreeGrammar.language, t.key ∈ us

/-- The sentences of the normal form contain the same terminals. -/
theorem useful_iff_mem_sentence {t : Terminal} : g.Useful t ↔
    ∃ ks, Spells g.normalForm.rewriteRules [.nonterminal NormalForm.start] ks ∧ t.key ∈ ks := by
  have hlanguage (ks : List Terminal.Key) :
      Spells g.normalForm.rewriteRules [.nonterminal NormalForm.start] ks ↔
        ks ≠ [] ∧ ∃ us ∈ g.toContextFreeGrammar.language, withoutEmpties us = ks := by
    rw [spells_start_iff, spells_variants_iff]
    simp only [mem_language_iff]
  constructor
  · rintro ⟨hne, us, hus, ht⟩
    have hmem : t.key ∈ withoutEmpties us :=
      List.mem_filter.2 ⟨ht, by rw [Terminal.isEmpty_key, hne]; rfl⟩
    exact ⟨_, (hlanguage _).2 ⟨List.ne_nil_of_mem hmem, us, hus, rfl⟩, hmem⟩
  · rintro ⟨ks, h, ht⟩
    obtain ⟨-, us, hus, rfl⟩ := (hlanguage ks).1 h
    obtain ⟨ht, hne⟩ := List.mem_filter.1 ht
    exact ⟨by simpa using hne, us, hus, ht⟩

/-- A scan tries the terminals of use. -/
theorem useful_iff (hg : g.Coherent) {t : Terminal} :
    (∃ number, (t, number) ∈ g.normalForm.usefulTerms) ↔ t ∈ g.terminals ∧ g.Useful t := by
  rw [useful_iff_mem_sentence, ← exists_rule_iff_mem_sentence]
  constructor
  · rintro ⟨number, h⟩
    exact ⟨mem_terminals_of_mem_usefulTerms h, t, number, h, rfl⟩
  · rintro ⟨ht, s, number, hs, hkey⟩
    exact ⟨number, hg.eq_of_key_eq (mem_terminals_of_mem_usefulTerms hs) ht hkey ▸ hs⟩

end Grammar
end ContextFree
