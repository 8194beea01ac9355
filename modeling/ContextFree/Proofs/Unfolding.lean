import ContextFree.Proofs.Correspondence
import ContextFree.Proofs.Precedence

/-! Unfolding. Pairs mention neither the isolated start nor a non-terminal without rules, terminals
are no empty literals, and the tables of rules are complete. Tails and wrapped terminals only spell
out variants: unfolded, the right-hand side of a derived rule is what its variant keeps. -/
namespace ContextFree
open ContextFreeGrammar (Phrase)

namespace NormalForm

/-- What a non-terminal unfolds to. Names stay; a wrapped terminal and a tail become what a rule
makes of them. -/
inductive Unfolds (nf : NormalForm) : Nat → Phrase Terminal.Key String → Prop
  | source {n : Nat} {name : String} (hn : nf.nonterms[n]? = some (.source name)) :
    Unfolds nf n [.nonterminal name]
  | wrap {r : NumberedRule} {k : Terminal.Key} {t : Nat} {s : Terminal} (hr : r ∈ nf.rules)
    (hn : nf.nonterms[r.lhs]? = some (.wrap k)) (hb : r.body = .term t)
    (hs : nf.terms[t]? = some s) : Unfolds nf r.lhs [.terminal s.key]
  | tail {r : NumberedRule} {v k b c : Nat} {xs ys : Phrase Terminal.Key String}
    (hr : r ∈ nf.rules) (hn : nf.nonterms[r.lhs]? = some (.tail v k)) (hb : r.body = .pair b c)
    (hfirst : Unfolds nf b xs) (hsecond : Unfolds nf c ys) : Unfolds nf r.lhs (xs ++ ys)

/-- What a right-hand side unfolds to. -/
def UnfoldsBody (nf : NormalForm) : Body Nat Nat → Phrase Terminal.Key String → Prop
  | .term t, u => ∃ s, nf.terms[t]? = some s ∧ u = [.terminal s.key]
  | .pair b c, u => ∃ xs ys, u = xs ++ ys ∧ nf.Unfolds b xs ∧ nf.Unfolds c ys

/-- Whether a list has the numbers of the rules of some kind, in order. -/
def Lists (nf : NormalForm) (numbers : List Nat) (kind : Body Nat Nat → Prop) : Prop :=
  numbers.Pairwise (· < ·) ∧
    ∀ n, n ∈ numbers ↔ ∃ r, nf.rules[n]? = some r ∧ kind r.body

/-- What the rules of a normal form and its tables of rules are like. -/
structure WellFormed (nf : NormalForm) : Prop where
  term : ∀ r ∈ nf.rules, ∀ t, r.body = .term t → ∃ s, nf.terms[t]? = some s ∧ s.isEmpty = false
  pair : ∀ r ∈ nf.rules, ∀ b c, r.body = .pair b c → ∀ n ∈ [b, c],
    n ≠ start ∧ ∃ s ∈ nf.rules, s.lhs = n
  reached : ∀ r ∈ nf.rules, Reached start nf.rules r.lhs
  pairRules : ∀ b, nf.Lists ((nf.pairRules.get b).map (·.rule)) fun body => ∃ c, body = .pair b c
  termRules : ∀ t, nf.Lists ((nf.termRules.get t).map (·.2)) (· = .term t)

variable (nf : NormalForm)

theorem lists_pairRules (b : Nat) :
    nf.Lists ((nf.pairRules.get b).map (·.rule)) fun body => ∃ c, body = .pair b c := by
  refine ⟨List.pairwise_map.2 (nf.pairwise_pairRules b), fun n => ?_⟩
  rw [List.mem_map]
  constructor
  · rintro ⟨p, hp, rfl⟩
    obtain ⟨r, hr, -, hb⟩ := mem_pairRules.1 hp
    exact ⟨r, hr, p.second, hb⟩
  · rintro ⟨r, hr, c, hb⟩
    exact ⟨⟨n, r.lhs, c⟩, mem_pairRules.2 ⟨r, hr, rfl, hb⟩, rfl⟩

theorem lists_termRules (t : Nat) :
    nf.Lists ((nf.termRules.get t).map (·.2)) (· = .term t) := by
  refine ⟨List.pairwise_map.2 (nf.pairwise_termRules t), fun n => ?_⟩
  rw [List.mem_map]
  constructor
  · rintro ⟨e, he, rfl⟩
    exact ⟨e.1, mem_termRules.1 he⟩
  · rintro ⟨r, hr⟩
    exact ⟨(r, n), mem_termRules.2 hr, rfl⟩

end NormalForm

variable {g : Grammar} {n : Nonterm} {xs zs : List Symbol}

/-- A rule of what is no head expands what its left-hand side stands for. -/
theorem phrase_eq_of_notMem_heads {r : NamedRule} (hr : r ∈ g.analysis.rules)
    (hn : r.lhs ∉ g.heads) (hxs : Stands g r.lhs xs) (hzs : BodyStands g r.body zs) :
    phrase xs = phrase zs := by
  cases comes_of_mem_rules hr with
  | supports hsup =>
    obtain ⟨ys, hlhs, hbody⟩ := hsup.expands
    rw [hxs.phrase_unique hlhs, hbody.phrase_unique hzs]
  | derived _ hhead _ _ _ _ => exact (hn hhead).elim

theorem notMem_heads_of_wrap {k : Terminal.Key} : Nonterm.wrap k ∉ g.heads := by
  simp [Grammar.mem_heads]

theorem notMem_heads_of_tail {v k : Nat} : Nonterm.tail v k ∉ g.heads := by
  simp [Grammar.mem_heads]

/-- A non-terminal unfolds to nothing but what it stands for. The induction follows the
unfolding. -/
theorem NormalForm.Unfolds.eq_phrase {k : Nat} {u : Phrase Terminal.Key String}
    (h : g.normalForm.Unfolds k u) : ∀ {n : Nonterm} {xs : List Symbol}, Stands g n xs →
      g.number n = k → u = phrase xs := by
  induction h with
  | source hn =>
    rintro n xs hxs rfl
    obtain rfl := hxs.eq_of_getElem? hn
    cases hxs
    rfl
  | @wrap r k t s hr hn hb hs =>
    intro n xs hxs hlhs
    rw [← hlhs] at hn
    obtain rfl := hxs.eq_of_getElem? hn
    obtain ⟨v, t, origin, hv, ht, rfl, hnamed, -⟩ := exists_termRule hr hxs hlhs.symm hb
    obtain ⟨s', hs', hkey⟩ := exists_termNumber hv ht
    rw [← Array.getElem?_toList] at hs
    obtain rfl := Option.some.inj (hs.symm.trans hs')
    rw [phrase_eq_of_notMem_heads hnamed notMem_heads_of_wrap hxs (.term hv ht), hkey]
    rfl
  | @tail r v k b c us vs hr hn hb _ _ ihfirst ihsecond =>
    intro n xs hxs hlhs
    rw [← hlhs] at hn
    obtain rfl := hxs.eq_of_getElem? hn
    obtain ⟨b, c, origin, ys, zs, hys, hzs, rfl, rfl, hnamed, -⟩ :=
      exists_pairRule hr hxs hlhs.symm hb
    rw [phrase_eq_of_notMem_heads hnamed notMem_heads_of_tail hxs (.pair hys hzs), phrase_append,
      ihfirst hys rfl, ihsecond hzs rfl]

theorem length_phrase (xs : List Symbol) : (phrase xs).length = xs.length := List.length_map _

section Links
variable {r : NumberedRule} (hr : r ∈ g.normalForm.rules) (hn : n ∉ g.heads) (hxs : Stands g n xs)
  (hlhs : r.lhs = g.number n)
include hr hn hxs hlhs

/-- A rule with a terminal makes a wrapped terminal unfold. -/
theorem unfolds_of_term {t : Nat} (hb : r.body = .term t) :
    g.normalForm.Unfolds (g.number n) (phrase xs) := by
  have hnonterm : g.normalForm.nonterms[r.lhs]? = some n := hlhs ▸ hxs.getElem?_number
  obtain ⟨v, t, origin, hv, ht, rfl, hnamed, -⟩ := exists_termRule hr hxs hlhs hb
  obtain ⟨s, hs, hkey⟩ := exists_termNumber hv ht
  rw [Array.getElem?_toList] at hs
  have hphrase := phrase_eq_of_notMem_heads hnamed hn hxs (.term hv ht)
  rw [hphrase, phrase_term, phrase_nil, ← hkey, ← hlhs]
  cases hxs with
  | start => exact (hn (Grammar.mem_heads.2 (.inl rfl))).elim
  | source h => exact (hn h).elim
  | tail _ _ hlen =>
    have hlength := congrArg List.length hphrase
    rw [length_phrase, length_phrase, List.length_drop, List.length_singleton] at hlength
    omega
  | wrap _ _ _ => exact .wrap hr hnonterm hb hs

/-- A rule with a pair makes a tail unfold, if both sides of the pair do. -/
theorem unfolds_of_pair {d e : Nat} (hb : r.body = .pair d e)
    (below : ∀ (m : Nonterm) (ys : List Symbol), m ≠ .start → ys.length < xs.length →
      Stands g m ys → g.number m ∈ r.references → g.normalForm.Unfolds (g.number m) (phrase ys)) :
    g.normalForm.Unfolds (g.number n) (phrase xs) := by
  have hnonterm : g.normalForm.nonterms[r.lhs]? = some n := hlhs ▸ hxs.getElem?_number
  obtain ⟨b, c, origin, ys, zs, hys, hzs, rfl, rfl, hnamed, -⟩ := exists_pairRule hr hxs hlhs hb
  obtain ⟨⟨x, rfl⟩, hc⟩ := chains_of_mem_rules hnamed
  have hrefs := Rule.references_of_pair hb
  have hphrase := phrase_eq_of_notMem_heads hnamed hn hxs (.pair hys hzs)
  have hlength := congrArg List.length hphrase
  have hypos := List.length_pos_of_ne_nil hys.ne_nil
  have hzpos := List.length_pos_of_ne_nil hzs.ne_nil
  rw [length_phrase, length_phrase, List.length_append] at hlength
  have hfirst := below _ ys (ofSymbol_ne_start x) (by omega) hys (by simp [hrefs])
  have hsecond := below c zs hc (by omega) hzs (by simp [hrefs])
  rw [hphrase, phrase_append, ← hlhs]
  cases hxs with
  | start => exact (hn (Grammar.mem_heads.2 (.inl rfl))).elim
  | source h => exact (hn h).elim
  | tail _ _ _ => exact .tail hr hnonterm hb hfirst hsecond
  | wrap _ _ _ =>
    rw [List.length_singleton] at hlength
    omega

end Links

/-- What stands for symbols, the isolated start apart, unfolds to them if it has a rule. The
induction is on the number of symbols: both sides of a pair stand for fewer. -/
theorem Stands.unfolds (l : Nat) : ∀ {n : Nonterm} {xs : List Symbol}, xs.length = l →
    Stands g n xs → n ≠ .start → (∃ r ∈ g.normalForm.rules, r.lhs = g.number n) →
    g.normalForm.Unfolds (g.number n) (phrase xs) := by
  induction l using Nat.strongRecOn with
  | ind l ih =>
    intro n xs hlen hxs hstart hrule
    obtain ⟨r, hr, hlhs⟩ := hrule
    by_cases hn : n ∈ g.heads
    · cases hxs with
      | start => exact (hstart rfl).elim
      | source h => exact .source (Stands.source h).getElem?_number
      | tail _ _ _ => exact (notMem_heads_of_tail hn).elim
      | wrap _ _ _ => exact (notMem_heads_of_wrap hn).elim
    · cases hb : r.body with
      | term t => exact unfolds_of_term hr hn hxs hlhs hb
      | pair d e =>
        refine unfolds_of_pair hr hn hxs hlhs hb fun m ys hm hless hys hmem => ?_
        exact ih ys.length (hlen ▸ hless) rfl hys hm (exists_rule_of_reference hr hmem)

/-- The right-hand side of a rule unfolds to what it stands for, and to nothing else. -/
theorem unfoldsBody_iff {r : NamedRule} (hr : r ∈ g.analysis.rules)
    (hnumbered : r.map g.number g.termNumber ∈ g.normalForm.rules) (hzs : BodyStands g r.body zs)
    {u : Phrase Terminal.Key String} :
    g.normalForm.UnfoldsBody (r.map g.number g.termNumber).body u ↔ u = phrase zs := by
  have hchains := chains_of_mem_rules hr
  have hrefs {b c : Nonterm} (hb : r.body = .pair b c) :=
    Rule.references_map_of_pair hb g.number g.termNumber
  obtain ⟨lhs, body, origin⟩ := r
  cases hzs with
  | @term v t hv ht =>
    obtain ⟨s, hs, hkey⟩ := exists_termNumber hv ht
    rw [Array.getElem?_toList] at hs
    simp [NormalForm.UnfoldsBody, Rule.map, hs, hkey]
  | @pair b c xs ys hb hc =>
    obtain ⟨⟨x, rfl⟩, hstart⟩ := hchains
    have hrule (m : Nonterm) (hm : g.number m ∈ [g.number (.ofSymbol x), g.number c]) :=
      exists_rule_of_reference hnumbered ((hrefs rfl).symm ▸ hm)
    rw [phrase_append]
    constructor
    · rintro ⟨us, vs, rfl, hus, hvs⟩
      rw [hus.eq_phrase hb rfl, hvs.eq_phrase hc rfl]
    · rintro rfl
      exact ⟨_, _, rfl, hb.unfolds _ rfl (ofSymbol_ne_start x) (hrule _ (.head _)),
        hc.unfolds _ rfl hstart (hrule _ (.tail _ (.head _)))⟩

/-- What a variant keeps is no empty literal. -/
theorem isEmpty_of_kept {v : Variant} (hv : v ∈ g.ownVariants) {t : Terminal}
    (ht : .term t ∈ v.kept) : t.isEmpty = false := by
  rcases Grammar.cases_of_mem_variants hv with ⟨-, hkept⟩ | ⟨p, -, -, hslots⟩
  · simp [hkept] at ht
  · exact isEmptyLiteral_of_kept (Grammar.mem_variantSlots.1 hslots).1 _ ht

theorem exists_term_of_rule {r : NumberedRule} (hr : r ∈ g.normalForm.rules) {number : Nat}
    (hb : r.body = .term number) :
    ∃ s, g.normalForm.terms[number]? = some s ∧ s.isEmpty = false := by
  obtain ⟨named, hnamed, rfl⟩ := exists_rule_of_mem hr
  obtain ⟨xs, hxs⟩ := stands_lhs hnamed
  obtain ⟨v, t, -, hv, ht, rfl, -⟩ := exists_termRule hr hxs rfl hb
  obtain ⟨s, hs, hkey⟩ := exists_termNumber hv ht
  rw [Array.getElem?_toList] at hs
  refine ⟨s, hs, ?_⟩
  rw [← Terminal.isEmpty_key, hkey, Terminal.isEmpty_key, isEmpty_of_kept hv ht]

theorem ne_start_of_pair {r : NumberedRule} (hr : r ∈ g.normalForm.rules) {d e : Nat}
    (hb : r.body = .pair d e) : d ≠ NormalForm.start ∧ e ≠ NormalForm.start := by
  obtain ⟨named, hnamed, rfl⟩ := exists_rule_of_mem hr
  obtain ⟨xs, hxs⟩ := stands_lhs hnamed
  obtain ⟨b, c, origin, ys, zs, hys, hzs, rfl, rfl, hnamed, -⟩ := exists_pairRule hr hxs rfl hb
  obtain ⟨⟨x, rfl⟩, hc⟩ := chains_of_mem_rules hnamed
  rw [← Grammar.number_start g]
  exact ⟨fun h => ofSymbol_ne_start x (hys.number_inj .start h), fun h =>
    hc (hzs.number_inj .start h)⟩

theorem wellFormed (g : Grammar) : g.normalForm.WellFormed where
  term _ hr _ hb := exists_term_of_rule hr hb
  pair r hr b c hb n hn := by
    have hrule := exists_rule_of_reference hr ((Rule.references_of_pair hb).symm ▸ hn)
    obtain ⟨hfirst, hsecond⟩ := ne_start_of_pair hr hb
    rcases List.mem_pair.1 hn with rfl | rfl
    · exact ⟨hfirst, hrule⟩
    · exact ⟨hsecond, hrule⟩
  reached _ hr := reached_prune (mem_prune.1 hr).2.2
  pairRules := g.normalForm.lists_pairRules
  termRules := g.normalForm.lists_termRules

/-- The normal form of a grammar is well formed, and the right-hand side of a derived rule unfolds
to just what the rule's variant keeps. -/
theorem wellFormed_and_unfolds (g : Grammar) : g.normalForm.WellFormed ∧
    ∀ r ∈ g.normalForm.rules, ∀ units v, r.origin = .derived units v → v ∈ g.analysis.variants ∧
      ∀ u, g.normalForm.UnfoldsBody r.body u ↔ u = phrase v.kept := by
  refine ⟨wellFormed g, fun r hr units v horigin => ?_⟩
  obtain ⟨named, hnamed, rfl⟩ := exists_rule_of_mem hr
  cases comes_of_mem_rules hnamed with
  | supports hsup => exact (hsup.origin_ne units v horigin).elim
  | derived horigin' _ _ hv _ hstands =>
    obtain ⟨-, rfl⟩ := Origin.derived.inj (horigin.symm.trans horigin')
    exact ⟨hv, fun u => unfoldsBody_iff hnamed hr hstands⟩

end ContextFree
