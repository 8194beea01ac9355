import ContextFree.Proofs.Alternatives
import ContextFree.Proofs.Expansion

/-! What the non-terminals of a chart give. Over a span of characters a non-terminal gives exactly
the parts for the symbols that it stands for, as far as the start reaches it. -/
namespace ContextFree

namespace Grammar

/-- The chart of a scan. -/
def filled (g : Grammar) (s : Scan) (mode : Mode) : Chart := g.normalForm.fill s mode

/-- What a non-terminal gives for a span. -/
def gives (g : Grammar) (s : Scan) (mode : Mode) (i l : Nat) (n : Nonterm) : List Parts :=
  (g.filled s mode).alternatives (g.rebuilding mode) i l (g.number n)

/-- Whether pruning leaves a non-terminal that the start reaches by rules of use. -/
def Reaches (g : Grammar) (n : Nonterm) : Prop :=
  Reached NormalForm.start
    (g.numberedRules.filter (Rule.productive (generating g.numberedRules))) (g.number n)

end Grammar

variable {g : Grammar} {w : String} {s : Scan}

/-- The normal form has no other black boxes than the grammar. -/
theorem Grammar.Answers.normalForm (hw : g.Answers w) : g.normalForm.Answers w :=
  fun b hb => hw b (mem_terminals_of_terms hb)

/-- Every terminal that a scan tries is on a right-hand side. -/
theorem Grammar.mem_terminals_of_mem_usefulTerms {t : Terminal} {number : Nat}
    (h : (t, number) ∈ g.normalForm.usefulTerms) : t ∈ g.terminals :=
  mem_terminals_of_terms (List.mem_of_getElem? (NormalForm.mem_usefulTerms.1 h).1)

theorem Grammar.Answers.exists_scan [Pattern.Engine] (hw : g.Answers w) :
    ∃ s, g.normalForm.scan w = .ok s ∧ g.normalForm.Scans w s :=
  hw.normalForm.exists_scan

/-- What a rule of the chart is made of. -/
theorem exists_rule_of_mem {r : NumberedRule} (hr : r ∈ g.normalForm.rules) :
    ∃ r' ∈ g.analysis.rules, r = r'.map g.number g.termNumber := by
  rw [Grammar.rules_normalForm, mem_prune] at hr
  obtain ⟨r', hr', rfl⟩ := List.mem_map.1 hr.1
  exact ⟨r', hr', rfl⟩

section Rules
variable {n : Nonterm} {xs : List Symbol} {r : NumberedRule}

/-- A rule of the chart that mentions a terminal, for a non-terminal with a known number. -/
theorem exists_termRule (hr : r ∈ g.normalForm.rules) (hxs : Stands g n xs)
    (hlhs : r.lhs = g.number n) {number : Nat} (hbody : r.body = .term number) :
    ∃ v t origin, v ∈ g.ownVariants ∧ .term t ∈ v.kept ∧ number = g.termNumber t.key ∧
      ⟨n, .term t.key, origin⟩ ∈ g.analysis.rules ∧
      r = Rule.map g.number g.termNumber ⟨n, .term t.key, origin⟩ := by
  obtain ⟨named, hnamed, rfl⟩ := exists_rule_of_mem hr
  obtain ⟨ys, hys⟩ := stands_lhs hnamed
  obtain rfl := hys.number_inj hxs hlhs
  obtain ⟨zs, hzs⟩ := exists_bodyStands hnamed
  rcases named with ⟨lhs, body, origin⟩
  cases hzs with
  | @term v t hv ht =>
    obtain rfl := Body.term.inj hbody
    exact ⟨v, t, origin, hv, ht, rfl, hnamed, rfl⟩
  | pair _ _ => simp [Rule.map] at hbody

/-- The same for a rule that mentions two non-terminals. -/
theorem exists_pairRule (hr : r ∈ g.normalForm.rules) (hxs : Stands g n xs)
    (hlhs : r.lhs = g.number n) {d e : Nat} (hbody : r.body = .pair d e) :
    ∃ b c origin ys zs, Stands g b ys ∧ Stands g c zs ∧ d = g.number b ∧ e = g.number c ∧
      ⟨n, .pair b c, origin⟩ ∈ g.analysis.rules ∧
      r = Rule.map g.number g.termNumber ⟨n, .pair b c, origin⟩ := by
  obtain ⟨named, hnamed, rfl⟩ := exists_rule_of_mem hr
  obtain ⟨us, hus⟩ := stands_lhs hnamed
  obtain rfl := hus.number_inj hxs hlhs
  obtain ⟨vs, hvs⟩ := exists_bodyStands hnamed
  rcases named with ⟨lhs, body, origin⟩
  cases hvs with
  | term _ _ => simp [Rule.map] at hbody
  | @pair b c ys zs hb hc =>
    obtain ⟨rfl, rfl⟩ := Body.pair.inj hbody
    exact ⟨b, c, origin, ys, zs, hb, hc, rfl, rfl, hnamed, rfl⟩

end Rules

variable [Pattern.Engine]

/-- Between two boundaries, the match of a terminal that a rule mentions is what it takes. -/
theorem mem_matchesAt_iff (hg : g.Coherent) (hs : g.normalForm.Scans w s) {v : Variant}
    (hv : v ∈ g.ownVariants) {t : Terminal} (ht : .term t ∈ v.kept) {r : NumberedRule}
    (hr : r ∈ g.normalForm.rules) (hbody : r.body = .term (g.termNumber t.key)) {i l p q : Nat}
    (hl : 1 ≤ l) (hp : (Text.bounds w)[i]? = some p) (hq : (Text.bounds w)[i + l]? = some q) :
    ⟨g.termNumber t.key, l⟩ ∈ s.matchesAt i ↔ t.Takes w p q := by
  have hget := getElem?_termNumber hg hv ht
  rw [hs.mem_matchesAt hl hp hq]
  constructor
  · rintro ⟨t', ht', htakes⟩
    obtain ⟨hget', -⟩ := NormalForm.mem_usefulTerms.1 ht'
    rw [hget, Option.some.injEq] at hget'
    exact hget' ▸ htakes
  · intro htakes
    exact ⟨t, NormalForm.mem_usefulTerms.2 ⟨hget, r, hr, hbody⟩, htakes⟩

section Span
variable {i l p q : Nat}

theorem span_fill (hs : g.normalForm.Scans w s) (mode : Mode) (hp : (Text.bounds w)[i]? = some p)
    (hq : (Text.bounds w)[i + l]? = some q) : (g.filled s mode).span i l = ⟨p, q⟩ := by
  rw [Chart.span]
  change Span.mk (s.bounds[i]?.getD 0) (s.bounds[i + l]?.getD 0) = _
  rw [hs.bounds_eq, hp, hq]
  rfl

theorem le_length (hs : g.normalForm.Scans w s) (hq : (Text.bounds w)[i + l]? = some q) :
    i + l ≤ s.bounds.length - 1 := by
  have := (List.getElem?_eq_some_iff.1 hq).1
  rw [hs.bounds_eq]
  omega

omit [Pattern.Engine] in
/-- A boundary between two others cuts their span in two shorter ones. -/
theorem exists_cut (hp : (Text.bounds w)[i]? = some p) (hq : (Text.bounds w)[i + l]? = some q)
    {o : Nat} (ho : o ∈ Text.bounds w) (hpo : p < o) (hoq : o < q) : ∃ m, 1 ≤ m ∧ m < l ∧
      (Text.bounds w)[i + m]? = some o ∧ (Text.bounds w)[i + m + (l - m)]? = some q := by
  obtain ⟨j, hj⟩ := List.mem_iff_getElem?.1 ho
  have hij := (Text.bounds_lt_iff hp hj).1 hpo
  have hjl := (Text.bounds_lt_iff hj hq).1 hoq
  refine ⟨j - i, by omega, by omega, ?_, ?_⟩
  · rw [show i + (j - i) = j by omega, hj]
  · rw [show i + (j - i) + (l - (j - i)) = i + l by omega, hq]

omit [Pattern.Engine] in
/-- Where a span is split there is a boundary. -/
theorem exists_middle (hq : (Text.bounds w)[i + l]? = some q) {m : Nat} (hm : m < l) :
    ∃ o, (Text.bounds w)[i + m]? = some o ∧ (Text.bounds w)[i + m + (l - m)]? = some q := by
  have hmiddle : i + m < (Text.bounds w).length := by
    have := (List.getElem?_eq_some_iff.1 hq).1
    omega
  refine ⟨_, List.getElem?_eq_getElem hmiddle, ?_⟩
  rw [show i + m + (l - m) = i + l by omega, hq]

/-- The equation of a chart between two boundaries. -/
theorem mem_gives (hs : g.normalForm.Scans w s) (hl : 1 ≤ l) (hp : (Text.bounds w)[i]? = some p)
    (hq : (Text.bounds w)[i + l]? = some q) {n : Nonterm} {ps : Parts} :
    ps ∈ g.gives s .exhaustive i l n ↔
      (∃ k r t, g.normalForm.rules[k]? = some r ∧ r.lhs = g.number n ∧ r.body = .term t ∧
        ⟨t, l⟩ ∈ s.matchesAt i ∧
        ps ∈ (g.rebuilding .exhaustive).produce k [⟨.leaf ⟨p, q⟩, q⟩] p) ∨
      ∃ k r m d e left right, g.normalForm.rules[k]? = some r ∧ r.lhs = g.number n ∧
        r.body = .pair d e ∧ 1 ≤ m ∧ m < l ∧
        left ∈ (g.filled s .exhaustive).alternatives (g.rebuilding .exhaustive) i m d ∧
        right ∈ (g.filled s .exhaustive).alternatives (g.rebuilding .exhaustive) (i + m) (l - m) e ∧
        ps ∈ (g.rebuilding .exhaustive).produce k (left ++ right) p := by
  have h : ps ∈ g.gives s .exhaustive i l n ↔ _ :=
    NormalForm.mem_alternatives_fill rules_rebuilding hl (le_length hs hq)
  have hspan : (g.normalForm.fill s .exhaustive).span i l = ⟨p, q⟩ := span_fill hs _ hp hq
  simp only [hspan] at h
  exact h

end Span

/-- The induction is on the length of the span: a match gives one part, and a pair joins what it
gives for two shorter spans. -/
theorem partsDerive_of_mem_gives (hg : g.Coherent) (hs : g.normalForm.Scans w s) (l : Nat) :
    ∀ {i p q : Nat} {n : Nonterm} {xs : List Symbol} {ps : Parts}, 1 ≤ l →
      (Text.bounds w)[i]? = some p → (Text.bounds w)[i + l]? = some q → Stands g n xs →
      ps ∈ g.gives s .exhaustive i l n →
      PartsDerive g w [] xs p q ps := by
  induction l using Nat.strongRecOn with
  | ind l ih =>
    intro i p q n xs ps hl hp hq hxs hps
    have hpq := Text.lt_of_bounds_lt hp hq (by omega)
    rcases (mem_gives hs hl hp hq).1 hps with ⟨k, r, t, hk, hlhs, hbody, hm, hmade⟩ |
      ⟨k, r, m, d, e, left, right, hk, hlhs, hbody, hm, hml, hleft, hright, hmade⟩
    · have hmem := List.mem_of_getElem? hk
      obtain ⟨v, t, origin, hv, ht, rfl, hr, rfl⟩ := exists_termRule hmem hxs hlhs hbody
      have htakes := (mem_matchesAt_iff hg hs hv ht hmem rfl hl hp hq).1 hm
      exact produce_sound hg hr hxs (.term hv ht) hk hpq
        (.cons hpq (derivesAcyclic_term.2 ⟨htakes, rfl⟩) .nil) hmade
    · obtain ⟨b, c, origin, ys, zs, hb, hc, rfl, rfl, hr, rfl⟩ :=
        exists_pairRule (List.mem_of_getElem? hk) hxs hlhs hbody
      obtain ⟨o, ho, hq'⟩ := exists_middle hq hml
      have hl' := ih m hml hm hp ho hb hleft
      have hr' := ih (l - m) (by omega) (by omega) ho hq' hc hright
      exact produce_sound hg hr hxs (.pair hb hc) hk hpq
        (partsDerive_append.2 ⟨o, left, right, rfl, hl', hr'⟩) hmade

omit [Pattern.Engine] in
/-- What is derived generates, and a rule that is reached and whose references generate is kept. -/
theorem mem_rules_of_reached {r : NamedRule} (hr : r ∈ g.analysis.rules)
    (hgen : ∀ m ∈ (r.map g.number g.termNumber).references, Generating g.numberedRules m)
    (hreach : g.Reaches r.lhs) :
    r.map g.number g.termNumber ∈ g.normalForm.rules := by
  rw [Grammar.rules_normalForm, mem_prune]
  exact ⟨List.mem_map_of_mem hr, hgen, hreach⟩

omit [Pattern.Engine] in
theorem reached_reference {r : NamedRule} (hr : r ∈ g.analysis.rules)
    (hgen : ∀ m ∈ (r.map g.number g.termNumber).references, Generating g.numberedRules m)
    (hreach : g.Reaches r.lhs) {m : Nonterm}
    (hm : g.number m ∈ (r.map g.number g.termNumber).references) : g.Reaches m := by
  refine .rule (List.mem_filter.2 ⟨List.mem_map_of_mem hr, ?_⟩) hreach hm
  exact productive_iff.2 fun m hm => mem_generating.2 (hgen m hm)

/-- The induction is the same; what the start reaches is not pruned. -/
theorem mem_gives_of_partsDerive (hg : g.Coherent) (hs : g.normalForm.Scans w s) (l : Nat) :
    ∀ {i p q : Nat} {n : Nonterm} {xs : List Symbol} {ps : Parts}, 1 ≤ l →
      (Text.bounds w)[i]? = some p → (Text.bounds w)[i + l]? = some q → Stands g n xs →
      PartsDerive g w [] xs p q ps → Generating g.numberedRules (g.number n) ∧
        (g.Reaches n → ps ∈ g.gives s .exhaustive i l n) := by
  induction l using Nat.strongRecOn with
  | ind l ih =>
    intro i p q n xs ps hl hp hq hxs hps
    have hpq := Text.lt_of_bounds_lt hp hq (by omega)
    obtain ⟨r, hr, rfl, zs, qs, hzs, hqs, hproduce⟩ := exists_expansion hg hxs hpq hps
    have hnumbered : r.map g.number g.termNumber ∈ g.numberedRules := List.mem_map_of_mem hr
    rcases r with ⟨lhs, body, origin⟩
    cases hzs with
    | @term v t hv ht =>
      have hgen : ∀ m ∈ (Rule.map g.number g.termNumber ⟨lhs, .term t.key, origin⟩).references,
          Generating g.numberedRules m := by simp [Rule.map, Rule.references]
      refine ⟨.rule hnumbered hgen, fun hreach => (mem_gives hs hl hp hq).2 (.inl ?_)⟩
      have hmem := mem_rules_of_reached hr hgen hreach
      obtain ⟨k, hk⟩ := List.mem_iff_getElem?.1 hmem
      obtain ⟨u, rfl, -, hu⟩ := partsDerive_singleton.1 hqs
      obtain ⟨htakes, rfl⟩ := derivesAcyclic_term.1 hu
      exact ⟨k, _, _, hk, rfl, rfl,
        (mem_matchesAt_iff hg hs hv ht hmem rfl hl hp hq).2 htakes, hproduce k _ _ hk⟩
    | @pair b c ys zs hb hc =>
      obtain ⟨o, left, right, rfl, hleft, hright⟩ := partsDerive_append.1 hqs
      obtain ⟨m, hm, hml, ho, hq'⟩ := exists_cut hp hq
        (hleft.mem_bounds (List.mem_of_getElem? hp)) (hleft.lt hb.ne_nil) (hright.lt hc.ne_nil)
      obtain ⟨hgenb, hleft⟩ := ih m hml hm hp ho hb hleft
      obtain ⟨hgenc, hright⟩ := ih (l - m) (by omega) (by omega) ho hq' hc hright
      have hgen : ∀ m ∈ (Rule.map g.number g.termNumber ⟨lhs, .pair b c, origin⟩).references,
          Generating g.numberedRules m := by
        simp [Rule.map, Rule.references, hgenb, hgenc]
      refine ⟨.rule hnumbered hgen, fun hreach => (mem_gives hs hl hp hq).2 (.inr ?_)⟩
      have reached {n : Nonterm} := reached_reference (m := n) hr hgen hreach
      obtain ⟨k, hk⟩ := List.mem_iff_getElem?.1 (mem_rules_of_reached hr hgen hreach)
      exact ⟨k, _, m, _, _, left, right, hk, rfl, rfl, hm, hml,
        hleft (reached (by simp [Rule.map, Rule.references])),
        hright (reached (by simp [Rule.map, Rule.references])), hproduce k _ _ hk⟩

/-- Over a whole word that is not empty, the start gives its acyclic derivations. -/
theorem mem_gives_start (hg : g.Coherent) (hs : g.normalForm.Scans w s) {l p q : Nat}
    (hl : 1 ≤ l) (hp : (Text.bounds w)[0]? = some p) (hq : (Text.bounds w)[l]? = some q)
    (ps : Parts) : ps ∈ g.gives s .exhaustive 0 l .start ↔
      ∃ t, ps = [⟨t, q⟩] ∧ DerivesAcyclic g w [] (.nonterm g.start) p q t := by
  have hq' : (Text.bounds w)[0 + l]? = some q := by rwa [Nat.zero_add]
  have hpq := Text.lt_of_bounds_lt hp hq (by omega)
  constructor
  · intro h
    obtain ⟨t, rfl, -, ht⟩ := partsDerive_singleton.1
      (partsDerive_of_mem_gives hg hs l hl hp hq' .start h)
    exact ⟨t, rfl, ht⟩
  · rintro ⟨t, rfl, ht⟩
    apply (mem_gives_of_partsDerive hg hs l hl hp hq' .start (.cons hpq ht .nil)).2
    rw [Grammar.Reaches, Grammar.number_start]
    exact .start

end ContextFree
