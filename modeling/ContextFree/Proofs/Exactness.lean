import ContextFree.Proofs.Precedence

/-! Exactness of charts. The cell of a span has just the non-terminals that derive the span by the
rules of a normal form, and for each of them every way to do so, once. -/
namespace ContextFree
namespace NormalForm
variable [Pattern.Engine]

/-- Whether the match of a terminal, which goes by number, takes exactly the characters of a
span. -/
def Matches (nf : NormalForm) (w : String) (number i l : Nat) : Prop :=
  ∃ t p q, nf.terms[number]? = some t ∧ (Text.bounds w)[i]? = some p ∧
    (Text.bounds w)[i + l]? = some q ∧ t.accept w p = .ok (some q)

/-- What non-terminals derive by the rules: so many characters from a first one on. -/
inductive Derives (nf : NormalForm) (w : String) : Nat → Nat → Nat → Prop
  | term {r : NumberedRule} {t i l : Nat} (hr : r ∈ nf.rules) (hb : r.body = .term t)
    (h : nf.Matches w t i l) : Derives nf w r.lhs i l
  | pair {r : NumberedRule} {b d i k m : Nat} (hr : r ∈ nf.rules) (hb : r.body = .pair b d)
    (hfirst : Derives nf w b i k) (hsecond : Derives nf w d (i + k) m) :
    Derives nf w r.lhs i (k + m)

variable {nf : NormalForm} {w : String} {s : Scan} {a i l : Nat}

theorem Matches.pos {number : Nat} (h : nf.Matches w number i l) : 1 ≤ l := by
  obtain ⟨t, p, q, -, hp, hq, haccept⟩ := h
  have := (Text.bounds_lt_iff hp hq).1 (Terminal.lt_of_accept haccept)
  omega

theorem Derives.pos (h : nf.Derives w a i l) : 1 ≤ l := by
  induction h with
  | term _ _ h => exact h.pos
  | pair _ _ _ _ ihfirst _ => omega

/-- What is derived from a span of some length is derived by one match or from two shorter
spans. -/
theorem derives_iff : nf.Derives w a i l ↔
    (∃ r ∈ nf.rules, ∃ t, r.lhs = a ∧ r.body = .term t ∧ nf.Matches w t i l) ∨
    ∃ r ∈ nf.rules, ∃ b d k, r.lhs = a ∧ r.body = .pair b d ∧ 1 ≤ k ∧ k < l ∧
      nf.Derives w b i k ∧ nf.Derives w d (i + k) (l - k) := by
  constructor
  · rintro (⟨hr, hb, h⟩ | @⟨r, b, d, _, k, m, hr, hb, hfirst, hsecond⟩)
    · exact .inl ⟨_, hr, _, rfl, hb, h⟩
    · have hk := hfirst.pos
      have hm := hsecond.pos
      refine .inr ⟨r, hr, b, d, k, rfl, hb, hk, by omega, hfirst, ?_⟩
      rwa [Nat.add_sub_cancel_left]
  · rintro (⟨r, hr, t, rfl, hb, h⟩ | ⟨r, hr, b, d, k, rfl, hb, hk, hkl, hfirst, hsecond⟩)
    · exact .term hr hb h
    · have h := Derives.pair hr hb hfirst hsecond
      rwa [Nat.add_sub_cancel' (by omega)] at h

/-- A scan has the matches of the terminals that rules mention. -/
theorem mem_matchesAt_iff_matches (hs : nf.Scans w s) {r : NumberedRule} (hr : r ∈ nf.rules)
    {number : Nat} (hb : r.body = .term number) (hl : 1 ≤ l) (h : i + l ≤ w.toList.length) :
    ⟨number, l⟩ ∈ s.matchesAt i ↔ nf.Matches w number i l := by
  have hlen := Text.bounds_length w
  obtain ⟨p, hp⟩ : ∃ p, (Text.bounds w)[i]? = some p := ⟨_, List.getElem?_eq_getElem (by omega)⟩
  obtain ⟨q, hq⟩ : ∃ q, (Text.bounds w)[i + l]? = some q :=
    ⟨_, List.getElem?_eq_getElem (by omega)⟩
  have hpq := Text.lt_of_bounds_lt hp hq (by omega)
  rw [hs.mem_matchesAt hl hp hq]
  constructor
  · rintro ⟨t, ht, htakes⟩
    obtain ⟨hget, -⟩ := mem_usefulTerms.1 ht
    rw [Array.getElem?_toList] at hget
    exact ⟨t, p, q, hget, hp, hq, ((Terminal.takes_iff_of_lt hpq).1 htakes).2⟩
  · rintro ⟨t, p', q', hget, hp', hq', haccept⟩
    obtain rfl := Option.some.inj (hp.symm.trans hp')
    obtain rfl := Option.some.inj (hq.symm.trans hq')
    refine ⟨t, mem_usefulTerms.2 ⟨by rwa [Array.getElem?_toList], r, hr, hb⟩, ?_⟩
    exact (Terminal.takes_iff_of_lt hpq).2 ⟨List.mem_of_getElem? hq, haccept⟩

theorem le_bounds (hs : nf.Scans w s) (h : i + l ≤ w.toList.length) :
    i + l ≤ s.bounds.length - 1 := by
  rw [hs.bounds_eq, Text.bounds_length]
  omega

/-- The matches among the ways of a non-terminal. -/
theorem term_mem_waysOf (hs : nf.Scans w s) (mode : Mode) (hl : 1 ≤ l)
    (h : i + l ≤ w.toList.length) {rule : Nat} : .term rule ∈ nf.waysOf s mode i l a ↔
      ∃ r t, nf.rules[rule]? = some r ∧ r.lhs = a ∧ r.body = .term t ∧ nf.Matches w t i l := by
  rw [mem_waysOf, found, List.mem_append, mem_termFound, mem_splitFound]
  constructor
  · rintro (⟨rule, r, t, ⟨⟩, hr, ha, hb, hm⟩ | ⟨_, _, _, _, _, ⟨⟩, _⟩)
    have hm := (mem_matchesAt_iff_matches hs (List.mem_of_getElem? hr) hb hl h).1 hm
    exact ⟨r, t, hr, ha, hb, hm⟩
  · rintro ⟨r, t, hr, ha, hb, hm⟩
    have hm := (mem_matchesAt_iff_matches hs (List.mem_of_getElem? hr) hb hl h).2 hm
    exact .inl ⟨rule, r, t, rfl, hr, ha, hb, hm⟩

omit [Pattern.Engine] in
/-- The splits among the ways of a non-terminal. -/
theorem split_mem_waysOf {mode : Mode} {rule k : Nat} :
    .split rule k ∈ nf.waysOf s mode i l a ↔ ∃ r b d, nf.rules[rule]? = some r ∧ r.lhs = a ∧
      r.body = .pair b d ∧ 1 ≤ k ∧ k < l ∧ ((nf.fill s mode).cell i k).has b = true ∧
      ((nf.fill s mode).cell (i + k) (l - k)).has d = true := by
  rw [mem_waysOf, found, List.mem_append, mem_termFound, mem_splitFound]
  constructor
  · rintro (⟨_, _, _, ⟨⟩, _⟩ | ⟨rule, r, k, b, d, ⟨⟩, hk, hkl, hr, ha, hb, hfirst, hsecond⟩)
    exact ⟨r, b, d, hr, ha, hb, hk, hkl, hfirst, hsecond⟩
  · rintro ⟨r, b, d, hr, ha, hb, hk, hkl, hfirst, hsecond⟩
    exact .inr ⟨rule, r, k, b, d, rfl, hk, hkl, hr, ha, hb, hfirst, hsecond⟩

/-- A cell has the non-terminals that derive its span. -/
theorem has_fill_iff_derives (hs : nf.Scans w s) (mode : Mode) (hl : 1 ≤ l)
    (h : i + l ≤ w.toList.length) :
    ((nf.fill s mode).cell i l).has a = true ↔ nf.Derives w a i l := by
  induction l using Nat.strongRecOn generalizing a i with
  | ind l ih =>
    rw [has_fill_iff hl (le_bounds hs h), derives_iff]
    constructor
    · intro hne
      obtain ⟨b, hb⟩ := List.exists_mem_of_ne_nil _ hne
      cases b with
      | term rule =>
        obtain ⟨r, t, hr, ha, hb, hm⟩ := (term_mem_waysOf hs mode hl h).1 hb
        exact .inl ⟨r, List.mem_of_getElem? hr, t, ha, hb, hm⟩
      | split rule k =>
        obtain ⟨r, b, d, hr, ha, hb, hk, hkl, hfirst, hsecond⟩ := split_mem_waysOf.1 hb
        refine .inr ⟨r, List.mem_of_getElem? hr, b, d, k, ha, hb, hk, hkl, ?_, ?_⟩
        · exact (ih k hkl hk (by omega)).1 hfirst
        · exact (ih (l - k) (by omega) (by omega) (by omega)).1 hsecond
    · rintro (⟨r, hr, t, ha, hb, hm⟩ | ⟨r, hr, b, d, k, ha, hb, hk, hkl, hfirst, hsecond⟩)
      · obtain ⟨rule, hr⟩ := List.mem_iff_getElem?.1 hr
        have hway : .term rule ∈ nf.waysOf s mode i l a :=
          (term_mem_waysOf hs mode hl h).2 ⟨r, t, hr, ha, hb, hm⟩
        exact List.ne_nil_of_mem hway
      · obtain ⟨rule, hr⟩ := List.mem_iff_getElem?.1 hr
        have hfirst := (ih k hkl hk (by omega)).2 hfirst
        have hsecond := (ih (l - k) (by omega) (by omega) (by omega)).2 hsecond
        have hway : .split rule k ∈ nf.waysOf s mode i l a :=
          split_mem_waysOf.2 ⟨r, b, d, hr, ha, hb, hk, hkl, hfirst, hsecond⟩
        exact List.ne_nil_of_mem hway

end NormalForm

/-- What an exact chart has for a span and a non-terminal: the non-terminal just if it derives the
span, and every way once. -/
structure Chart.ExactAt [Pattern.Engine] (c : Chart) (nf : NormalForm) (w : String) (i l a : Nat) :
    Prop where
  has_iff : (c.cell i l).has a = true ↔ nf.Derives w a i l
  nodup : ((c.cell i l).backs a).Nodup
  term_iff : ∀ rule, .term rule ∈ (c.cell i l).backs a ↔ ∃ r t, nf.rules[rule]? = some r ∧
    r.lhs = a ∧ r.body = .term t ∧ nf.Matches w t i l
  split_iff : ∀ rule k, .split rule k ∈ (c.cell i l).backs a ↔ ∃ r b d, nf.rules[rule]? = some r ∧
    r.lhs = a ∧ r.body = .pair b d ∧ 1 ≤ k ∧ k < l ∧ (c.cell i k).has b = true ∧
    (c.cell (i + k) (l - k)).has d = true

namespace NormalForm
variable {nf : NormalForm} {w : String}

/-- Exhaustive charts are exact. -/
theorem exactAt_chart [Pattern.Engine] (hw : nf.Answers w) : ∃ c, nf.chart w .exhaustive = .ok c ∧
    c.length = w.toList.length ∧ ∀ i l, 1 ≤ l → i + l ≤ w.toList.length →
      (c.cell i l).keys.Nodup ∧ ∀ a, c.ExactAt nf w i l a := by
  obtain ⟨s, hscan, hs⟩ := hw.exists_scan
  refine ⟨nf.fill s .exhaustive, chart_of_scan .exhaustive hscan, ?_, fun i l hl h => ?_⟩
  · rw [length_fill, hs.bounds_eq, Text.bounds_length, Nat.add_sub_cancel]
  have hle := le_bounds hs h
  refine ⟨nodup_keys_fill .exhaustive hl hle, fun a => ?_⟩
  have hbacks : ((nf.fill s .exhaustive).cell i l).backs a = nf.waysOf s .exhaustive i l a := by
    rw [backs_fill hl hle, if_pos rfl]
  have hnodup : (nf.waysOf s .exhaustive i l a).Nodup :=
    (pairwise_waysOf .exhaustive hscan hle).imp fun hlt he => absurd (he ▸ hlt) (lt_irrefl _)
  exact {
    has_iff := has_fill_iff_derives hs .exhaustive hl h
    nodup := hbacks ▸ hnodup
    term_iff := fun rule => hbacks ▸ term_mem_waysOf hs .exhaustive hl h
    split_iff := fun rule k => hbacks ▸ split_mem_waysOf }

theorem exactAt_chart_overlapping : overlapping.normalForm.Answers "aa" ∧
    ∃ c, overlapping.normalForm.chart "aa" .exhaustive = .ok c ∧
      c.length = "aa".toList.length ∧ ∀ i l, 1 ≤ l → i + l ≤ "aa".toList.length →
        (c.cell i l).keys.Nodup ∧ ∀ a, c.ExactAt overlapping.normalForm "aa" i l a :=
  ⟨answers_overlapping "aa", exactAt_chart (answers_overlapping "aa")⟩

end NormalForm
end ContextFree
