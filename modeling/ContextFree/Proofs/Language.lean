import ContextFree.Proofs.Compaction
import ContextFree.Proofs.Contents

/-! The language of a normal form, apart from any word: as sequences of terminals. It is that of the
grammar without the empty literals and without the empty sequence, which is set apart. -/
namespace ContextFree
open ContextFreeGrammar (Phrase Spells)

namespace NormalForm

/-- A rule over numbers as a rule that rewrites; there is none for a terminal without an entry. -/
def rewriteRule? (nf : NormalForm) (r : NumberedRule) :
    Option (ContextFreeRule Terminal.Key Nat) :=
  match r.body with
  | .term t => nf.terms[t]?.map fun t => ⟨r.lhs, [.terminal t.key]⟩
  | .pair b c => some ⟨r.lhs, [.nonterminal b, .nonterminal c]⟩

def rewriteRules (nf : NormalForm) : Finset (ContextFreeRule Terminal.Key Nat) :=
  (nf.rules.filterMap nf.rewriteRule?).toFinset

/-- A normal form as a system that rewrites the isolated start. -/
def toContextFreeGrammar (nf : NormalForm) : ContextFreeGrammar Terminal.Key where
  NT := Nat
  initial := start
  rules := nf.rewriteRules

/-- A rule that rewrites spells out a rule over numbers. -/
theorem mem_rewriteRules {nf : NormalForm} {r : ContextFreeRule Terminal.Key Nat} :
    r ∈ nf.rewriteRules ↔ ∃ r' ∈ nf.rules, r'.lhs = r.input ∧
      ((∃ t s, r'.body = .term t ∧ nf.terms.toList[t]? = some s ∧ r.output = [.terminal s.key]) ∨
        ∃ b c, r'.body = .pair b c ∧ r.output = [.nonterminal b, .nonterminal c]) := by
  obtain ⟨input, output⟩ := r
  simp only [rewriteRules, List.mem_toFinset, List.mem_filterMap]
  refine exists_congr fun r' => and_congr_right fun _ => ?_
  cases hb : r'.body with
  | term t => simp [rewriteRule?, hb, eq_comm, and_left_comm]
  | pair b c => simp [rewriteRule?, hb, eq_comm]

end NormalForm

variable {g : Grammar} {n : Nonterm} {xs zs : List Symbol} {ks : List Terminal.Key}

/-- A non-terminal stands for one phrase. -/
theorem Stands.phrase_unique {ys : List Symbol} (h : Stands g n xs) (h' : Stands g n ys) :
    phrase xs = phrase ys := by
  cases h with
  | start => cases h'; rfl
  | source _ => cases h'; rfl
  | @tail v k hv _ _ =>
    generalize hm : Nonterm.tail v.number k = m at h'
    cases h' with
    | tail hv' _ _ =>
      obtain ⟨hnumber, rfl⟩ := Nonterm.tail.inj hm
      rw [Grammar.eq_of_number_eq hv hv' hnumber]
    | start | source _ | wrap _ _ _ => simp at hm
  | @wrap v t _ _ _ =>
    generalize hm : Nonterm.wrap t.key = m at h'
    cases h' with
    | wrap _ _ _ => simp [Nonterm.wrap.inj hm]
    | start | source _ | tail _ _ _ => simp at hm

theorem BodyStands.phrase_unique {body : Body Nonterm Terminal.Key} {ys : List Symbol}
    (h : BodyStands g body xs) (h' : BodyStands g body ys) : phrase xs = phrase ys := by
  cases h with
  | @term v t _ _ =>
    generalize hk : Body.term t.key = b at h'
    cases h' with
    | term _ _ => simp [Body.term.inj hk]
    | pair _ _ => simp at hk
  | pair hb hc =>
    cases h' with
    | pair hb' hc' => rw [phrase_append, phrase_append, hb.phrase_unique hb', hc.phrase_unique hc']

/-- What a variant keeps, its head spells. -/
theorem exists_spells_head {v : Variant} (hv : v ∈ g.ownVariants)
    (h : Spells g.variantRules (phrase v.kept) ks) :
    ∃ name, v.head.name? g = some name ∧ Spells g.variantRules [.nonterminal name] ks := by
  rcases Grammar.cases_of_mem_variants hv with ⟨hlabel, hkept⟩ | ⟨p, -, hlabel, -⟩
  · refine ⟨g.start, by simp [Variant.head, hlabel, Nonterm.name?], ?_⟩
    simpa [hkept] using h
  · refine ⟨p.lhs, by simp [Variant.head, hlabel, Nonterm.name?], ?_⟩
    exact ContextFreeGrammar.spells_nonterminal.2
      ⟨⟨p.lhs, phrase v.kept⟩, Grammar.mem_variantRules.2 ⟨v, hv, hlabel, rfl⟩, rfl, h⟩

/-- What the end of a route spells, its beginning spells. -/
theorem exists_spells_of_travels {m : Nonterm} {route : Route} {stops : List Nonterm}
    (h : Travels g.ownVariants n route stops m)
    (hm : ∃ name, m.name? g = some name ∧ Spells g.variantRules [.nonterminal name] ks) :
    ∃ name, n.name? g = some name ∧ Spells g.variantRules [.nonterminal name] ks := by
  induction h with
  | nil => exact hm
  | cons hu hh hc _ ih =>
    obtain ⟨target, hkept, rfl⟩ := Variant.unitTarget?_eq_some.1 hc
    obtain ⟨name, hname, hspells⟩ := ih hm
    obtain rfl : target = name := Option.some.inj hname
    rw [← hh]
    exact exists_spells_head hu (by simpa [hkept] using hspells)

/-- What the right-hand side of a rule spells, its left-hand side spells. -/
theorem spells_of_rule {r : NamedRule} (hr : r ∈ g.analysis.rules) (hxs : Stands g r.lhs xs)
    (hzs : BodyStands g r.body zs) (h : Spells g.variantRules (phrase zs) ks) :
    Spells g.variantRules (phrase xs) ks := by
  cases comes_of_mem_rules hr with
  | supports hsup =>
    obtain ⟨us, hlhs, hbody⟩ := hsup.expands
    rwa [hxs.phrase_unique hlhs, ← hzs.phrase_unique hbody]
  | derived _ hhead hroute hv _ hbody =>
    obtain ⟨stops, htravel, -⟩ := hroute
    rw [hzs.phrase_unique hbody] at h
    obtain ⟨name, hname, hlhs⟩ := stands_head hhead
    obtain ⟨name', hname', hspells⟩ := exists_spells_of_travels htravel (exists_spells_head hv h)
    obtain rfl := Option.some.inj (hname.symm.trans hname')
    rw [hxs.phrase_unique hlhs]
    exact hspells

/-- What non-terminals spell by the rules over numbers, the symbols that they stand for spell by
the variants. The induction follows the spelling of a list of non-terminals, since a right-hand
side is one. -/
theorem spells_of_normalForm {u : Phrase Terminal.Key Nat}
    (h : Spells g.normalForm.rewriteRules u ks) (ns : List (Nonterm × List Symbol))
    (hns : ∀ e ∈ ns, Stands g e.1 e.2) (hu : u = ns.map fun e => .nonterminal (g.number e.1)) :
    Spells g.variantRules (phrase (ns.flatMap (·.2))) ks := by
  induction h generalizing ns with
  | nil =>
    obtain rfl := List.map_eq_nil_iff.1 hu.symm
    exact .nil
  | terminal _ _ =>
    obtain ⟨_, _, -, h, -⟩ := List.map_eq_cons_iff.1 hu.symm
    simp at h
  | @nonterminal r u ks ls hr h _ ih ihs =>
    obtain ⟨⟨n, xs⟩, ns, rfl, hinput, hrest⟩ := List.map_eq_cons_iff.1 hu.symm
    have hxs := hns _ (.head _)
    rw [List.flatMap_cons, phrase_append]
    refine .append ?_ (ihs ns (fun e he => hns e (.tail _ he)) hrest.symm)
    obtain ⟨numbered, hnumbered, hlhs, hbody⟩ := NormalForm.mem_rewriteRules.1 hr
    rw [← Symbol.nonterminal.inj hinput] at hlhs
    rcases hbody with ⟨t, s, hb, hs, houtput⟩ | ⟨d, e, hb, houtput⟩
    · obtain ⟨v, t, origin, hv, ht, rfl, hnamed, -⟩ := exists_termRule hnumbered hxs hlhs hb
      obtain ⟨s', hs', hkey⟩ := exists_termNumber hv ht
      obtain rfl : s = s' := Option.some.inj (hs.symm.trans hs')
      refine spells_of_rule hnamed hxs (.term hv ht) ?_
      rw [houtput, hkey] at h
      obtain ⟨w, rfl, hw⟩ := ContextFreeGrammar.spells_terminal_cons.1 h
      obtain rfl := ContextFreeGrammar.spells_nil.1 hw
      exact .terminal .nil
    · obtain ⟨b, c, origin, ys, zs, hys, hzs, rfl, rfl, hnamed, -⟩ :=
        exists_pairRule hnumbered hxs hlhs hb
      refine spells_of_rule hnamed hxs (.pair hys hzs) ?_
      simpa using ih [(b, ys), (c, zs)] (by simp [hys, hzs]) houtput

/-- What a head spells comes from a variant that is not unit, at the end of a route. -/
def RouteSpells (g : Grammar) (n : Nonterm) (ks : List Terminal.Key) : Prop :=
  ∃ route stops v, Travels g.ownVariants n route stops v.head ∧ v ∈ g.ownVariants ∧
    v.unitTarget? = none ∧ Spells g.variantRules (phrase v.kept) ks

/-- A variant comes first on the route of what it leads to. -/
theorem routeSpells_head {v : Variant} (hv : v ∈ g.ownVariants)
    (h : Spells g.variantRules (phrase v.kept) ks)
    (hunit : ∀ name, v.kept = [.nonterm name] → RouteSpells g (.source name) ks) :
    RouteSpells g v.head ks := by
  cases hc : v.unitTarget? with
  | none => exact ⟨[], [], v, .nil, hv, hc, h⟩
  | some c =>
    obtain ⟨name, hkept, rfl⟩ := Variant.unitTarget?_eq_some.1 hc
    obtain ⟨route, stops, u, htravel, hu⟩ := hunit name hkept
    exact ⟨v :: route, _ :: stops, u, .cons hv rfl hc htravel, hu⟩

/-- The induction follows the spelling, down a chain of unit variants. -/
theorem routeSpells_source {name : String} (h : Spells g.variantRules [.nonterminal name] ks) :
    RouteSpells g (.source name) ks := by
  generalize hu : [Symbol.nonterminal name] = u at h
  induction h generalizing name with
  | nil | terminal => simp at hu
  | @nonterminal r u ks ls hr h hs ih =>
    obtain ⟨hname, rfl⟩ := List.cons.inj hu
    obtain rfl := Symbol.nonterminal.inj hname
    obtain rfl := ContextFreeGrammar.spells_nil.1 hs
    obtain ⟨v, hv, hlabel, houtput⟩ := Grammar.mem_variantRules.1 hr
    have hhead : v.head = .source r.input := by rw [Variant.head, hlabel]
    rw [List.append_nil, ← hhead]
    refine routeSpells_head hv (houtput ▸ h) fun name hkept => ih ?_
    rw [houtput, hkept]
    rfl

theorem routeSpells {name : String} (hn : n.name? g = some name)
    (h : Spells g.variantRules [.nonterminal name] ks) : RouteSpells g n ks := by
  cases n with
  | start =>
    obtain rfl := Option.some.inj hn
    obtain ⟨v, hv, hlabel, hkept⟩ := Grammar.exists_start_variant g g.emptyProofs.nilable
    have hhead : v.head = .start := by rw [Variant.head, hlabel]
    rw [← hhead]
    refine routeSpells_head hv (by simpa [hkept] using h) fun name hkept' => ?_
    obtain rfl : g.start = name := by simpa [hkept] using hkept'
    exact routeSpells_source h
  | source name' =>
    obtain rfl := Option.some.inj hn
    exact routeSpells_source h
  | tail _ _ | wrap _ => simp [Nonterm.name?] at hn

/-- What symbols spell that a non-terminal stands for, the right-hand side of a rule of it spells. -/
theorem exists_rule_of_spells (hxs : Stands g n xs) (h : Spells g.variantRules (phrase xs) ks) :
    ∃ r ∈ g.analysis.rules, r.lhs = n ∧ ∃ zs, BodyStands g r.body zs ∧
      Spells g.variantRules (phrase zs) ks := by
  rcases exists_rule_of_stands hxs with hn | ⟨r, hr, rfl, hsup⟩
  · obtain ⟨name, hname, hlhs⟩ := stands_head hn
    rw [hxs.phrase_unique hlhs] at h
    obtain ⟨route, stops, v, htravel, hv, hunit, hspells⟩ := routeSpells hname h
    obtain ⟨r, hr, hlhs, hbody⟩ := exists_rule_of_travels hn hv hunit htravel
    exact ⟨r, hr, hlhs, v.kept, hbody, hspells⟩
  · obtain ⟨zs, hlhs, hbody⟩ := hsup.expands
    exact ⟨r, hr, rfl, zs, hbody, hxs.phrase_unique hlhs ▸ h⟩

/-- Symbols that a non-terminal stands for spell no empty sentence. -/
theorem Stands.length_pos (hxs : Stands g n xs) (h : Spells g.variantRules (phrase xs) ks) :
    0 < ks.length :=
  List.length_pos_of_ne_nil (ne_nil_of_spells h hxs.ne_nil)

/-- The induction is on the length of the sentence: the two parts of a pair spell shorter ones.
What the start reaches is not pruned. -/
theorem spells_of_variants (l : Nat) : ∀ {n : Nonterm} {xs : List Symbol} {ks : List Terminal.Key},
    ks.length = l → Stands g n xs → Spells g.variantRules (phrase xs) ks →
    Generating g.numberedRules (g.number n) ∧
      (g.Reaches n → Spells g.normalForm.rewriteRules [.nonterminal (g.number n)] ks) := by
  induction l using Nat.strongRecOn with
  | ind l ih =>
    intro n xs ks hl hxs h
    obtain ⟨r, hr, rfl, zs, hzs, hspells⟩ := exists_rule_of_spells hxs h
    have hnumbered : r.map g.number g.termNumber ∈ g.numberedRules := List.mem_map_of_mem hr
    rcases r with ⟨lhs, body, origin⟩
    cases hzs with
    | @term v t hv ht =>
      have hgen : ∀ m ∈ (Rule.map g.number g.termNumber ⟨lhs, .term t.key, origin⟩).references,
          Generating g.numberedRules m := by simp [Rule.map, Rule.references]
      refine ⟨.rule hnumbered hgen, fun hreach => ?_⟩
      obtain ⟨s, hs, hkey⟩ := exists_termNumber hv ht
      have hmem := mem_rules_of_reached hr hgen hreach
      refine ContextFreeGrammar.spells_nonterminal.2 ⟨⟨g.number lhs, [.terminal t.key]⟩,
        NormalForm.mem_rewriteRules.2 ⟨_, hmem, rfl, .inl ⟨_, s, rfl, hs, by rw [hkey]⟩⟩, rfl, ?_⟩
      obtain ⟨w, rfl, hw⟩ := ContextFreeGrammar.spells_terminal_cons.1 hspells
      obtain rfl := ContextFreeGrammar.spells_nil.1 hw
      exact .terminal .nil
    | @pair b c ys zs hb hc =>
      rw [phrase_append] at hspells
      obtain ⟨ks, ls, rfl, hks, hls⟩ := ContextFreeGrammar.spells_append.1 hspells
      have hkpos := hb.length_pos hks
      have hlpos := hc.length_pos hls
      rw [List.length_append] at hl
      obtain ⟨hgenb, hleft⟩ := ih ks.length (by omega) rfl hb hks
      obtain ⟨hgenc, hright⟩ := ih ls.length (by omega) rfl hc hls
      have hgen : ∀ m ∈ (Rule.map g.number g.termNumber ⟨lhs, .pair b c, origin⟩).references,
          Generating g.numberedRules m := by
        simp [Rule.map, Rule.references, hgenb, hgenc]
      refine ⟨.rule hnumbered hgen, fun hreach => ?_⟩
      have reached {n : Nonterm} := reached_reference (m := n) hr hgen hreach
      have hmem := mem_rules_of_reached hr hgen hreach
      refine ContextFreeGrammar.spells_nonterminal.2
        ⟨⟨g.number lhs, [.nonterminal (g.number b), .nonterminal (g.number c)]⟩,
          NormalForm.mem_rewriteRules.2 ⟨_, hmem, rfl, .inr ⟨_, _, rfl, rfl⟩⟩, rfl, ?_⟩
      exact (hleft (reached (by simp [Rule.map, Rule.references]))).append
        (hright (reached (by simp [Rule.map, Rule.references])))

/-- The rules of a normal form spell what the variants spell. -/
theorem spells_start_iff : Spells g.normalForm.rewriteRules [.nonterminal NormalForm.start] ks ↔
    Spells g.variantRules [.nonterminal g.start] ks := by
  constructor
  · intro h
    rw [← Grammar.number_start g] at h
    simpa using spells_of_normalForm h [(.start, [.nonterm g.start])] (by simp [Stands.start]) rfl
  · intro h
    rw [← Grammar.number_start g]
    refine (spells_of_variants ks.length rfl .start h).2 ?_
    rw [Grammar.Reaches, Grammar.number_start]
    exact .start

/-- Variants spell what the productions spell, without empty literals, unless that is nothing. -/
theorem spells_variants_iff : Spells g.variantRules [.nonterminal g.start] ks ↔
    ks ≠ [] ∧ ∃ us, Spells g.rewriteRules [.nonterminal g.start] us ∧ withoutEmpties us = ks := by
  change Spells g.variantRules (phrase [.nonterm g.start]) ks ↔
    ks ≠ [] ∧ ∃ us, Spells g.rewriteRules (phrase [.nonterm g.start]) us ∧ withoutEmpties us = ks
  constructor
  · intro h
    exact ⟨ne_nil_of_spells h (by simp),
      exists_spells_of_variants h (by simp [Symbol.isEmptyLiteral])⟩
  · rintro ⟨hks, us, hus, rfl⟩
    obtain ⟨slots, hslots, h⟩ := exists_slots_of_spells hus
    obtain ⟨kept, rest, rfl, hrest, -⟩ := mem_slotChoices_cons.1 hslots
    obtain rfl : rest = [] := by simpa [slotChoices] using hrest
    cases kept with
    | false => exact (hks (by simpa using h)).elim
    | true => simpa using h

/-- The start is nilable just if it spells nothing but empty literals. -/
theorem nilable_start_iff : g.emptyProofs.nilable (.nonterm g.start) = true ↔
    ∃ us, Spells g.rewriteRules [.nonterminal g.start] us ∧ withoutEmpties us = [] := by
  change _ ↔ ∃ us, Spells g.rewriteRules (phrase [.nonterm g.start]) us ∧ withoutEmpties us = []
  constructor
  · exact exists_spells_of_nilable
  · rintro ⟨us, hus, hnil⟩
    obtain ⟨slots, hslots, h⟩ := exists_slots_of_spells hus
    obtain ⟨kept, rest, rfl, -, -, hnilable⟩ := mem_slotChoices_cons.1 hslots
    cases kept with
    | false => exact hnilable rfl
    | true => exact (ne_nil_of_spells h (by simp) hnil).elim

/-- A normal form generates the sentences of its grammar without their empty literals, those that
are left empty apart; whether there is one of those is what it records. -/
theorem language_normalForm (g : Grammar) :
    (∀ ks, ks ∈ g.normalForm.toContextFreeGrammar.language ↔
      ks ≠ [] ∧ ∃ us ∈ g.toContextFreeGrammar.language, withoutEmpties us = ks) ∧
    (g.normalForm.acceptsEmpty = true ↔
      ∃ us ∈ g.toContextFreeGrammar.language, withoutEmpties us = []) := by
  have hsource (us : List Terminal.Key) : us ∈ g.toContextFreeGrammar.language ↔
      Spells g.rewriteRules [.nonterminal g.start] us :=
    ContextFreeGrammar.mem_language_iff_spells
  have hnormal (ks : List Terminal.Key) : ks ∈ g.normalForm.toContextFreeGrammar.language ↔
      Spells g.normalForm.rewriteRules [.nonterminal NormalForm.start] ks :=
    ContextFreeGrammar.mem_language_iff_spells
  simp only [hsource]
  constructor
  · intro ks
    rw [hnormal, spells_start_iff, spells_variants_iff]
  · exact nilable_start_iff

end ContextFree
