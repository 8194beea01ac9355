import ContextFree.Proofs.Numbering
import Mathlib.Data.List.Perm.Subperm
import Mathlib.Data.List.ProdSigma

/-! Collapsing unit variants. However unit variants lead around, the search through them meets every
non-terminal once; so a variant that is not unit is emitted once for every head that leads to it,
and the rules that it is built on are shared. The number of rules is bounded by that. -/
namespace ContextFree

section Search
variable (edges : Nonterm → List (Variant × Nonterm))

/-- What is discovered and what stays unseen is what was unseen. -/
theorem perm_discover (es : List (Variant × Nonterm)) (unseen : List Nonterm) :
    ((discover es unseen).1.map (·.2) ++ (discover es unseen).2).Perm unseen := by
  induction es generalizing unseen with
  | nil => exact .refl _
  | cons e es ih =>
    rw [discover]
    split
    · rename_i he
      exact ((ih (unseen.erase e.2)).cons e.2).trans (List.perm_cons_erase he).symm
    · exact ih unseen

/-- The search meets what is queued or unseen, and each of these at most once. -/
theorem subperm_breadthFirst (unseen : List Nonterm) (queue : List (Nonterm × Route)) :
    ((breadthFirst edges unseen queue).map (·.1)).Subperm (queue.map (·.1) ++ unseen) := by
  induction unseen, queue using breadthFirst.induct edges with
  | case1 unseen => simp [breadthFirst]
  | case2 unseen a route queue found ih =>
    have hperm := (perm_discover (edges a) unseen).append_left (queue.map (·.1))
    have hkeys : (queue ++ found.1.map fun e => (e.2, route ++ [e.1])).map (·.1) ++ found.2 =
        queue.map (·.1) ++ (found.1.map (·.2) ++ found.2) := by
      simp [Function.comp_def]
    rw [hkeys] at ih
    rw [breadthFirst, List.map_cons, List.map_cons, List.cons_append, List.subperm_cons]
    exact ih.trans hperm.subperm

theorem nodup_unitClosure {all : List Nonterm} (hall : all.Nodup) (a : Nonterm) :
    ((unitClosure edges all a).map (·.1)).Nodup := by
  obtain ⟨keys, hperm, hsub⟩ := subperm_breadthFirst edges (all.erase a) [(a, [])]
  have hnodup : (a :: all.erase a).Nodup := List.nodup_cons.2 ⟨hall.not_mem_erase, hall.erase a⟩
  exact hperm.nodup_iff.1 (hsub.nodup hnodup)

end Search

/-- What a key tells apart is counted once at most. -/
theorem countP_of_nodup_map {α κ : Type} {key : α → κ} {l : List α} (hl : (l.map key).Nodup)
    {p : α → Prop} [DecidablePred p] (hp : ∀ a ∈ l, ∀ b ∈ l, p a → p b → key a = key b) :
    l.countP p ≤ 1 := by
  induction l with
  | nil => simp
  | cons a l ih =>
    rw [List.map_cons, List.nodup_cons] at hl
    have ih := ih hl.2 fun b hb c hc => hp b (.tail _ hb) c (.tail _ hc)
    by_cases ha : p a
    · have hnone : l.countP p = 0 := List.countP_eq_zero.2 fun b hb hpb => hl.1 <|
        hp a (.head _) b (.tail _ hb) ha (of_decide_eq_true hpb) ▸ List.mem_map_of_mem hb
      rw [List.countP_cons, hnone]
      split <;> omega
    · rwa [List.countP_cons_of_neg (by simpa using ha)]

/-- What a key tells apart is counted once if it is there. -/
theorem countP_eq_ite {α κ : Type} {key : α → κ} {l : List α} (hl : (l.map key).Nodup)
    {p : α → Prop} [DecidablePred p] (hp : ∀ a ∈ l, ∀ b ∈ l, p a → p b → key a = key b)
    {q : Prop} [Decidable q] (hq : (∃ a ∈ l, p a) ↔ q) : l.countP p = if q then 1 else 0 := by
  have hle := countP_of_nodup_map hl hp
  have hpos : 0 < l.countP p ↔ q := by
    rw [List.countP_pos_iff, ← hq]
    simp only [decide_eq_true_eq]
  split
  · rename_i h
    exact Nat.le_antisymm hle (hpos.2 h)
  · rename_i h
    exact Nat.eq_zero_of_not_pos fun hlt => h (hpos.1 hlt)

variable {g : Grammar} {n : Nonterm} {v : Variant}

namespace Grammar

/-- A head leads to a variant that is not unit, through unit variants. -/
structure Collapses (g : Grammar) (n : Nonterm) (v : Variant) : Prop where
  head_mem : n ∈ g.heads
  mem : v ∈ g.ownVariants
  unit : v.unitTarget? = none
  route : ∃ route stops, Travels g.ownVariants n route stops v.head

/-- The variants that are not unit. -/
def bodyVariants (g : Grammar) : List Variant := g.ownVariants.filter (·.unitTarget?.isNone)

theorem mem_bodyVariants : v ∈ g.bodyVariants ↔ v ∈ g.ownVariants ∧ v.unitTarget? = none := by
  rw [bodyVariants, List.mem_filter, Option.isNone_iff_eq_none]

theorem nodup_numbers (g : Grammar) : (g.ownVariants.map (·.number)).Nodup := by
  have h : g.ownVariants.map (·.number) =
      (g.unnumbered g.emptyProofs.nilable).zipIdx.map (·.2) := by
    rw [ownVariants, variants, List.map_map]
    rfl
  rw [h, List.zipIdx_map_snd]
  exact List.nodup_range'

end Grammar

section Emissions

theorem nodup_numbers_bodies (g : Grammar) (n : Nonterm) :
    (((bodies g.ownVariants).get n).map (·.number)).Nodup := by
  have hsub : ((bodies g.ownVariants).get n).Sublist g.ownVariants := by
    rw [bodies, Index.get_ofList, List.filter_map, List.map_map]
    have hid : ((·.2) ∘ fun v : Variant => (v.head, v)) = id := rfl
    rw [hid, List.map_id]
    exact List.filter_sublist.trans List.filter_sublist
  exact (hsub.map _).nodup g.nodup_numbers

/-- The numbers of the variants that are emitted for one head. -/
theorem nodup_emitted_numbers (g : Grammar) (n : Nonterm) :
    ((unitClosure (unitEdges g.ownVariants).get g.heads n).flatMap fun e =>
      ((bodies g.ownVariants).get e.1).map (·.number)).Nodup := by
  refine List.nodup_flatMap.2 ⟨fun e _ => nodup_numbers_bodies g e.1, ?_⟩
  refine (List.pairwise_map.1 (nodup_unitClosure _ g.nodup_heads n)).imp fun hne number hb hc => ?_
  obtain ⟨u, hub, hu⟩ := List.mem_map.1 hb
  obtain ⟨v, hvc, hv⟩ := List.mem_map.1 hc
  obtain ⟨huv, hhead, -⟩ := mem_bodies.1 hub
  obtain ⟨hvv, hhead', -⟩ := mem_bodies.1 hvc
  obtain rfl := Grammar.eq_of_number_eq huv hvv (hu.trans hv.symm)
  exact hne (hhead.symm.trans hhead')

/-- Emissions are told apart by their heads and variants. -/
theorem nodup_emissions (g : Grammar) :
    (g.analysis.emissions.map fun e => (e.head, e.variant.number)).Nodup := by
  have hkeys : (g.analysis.emissions.map fun e => (e.head, e.variant.number)) =
      g.heads.flatMap fun n => ((unitClosure (unitEdges g.ownVariants).get g.heads n).flatMap
        fun e => ((bodies g.ownVariants).get e.1).map (·.number)).map fun k => (n, k) := by
    change (emissions (unitEdges g.ownVariants).get (bodies g.ownVariants).get g.heads).map _ = _
    simp only [emissions, List.map_flatMap, List.map_map, Function.comp_def]
  rw [hkeys]
  refine List.nodup_flatMap.2 ⟨fun n _ =>
    (nodup_emitted_numbers g n).map (Prod.mk_right_injective n), ?_⟩
  refine g.nodup_heads.imp fun hne key hn hm => ?_
  obtain ⟨k, -, rfl⟩ := List.mem_map.1 hn
  obtain ⟨k', -, hkey⟩ := List.mem_map.1 hm
  exact hne (Prod.mk.inj hkey).1.symm

theorem Grammar.Collapses.of_simpleRoute (hn : n ∈ g.heads) (hv : v ∈ g.ownVariants)
    (hunit : v.unitTarget? = none) {route : Route}
    (hroute : SimpleRoute g.ownVariants n route v.head) : g.Collapses n v := by
  obtain ⟨stops, htravel, -⟩ := hroute
  exact ⟨hn, hv, hunit, route, stops, htravel⟩

theorem collapses_of_mem_emissions {e : Emission} (he : e ∈ g.analysis.emissions) :
    g.Collapses e.head e.variant := by
  obtain ⟨hhead, hroute, hv, hunit⟩ := emitted_of_mem he
  exact .of_simpleRoute hhead hv hunit hroute

theorem Grammar.Collapses.exists_emission (h : g.Collapses n v) :
    ∃ units, ⟨n, units, v⟩ ∈ g.analysis.emissions := by
  obtain ⟨hn, hv, hunit, route, stops, htravel⟩ := h
  exact ContextFree.exists_emission hn hv hunit htravel

open scoped Classical in
/-- A variant is emitted once for each head that leads to it. -/
theorem countP_emissions (g : Grammar) (n : Nonterm) (v : Variant) :
    g.analysis.emissions.countP (fun e => e.head = n ∧ e.variant = v) =
      if g.Collapses n v then 1 else 0 := by
  refine countP_eq_ite (nodup_emissions g) (fun e _ f _ he hf => ?_) ?_
  · rw [he.1, he.2, hf.1, hf.2]
  · constructor
    · rintro ⟨e, he, rfl, rfl⟩
      exact collapses_of_mem_emissions he
    · intro h
      obtain ⟨units, he⟩ := h.exists_emission
      exact ⟨_, he, rfl, rfl⟩

end Emissions

section Rules
variable {r : NamedRule}

theorem nodup_tags (g : Grammar) : (g.analysis.rules.map NamedRule.tag).Nodup := by
  rw [Grammar.Analysis.rules, Register.toList_ofList]
  exact nodup_map_distinctBy _ _

theorem lhs_of_mem_wrapRules {xs : List Symbol} (hr : r ∈ wrapRules xs) :
    ∃ t, .term t ∈ xs ∧ r.lhs = .wrap t.key := by
  obtain ⟨t, ht, rfl⟩ := mem_wrapRules.1 hr
  exact ⟨t, ht, rfl⟩

theorem lhs_of_mem_tailRules {number k : Nat} {xs : List Symbol} (hr : r ∈ tailRules number k xs) :
    (∃ t, .term t ∈ xs ∧ r.lhs = .wrap t.key) ∨
      ∃ j, j + 2 ≤ xs.length ∧ r.lhs = .tail number (k + j) := by
  induction k, xs using tailRules.induct with
  | case1 k x y z xs ih =>
    rw [tailRules, List.mem_append, List.mem_cons] at hr
    rcases hr with hr | rfl | hr
    · obtain ⟨t, ht, hlhs⟩ := lhs_of_mem_wrapRules hr
      exact .inl ⟨t, List.mem_singleton.1 ht ▸ .head _, hlhs⟩
    · exact .inr ⟨0, by simp, rfl⟩
    · rcases ih hr with ⟨t, ht, hlhs⟩ | ⟨j, hj, hlhs⟩
      · exact .inl ⟨t, .tail _ ht, hlhs⟩
      · exact .inr ⟨j + 1, Nat.succ_le_succ hj, by rw [hlhs, Nat.add_assoc, Nat.add_comm 1]⟩
  | case2 k x y =>
    rw [tailRules, List.mem_append, List.mem_singleton] at hr
    rcases hr with hr | rfl
    · exact .inl (lhs_of_mem_wrapRules hr)
    · exact .inr ⟨0, by simp, rfl⟩
  | case3 xs k => simp [tailRules] at hr

/-- The rules that a variant is built on are for its own non-terminals. -/
theorem lhs_mem_ownNonterms (hr : r ∈ v.support) : r.lhs ∈ v.ownNonterms := by
  rw [mem_ownNonterms]
  rw [Variant.support] at hr
  split at hr
  · simp at hr
  · simp at hr
  · rename_i x y hk
    rw [hk]
    exact ⟨by simp, .inl (lhs_of_mem_wrapRules hr)⟩
  · rename_i x xs _ hxy hk
    have hxs : xs ≠ [] := by rintro rfl; simp_all
    have hlen := List.length_pos_of_ne_nil hxs
    rw [hk, List.length_cons]
    refine ⟨by omega, ?_⟩
    rcases List.mem_append.1 hr with hr | hr
    · obtain ⟨t, ht, hlhs⟩ := lhs_of_mem_wrapRules hr
      exact .inl ⟨t, List.mem_singleton.1 ht ▸ .head _, hlhs⟩
    · rcases lhs_of_mem_tailRules hr with ⟨t, ht, hlhs⟩ | ⟨j, hj, hlhs⟩
      · exact .inl ⟨t, .tail _ ht, hlhs⟩
      · exact .inr ⟨1 + j, by omega, by omega, hlhs⟩

/-- Where a rule comes from decides its tag. -/
theorem tag_cases (hr : r ∈ g.analysis.rules) :
    (∃ v, g.Collapses r.lhs v ∧ r.tag = (r.lhs, some v.number)) ∨
      ∃ v ∈ g.bodyVariants, r.lhs ∈ v.ownNonterms ∧ r.tag = (r.lhs, none) := by
  rw [Grammar.Analysis.rules, Register.toList_ofList] at hr
  obtain ⟨e, he, hr⟩ := List.mem_flatMap.1 ((distinctBy_sublist _ _).subset hr)
  have hcollapses := collapses_of_mem_emissions he
  rcases List.mem_append.1 hr with hr | hr
  · have hplain := (supports_of_mem_support hcollapses.mem hr).plain
    exact .inr ⟨e.variant, Grammar.mem_bodyVariants.2 ⟨hcollapses.mem, hcollapses.unit⟩,
      lhs_mem_ownNonterms hr, Prod.ext rfl hplain⟩
  · obtain ⟨b, -, rfl⟩ := Option.map_eq_some_iff.1 (Option.mem_toList.1 hr)
    exact .inl ⟨e.variant, hcollapses, rfl⟩

open scoped Classical in
/-- What is no head has one rule at most. -/
theorem countP_lhs_le_one (hn : n ∉ g.heads) : g.analysis.rules.countP (·.lhs = n) ≤ 1 := by
  have htag {r : NamedRule} (hr : r ∈ g.analysis.rules) (hlhs : r.lhs = n) : r.tag = (n, none) := by
    subst hlhs
    rcases tag_cases hr with ⟨v, hcollapses, -⟩ | ⟨v, -, -, htag⟩
    · exact (hn hcollapses.head_mem).elim
    · exact htag
  exact countP_of_nodup_map (nodup_tags g) fun r hr s hs hrn hsn =>
    (htag hr hrn).trans (htag hs hsn).symm

open scoped Classical in
/-- Every pair of a head and a variant that it leads to has one derived rule. -/
theorem countP_derived (g : Grammar) (n : Nonterm) (v : Variant) :
    g.analysis.rules.countP (fun r => r.lhs = n ∧ ∃ units, r.origin = .derived units v) =
      if g.Collapses n v then 1 else 0 := by
  refine countP_eq_ite (nodup_tags g) ?_ ?_
  · rintro r - s - ⟨hr, units, hru⟩ ⟨hs, units', hsu⟩
    rw [NamedRule.tag, NamedRule.tag, hr, hs, hru, hsu]
  · constructor
    · rintro ⟨r, hr, rfl, units, horigin⟩
      cases comes_of_mem_rules hr with
      | supports hsup => exact (hsup.origin_ne units v horigin).elim
      | derived horigin' hhead hroute hu hunit _ =>
        obtain ⟨-, rfl⟩ := Origin.derived.inj (horigin.symm.trans horigin')
        exact .of_simpleRoute hhead hu hunit hroute
    · intro h
      obtain ⟨units, he⟩ := h.exists_emission
      exact exists_derived_rule h.head_mem h.mem h.unit (emitted_of_mem he).route

end Rules

section Bound

/-- The tags of the tails of a variant. -/
def tailTags (v : Variant) : List (Nonterm × Option Nat) :=
  (List.range' 1 (v.kept.length - 2)).map fun k => (.tail v.number k, none)

/-- All tags that the rules of a grammar may have. -/
def Grammar.tags (g : Grammar) : List (Nonterm × Option Nat) :=
  (g.heads ×ˢ g.bodyVariants).map (fun e => (e.1, some e.2.number)) ++
    g.bodyVariants.flatMap tailTags ++
    g.analysis.terms.toList.map fun t => (.wrap t.key, none)

theorem tag_mem_tags {r : NamedRule} (hr : r ∈ g.analysis.rules) : r.tag ∈ g.tags := by
  rw [Grammar.tags, List.mem_append, List.mem_append]
  rcases tag_cases hr with ⟨v, h, htag⟩ | ⟨v, hv, hown, htag⟩
  · left; left
    exact List.mem_map.2 ⟨(r.lhs, v), List.mem_product.2
      ⟨h.head_mem, Grammar.mem_bodyVariants.2 ⟨h.mem, h.unit⟩⟩, htag.symm⟩
  · rw [htag]
    obtain ⟨-, ⟨t, ht, hlhs⟩ | ⟨k, hk, hlen, hlhs⟩⟩ := mem_ownNonterms.1 hown
    · right
      obtain ⟨s, hs, hkey⟩ := List.mem_map.1 (key_mem_terms (Grammar.mem_bodyVariants.1 hv).1 ht)
      exact List.mem_map.2 ⟨s, hs, by rw [hlhs, hkey]⟩
    · left; right
      refine List.mem_flatMap.2 ⟨v, hv, List.mem_map.2 ⟨k, ?_, by rw [hlhs]⟩⟩
      rw [List.mem_range'_1]
      omega

theorem length_rules_le (g : Grammar) : g.analysis.rules.length ≤
    g.heads.length * g.bodyVariants.length + (g.bodyVariants.map (·.kept.length - 2)).sum +
      g.analysis.terms.size := by
  have hsub : (g.analysis.rules.map NamedRule.tag) ⊆ g.tags := by
    intro tag htag
    obtain ⟨r, hr, rfl⟩ := List.mem_map.1 htag
    exact tag_mem_tags hr
  have hlen := (nodup_tags g).length_le_of_subset hsub
  rw [List.length_map, Grammar.tags, List.length_append, List.length_append, List.length_map,
    List.length_product, List.length_flatMap, List.length_map] at hlen
  simpa [tailTags, Register.length_toList] using hlen

theorem size_normalForm_le (g : Grammar) : g.normalForm.size ≤ g.analysis.rules.length := by
  rw [NormalForm.size, Grammar.rules_normalForm]
  refine (List.filter_sublist.trans List.filter_sublist).length_le.trans_eq ?_
  rw [Grammar.numberedRules, List.length_map]

end Bound

open scoped Classical in
/-- Before pruning there is one derived rule for a head and a variant that is not unit if the head
leads to the variant, and none otherwise; and one rule at most for a tail or a wrapped terminal.
This bounds the number of rules. -/
theorem collapse_once (g : Grammar) :
    (∀ n v, g.analysis.emissions.countP (fun e => e.head = n ∧ e.variant = v) =
      if g.Collapses n v then 1 else 0) ∧
    (∀ n v, g.analysis.rules.countP (fun r => r.lhs = n ∧ ∃ units, r.origin = .derived units v) =
      if g.Collapses n v then 1 else 0) ∧
    (∀ v k, g.analysis.rules.countP (·.lhs = .tail v k) ≤ 1) ∧
    (∀ t, g.analysis.rules.countP (·.lhs = .wrap t) ≤ 1) ∧
    g.normalForm.size ≤
      ((distinct (g.productions.map (·.lhs))).length + 1) * g.bodyVariants.length +
        (g.bodyVariants.map (·.kept.length - 2)).sum + g.normalForm.terms.size := by
  refine ⟨countP_emissions g, countP_derived g, fun v k => countP_lhs_le_one ?_,
    fun t => countP_lhs_le_one ?_, ?_⟩
  · simp [Grammar.mem_heads]
  · simp [Grammar.mem_heads]
  · have hheads : g.heads.length = (distinct (g.productions.map (·.lhs))).length + 1 := by
      rw [Grammar.heads, List.length_cons, List.length_map]
    rw [← hheads]
    exact (size_normalForm_le g).trans (length_rules_le g)

end ContextFree
