import ContextFree.Proofs.Routes
import ContextFree.Proofs.Scanning
import ContextFree.Proofs.Variants

/-! Rules and what they spell. Every non-terminal of a normal form stands for a list of symbols: a
head for its name, a tail for what its variant keeps from a position on, a wrapped terminal for
the terminal. The rules of a grammar expand every such list, and nothing else. -/
namespace ContextFree

namespace Grammar

/-- The variants that the rules are made from. -/
def ownVariants (g : Grammar) : List Variant := g.variants g.emptyProofs.nilable

end Grammar

variable {g : Grammar}

/-- What the non-terminals of a normal form stand for. -/
inductive Stands (g : Grammar) : Nonterm → List Symbol → Prop
  | start : Stands g .start [.nonterm g.start]
  | source {name : String} (h : .source name ∈ g.heads) : Stands g (.source name) [.nonterm name]
  | tail {v : Variant} {k : Nat} (hv : v ∈ g.ownVariants) (hk : 1 ≤ k)
    (hlen : k + 2 ≤ v.kept.length) : Stands g (.tail v.number k) (v.kept.drop k)
  | wrap {v : Variant} {t : Terminal} (hv : v ∈ g.ownVariants) (hlen : 2 ≤ v.kept.length)
    (ht : .term t ∈ v.kept) : Stands g (.wrap t.key) [.term t]

/-- What right-hand sides stand for. -/
inductive BodyStands (g : Grammar) : Body Nonterm Terminal.Key → List Symbol → Prop
  | term {v : Variant} {t : Terminal} (hv : v ∈ g.ownVariants) (ht : .term t ∈ v.kept) :
    BodyStands g (.term t.key) [.term t]
  | pair {b c : Nonterm} {xs ys : List Symbol} (hb : Stands g b xs) (hc : Stands g c ys) :
    BodyStands g (.pair b c) (xs ++ ys)

theorem Stands.ne_nil {n : Nonterm} {xs : List Symbol} (h : Stands g n xs) : xs ≠ [] := by
  cases h with
  | tail _ _ hlen =>
    intro h
    rw [List.drop_eq_nil_iff] at h
    omega
  | start | source _ | wrap _ _ _ => simp

theorem stands_head {n : Nonterm} (hn : n ∈ g.heads) :
    ∃ name, n.name? g = some name ∧ Stands g n [.nonterm name] := by
  rcases Grammar.mem_heads.1 hn with rfl | ⟨p, _, rfl⟩
  · exact ⟨_, rfl, .start⟩
  · exact ⟨_, rfl, .source hn⟩

/-- In a pair, a kept symbol goes by a non-terminal that stands for it. -/
theorem stands_ofSymbol {v : Variant} (hv : v ∈ g.ownVariants) (hlen : 2 ≤ v.kept.length)
    {x : Symbol} (hx : x ∈ v.kept) : Stands g (.ofSymbol x) [x] := by
  cases x with
  | nonterm name => exact .source (Grammar.source_mem_heads_of_kept hv hx)
  | term t => exact .wrap hv hlen hx

/-- A rule that hands its parts on: it expands what its left-hand side stands for. -/
structure Supports (g : Grammar) (r : NamedRule) : Prop where
  plain : r.tag.2 = none
  expands : ∃ zs, Stands g r.lhs zs ∧ BodyStands g r.body zs

theorem Supports.origin_ne {r : NamedRule} (h : Supports g r) (units : Route) (v : Variant) :
    r.origin ≠ .derived units v := by
  intro ho
  have hplain := h.plain
  simp [NamedRule.tag, ho] at hplain

theorem mem_wrapRules {xs : List Symbol} {r : NamedRule} :
    r ∈ wrapRules xs ↔ ∃ t, .term t ∈ xs ∧ r = ⟨.wrap t.key, .term t.key, .wrap⟩ := by
  simp only [wrapRules, List.mem_map, mem_filterMap_term?, eq_comm]

section Support
variable {v : Variant} {r : NamedRule}

theorem supports_of_mem_wrapRules (hv : v ∈ g.ownVariants) (hlen : 2 ≤ v.kept.length)
    {xs : List Symbol} (hxs : xs ⊆ v.kept) (hr : r ∈ wrapRules xs) : Supports g r := by
  obtain ⟨t, ht, rfl⟩ := mem_wrapRules.1 hr
  exact ⟨rfl, [.term t], .wrap hv hlen (hxs ht), .term hv (hxs ht)⟩

/-- The induction follows the positions of a variant, where the rest of it is still to pair. -/
theorem supports_of_mem_tailRules (hv : v ∈ g.ownVariants) (k : Nat) (xs : List Symbol) (hk : 1 ≤ k)
    (hxs : xs = v.kept.drop k) (hr : r ∈ tailRules v.number k xs) : Supports g r := by
  have hlen : k + xs.length = v.kept.length ∨ xs = [] := by
    rw [hxs, List.length_drop, List.drop_eq_nil_iff]
    omega
  have hsub : xs ⊆ v.kept := hxs ▸ List.drop_subset k v.kept
  induction k, xs using tailRules.induct with
  | case1 k x y z xs ih =>
    have hlen : k + (xs.length + 3) = v.kept.length := hlen.resolve_right (by simp)
    have hdrop : y :: z :: xs = v.kept.drop (k + 1) := by
      rw [← List.drop_drop, ← hxs, List.drop_one, List.tail_cons]
    rw [tailRules] at hr
    rcases List.mem_append.1 hr with hr | hr
    · exact supports_of_mem_wrapRules hv (by omega) (by simpa using hsub (.head _)) hr
    · rcases List.mem_cons.1 hr with rfl | hr
      · refine ⟨rfl, x :: y :: z :: xs, ?_, ?_⟩
        · rw [hxs]
          exact .tail hv hk (by omega)
        · have htail := Stands.tail (g := g) hv (show 1 ≤ k + 1 by omega) (by omega)
          rw [← hdrop] at htail
          exact .pair (stands_ofSymbol hv (by omega) (hsub (.head _))) htail
      · refine ih (by omega) hdrop hr (.inl ?_) (List.subset_of_cons_subset hsub)
        rw [List.length_cons, List.length_cons]
        omega
  | case2 k x y =>
    have hlen : k + 2 = v.kept.length := hlen.resolve_right (by simp)
    rw [tailRules] at hr
    rcases List.mem_append.1 hr with hr | hr
    · exact supports_of_mem_wrapRules hv (by omega) hsub hr
    · obtain rfl := List.mem_singleton.1 hr
      refine ⟨rfl, [x, y], hxs ▸ .tail hv hk (by omega), ?_⟩
      exact .pair (stands_ofSymbol hv (by omega) (hsub (.head _)))
        (stands_ofSymbol hv (by omega) (hsub (.tail _ (.head _))))
  | case3 xs k => simp [tailRules] at hr

theorem exists_mem_tailRules (n k : Nat) (xs : List Symbol) (hxs : 2 ≤ xs.length) :
    (∀ j, j + 2 ≤ xs.length → ∃ r ∈ tailRules n k xs, r.lhs = .tail n (k + j)) ∧
    ∀ t, .term t ∈ xs → ∃ r ∈ tailRules n k xs, r.lhs = .wrap t.key := by
  induction k, xs using tailRules.induct with
  | case1 k x y z xs ih =>
    obtain ⟨htail, hwrap⟩ := ih (by simp)
    rw [tailRules]
    constructor
    · intro j hj
      cases j with
      | zero => exact ⟨_, List.mem_append_right _ (.head _), rfl⟩
      | succ j =>
        obtain ⟨r, hr, hlhs⟩ := htail j (by simpa using hj)
        refine ⟨r, List.mem_append_right _ (.tail _ hr), ?_⟩
        rw [hlhs, show k + 1 + j = k + (j + 1) by omega]
    · intro t ht
      rcases List.mem_cons.1 ht with rfl | ht
      · exact ⟨_, List.mem_append_left _ (mem_wrapRules.2 ⟨t, .head _, rfl⟩), rfl⟩
      · obtain ⟨r, hr, hlhs⟩ := hwrap t ht
        exact ⟨r, List.mem_append_right _ (.tail _ hr), hlhs⟩
  | case2 k x y =>
    rw [tailRules]
    constructor
    · intro j hj
      obtain rfl : j = 0 := by simpa using hj
      exact ⟨_, List.mem_append_right _ (.head _), rfl⟩
    · intro t ht
      exact ⟨_, List.mem_append_left _ (mem_wrapRules.2 ⟨t, ht, rfl⟩), rfl⟩
  | case3 xs k h1 h2 =>
    rcases xs with _ | ⟨x, _ | ⟨y, _ | ⟨z, xs⟩⟩⟩
    · simp at hxs
    · simp at hxs
    · exact (h2 x y rfl).elim
    · exact (h1 x y z xs rfl).elim

/-- A variant that is not unit keeps a terminal, or several symbols. -/
theorem Variant.kept_cases {v : Variant} (hv : v.kept ≠ []) (hbody : v.unitTarget? = none) :
    (∃ t, v.kept = [.term t]) ∨ (∃ x y, v.kept = [x, y]) ∨
      ∃ x y z xs, v.kept = x :: y :: z :: xs := by
  cases hk : v.kept with
  | nil => exact (hv hk).elim
  | cons x xs =>
    cases xs with
    | nil =>
      cases x with
      | nonterm name => simp [Variant.unitTarget?, hk] at hbody
      | term t => exact .inl ⟨t, rfl⟩
    | cons y xs =>
      cases xs with
      | nil => exact .inr (.inl ⟨x, y, rfl⟩)
      | cons z xs => exact .inr (.inr ⟨x, y, z, xs, rfl⟩)

theorem supports_of_mem_support (hv : v ∈ g.ownVariants) (hr : r ∈ v.support) : Supports g r := by
  rw [Variant.support] at hr
  split at hr
  · simp at hr
  · simp at hr
  · rename_i x y hk
    exact supports_of_mem_wrapRules hv (by simp [hk]) (by simp [hk]) hr
  · rename_i x xs _ _ hk
    have hxs : xs ≠ [] := by simp_all
    have hlen := List.length_pos_of_ne_nil hxs
    rcases List.mem_append.1 hr with hr | hr
    · exact supports_of_mem_wrapRules hv (by rw [hk, List.length_cons]; omega) (by simp [hk]) hr
    · exact supports_of_mem_tailRules hv 1 xs (by omega) (by simp [hk]) hr

theorem exists_mem_support (hlen : 2 ≤ v.kept.length) :
    (∀ k, 1 ≤ k → k + 2 ≤ v.kept.length → ∃ r ∈ v.support, r.lhs = .tail v.number k) ∧
    ∀ t, .term t ∈ v.kept → ∃ r ∈ v.support, r.lhs = .wrap t.key := by
  rcases hk : v.kept with _ | ⟨x, _ | ⟨y, _ | ⟨z, xs⟩⟩⟩
  · simp [hk] at hlen
  · simp [hk] at hlen
  · have hs : v.support = wrapRules [x, y] := by simp [Variant.support, hk]
    rw [hs]
    constructor
    · intro k hk1 hk2
      simp only [List.length_cons, List.length_nil] at hk2
      omega
    · intro t ht
      exact ⟨_, mem_wrapRules.2 ⟨t, ht, rfl⟩, rfl⟩
  · have hs : v.support = wrapRules [x] ++ tailRules v.number 1 (y :: z :: xs) := by
      simp [Variant.support, hk]
    obtain ⟨htail, hwrap⟩ := exists_mem_tailRules v.number 1 (y :: z :: xs) (by simp)
    rw [hs]
    constructor
    · intro k hk1 hk2
      obtain ⟨r, hr, hlhs⟩ := htail (k - 1) (by rw [List.length_cons] at hk2; omega)
      refine ⟨r, List.mem_append_right _ hr, ?_⟩
      rw [hlhs, show 1 + (k - 1) = k by omega]
    · intro t ht
      rcases List.mem_cons.1 ht with rfl | ht
      · exact ⟨_, List.mem_append_left _ (mem_wrapRules.2 ⟨t, .head _, rfl⟩), rfl⟩
      · obtain ⟨r, hr, hlhs⟩ := hwrap t ht
        exact ⟨r, List.mem_append_right _ hr, hlhs⟩

/-- The right-hand side of a variant that is not unit stands for what it keeps. -/
theorem exists_body (hv : v ∈ g.ownVariants) (hbody : v.unitTarget? = none) :
    ∃ b, v.body? = some b ∧ BodyStands g b v.kept := by
  rcases Variant.kept_cases (Grammar.kept_ne_nil hv) hbody with ⟨t, hk⟩ | ⟨x, y, hk⟩ |
    ⟨x, y, z, xs, hk⟩
  · refine ⟨.term t.key, by rw [Variant.body?, hk], ?_⟩
    rw [hk]
    exact .term hv (by simp [hk])
  · refine ⟨.pair (.ofSymbol x) (.ofSymbol y), by simp [Variant.body?, hk], ?_⟩
    rw [hk]
    exact .pair (stands_ofSymbol hv (by simp [hk]) (by simp [hk]))
      (stands_ofSymbol hv (by simp [hk]) (by simp [hk]))
  · refine ⟨.pair (.ofSymbol x) (.tail v.number 1), by simp [Variant.body?, hk], ?_⟩
    have htail := Stands.tail (g := g) hv (le_refl 1) (by simp [hk])
    have hdrop : v.kept = [x] ++ v.kept.drop 1 := by simp [hk]
    rw [hdrop]
    exact .pair (stands_ofSymbol hv (by simp [hk]) (by simp [hk])) htail

end Support

section Emissions

theorem unitTarget_mem_heads (g : Grammar) :
    ∀ u ∈ g.ownVariants, ∀ c, u.unitTarget? = some c → c ∈ g.heads := by
  intro u hu c hc
  obtain ⟨name, hkept, rfl⟩ := Variant.unitTarget?_eq_some.1 hc
  exact Grammar.source_mem_heads_of_kept hu (by simp [hkept])

/-- What an emission is made of. -/
structure Emitted (g : Grammar) (e : Emission) : Prop where
  head_mem : e.head ∈ g.heads
  route : SimpleRoute g.ownVariants e.head e.units e.variant.head
  mem : e.variant ∈ g.ownVariants
  body : e.variant.unitTarget? = none

theorem emitted_of_mem {e : Emission} (he : e ∈ g.analysis.emissions) : Emitted g e := by
  simp only [Grammar.Analysis.emissions, emissions, List.mem_flatMap, List.mem_map] at he
  obtain ⟨n, hn, ⟨b, route⟩, hb, v, hv, rfl⟩ := he
  obtain ⟨hvs, hhead, hbody⟩ := mem_bodies.1 hv
  have hroute := (unitClosure_spec (Grammar.nodup_heads g) (unitTarget_mem_heads g) n).1 _ hb
  subst hhead
  exact ⟨hn, hroute, hvs, hbody⟩

/-- Every variant that is not unit is emitted for every head that has a route to it. -/
theorem exists_emission {n : Nonterm} (hn : n ∈ g.heads) {v : Variant} (hv : v ∈ g.ownVariants)
    (hbody : v.unitTarget? = none) {r : Route} {stops : List Nonterm}
    (h : Travels g.ownVariants n r stops v.head) :
    ∃ units, ⟨n, units, v⟩ ∈ g.analysis.emissions := by
  obtain ⟨⟨_, units⟩, hm, rfl⟩ := List.mem_map.1
    ((unitClosure_spec (Grammar.nodup_heads g) (unitTarget_mem_heads g) n).2 r stops _ h)
  refine ⟨units, ?_⟩
  simp only [Grammar.Analysis.emissions, emissions, List.mem_flatMap, List.mem_map]
  exact ⟨n, hn, _, hm, v, mem_bodies.2 ⟨hv, rfl, hbody⟩, rfl⟩

theorem exists_own_emission {v : Variant} (hv : v ∈ g.ownVariants) (hbody : v.unitTarget? = none) :
    ∃ e ∈ g.analysis.emissions, e.variant = v := by
  obtain ⟨units, h⟩ := exists_emission (Grammar.head_mem_heads hv) hv hbody .nil
  exact ⟨_, h, rfl⟩

/-- Where a rule comes from decides what it expands: what its left-hand side stands for, or what
its variant keeps. -/
inductive Comes (g : Grammar) (r : NamedRule) : Prop
  | supports (h : Supports g r)
  | derived {units : Route} {v : Variant} (origin : r.origin = .derived units v)
    (head_mem : r.lhs ∈ g.heads) (route : SimpleRoute g.ownVariants r.lhs units v.head)
    (mem : v ∈ g.ownVariants) (unit : v.unitTarget? = none)
    (stands : BodyStands g r.body v.kept)

theorem comes_of_mem_rules {r : NamedRule} (hr : r ∈ g.analysis.rules) : Comes g r := by
  rw [Grammar.Analysis.rules, Register.toList_ofList] at hr
  obtain ⟨e, he, hr⟩ := List.mem_flatMap.1 ((distinctBy_sublist _ _).subset hr)
  obtain ⟨hhead, hroute, hv, hbody⟩ := emitted_of_mem he
  rcases List.mem_append.1 hr with hr | hr
  · exact .supports (supports_of_mem_support hv hr)
  · obtain ⟨b, hb, hstands⟩ := exists_body hv hbody
    rw [Emission.rule?, hb, Option.map_some, Option.toList_some, List.mem_singleton] at hr
    subst hr
    exact .derived rfl hhead hroute hv hbody hstands

/-- Of rules with the same tag one is kept. -/
theorem exists_rule_of_tag {e : Emission} (he : e ∈ g.analysis.emissions) {r : NamedRule}
    (hr : r ∈ e.rules) : ∃ s ∈ g.analysis.rules, s.tag = r.tag := by
  have hmem : r.tag ∈ (g.analysis.emissions.flatMap Emission.rules).map NamedRule.tag :=
    List.mem_map_of_mem (List.mem_flatMap.2 ⟨e, he, hr⟩)
  rw [← mem_map_distinctBy, ← Register.toList_ofList] at hmem
  exact List.mem_map.1 hmem

/-- Every simple route from a head to a variant that is not unit is covered by one rule. -/
theorem exists_derived_rule {n : Nonterm} (hn : n ∈ g.heads) {v : Variant}
    (hv : v ∈ g.ownVariants) (hbody : v.unitTarget? = none) {route : Route}
    (hroute : SimpleRoute g.ownVariants n route v.head) :
    ∃ r ∈ g.analysis.rules, r.lhs = n ∧ ∃ units, r.origin = .derived units v := by
  obtain ⟨stops, htravel, -⟩ := hroute
  obtain ⟨units, he⟩ := exists_emission hn hv hbody htravel
  obtain ⟨b, hb, -⟩ := exists_body hv hbody
  obtain ⟨r, hr, htag⟩ := exists_rule_of_tag he
    (List.mem_append_right _ (show ⟨n, b, .derived units v⟩ ∈ _ by simp [Emission.rule?, hb]))
  obtain ⟨hlhs, hnumber⟩ := Prod.mk.inj htag
  refine ⟨r, hr, hlhs, ?_⟩
  cases comes_of_mem_rules hr with
  | supports h =>
    have hplain : r.tag.2 = none := h.plain
    rw [htag] at hplain
    simp [NamedRule.tag] at hplain
  | @derived units' u horigin _ _ hu _ _ =>
    rw [horigin] at hnumber
    exact ⟨units', Grammar.eq_of_number_eq hu hv (Option.some.inj hnumber) ▸ horigin⟩

/-- What a route leads to, some rule of its beginning expands. -/
theorem exists_rule_of_travels {n : Nonterm} (hn : n ∈ g.heads) {v : Variant}
    (hv : v ∈ g.ownVariants) (hbody : v.unitTarget? = none) {route : Route}
    {stops : List Nonterm} (h : Travels g.ownVariants n route stops v.head) :
    ∃ r ∈ g.analysis.rules, r.lhs = n ∧ BodyStands g r.body v.kept := by
  obtain ⟨units, he⟩ := exists_emission hn hv hbody h
  obtain ⟨r, hr, hlhs, units', horigin⟩ := exists_derived_rule hn hv hbody (emitted_of_mem he).route
  refine ⟨r, hr, hlhs, ?_⟩
  cases comes_of_mem_rules hr with
  | supports hsup => exact (hsup.origin_ne units' v horigin).elim
  | derived horigin' _ _ _ _ hstands =>
    obtain ⟨-, rfl⟩ := Origin.derived.inj (horigin.symm.trans horigin')
    exact hstands

theorem exists_support_rule {v : Variant} (hv : v ∈ g.ownVariants) (hlen : 2 ≤ v.kept.length)
    {r : NamedRule} (hr : r ∈ v.support) :
    ∃ s ∈ g.analysis.rules, s.lhs = r.lhs ∧ Supports g s := by
  obtain ⟨e, he, rfl⟩ := exists_own_emission hv (Variant.unitTarget?_of_two hlen)
  obtain ⟨s, hs, htag⟩ := exists_rule_of_tag he (List.mem_append_left _ hr)
  refine ⟨s, hs, (Prod.mk.inj htag).1, ?_⟩
  have hplain := (supports_of_mem_support hv hr).plain
  rw [← htag] at hplain
  cases comes_of_mem_rules hs with
  | supports h => exact h
  | derived horigin _ _ _ _ _ => simp [NamedRule.tag, horigin] at hplain

/-- Every list of symbols that a non-terminal stands for is expanded by a rule: what is no head
has a rule that hands its parts on. -/
theorem exists_rule_of_stands {n : Nonterm} {xs : List Symbol} (h : Stands g n xs) :
    n ∈ g.heads ∨ ∃ r ∈ g.analysis.rules, r.lhs = n ∧ Supports g r := by
  cases h with
  | start => exact .inl (Grammar.mem_heads.2 (.inl rfl))
  | source h => exact .inl h
  | tail hv hk hlen =>
    obtain ⟨r, hr, hlhs⟩ := (exists_mem_support (by omega)).1 _ hk hlen
    obtain ⟨s, hs, hsr, hsup⟩ := exists_support_rule hv (by omega) hr
    exact .inr ⟨s, hs, hsr.trans hlhs, hsup⟩
  | wrap hv hlen ht =>
    obtain ⟨r, hr, hlhs⟩ := (exists_mem_support hlen).2 _ ht
    obtain ⟨s, hs, hsr, hsup⟩ := exists_support_rule hv hlen hr
    exact .inr ⟨s, hs, hsr.trans hlhs, hsup⟩

end Emissions
end ContextFree
