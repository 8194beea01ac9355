import ContextFree.Proofs.Routes
import ContextFree.Proofs.Variants

/-! Spines. Where nodes over the same bytes stand above each other, they form a simple route of
unit variants, from the top to the first variant that is not unit; its parts take fewer bytes, or
are terminals, so nothing above them counts. -/
namespace ContextFree

variable {g : Grammar} {w : String} {x : Rebuilding} {a b : Nat} {seen : List Nonterm}

theorem Fills.tree_mem {empty : Nat → Symbol → ParseTree → Prop} {slots : List Slot} {p : Nat}
    {ps : Parts} {ts : List ParseTree} (h : Fills empty slots p ps ts)
    (hlen : ps.length = (keptSymbols slots).length) : ∀ q ∈ ps, q.tree ∈ ts := by
  induction h with
  | nil =>
    obtain rfl := List.length_eq_zero_iff.1 hlen
    simp
  | drop _ _ ih => exact fun q hq => .tail _ (ih (by simpa using hlen) q hq)
  | keep _ ih =>
    intro q hq
    rcases List.mem_cons.1 hq with rfl | hq
    · exact .head _
    · exact .tail _ (ih (by simpa using hlen) q hq)

/-- The node of a unit variant is larger than what it stands above, except for the isolated start,
which has no node. -/
theorem sizeOf_lt_of_mem_expand {v : Variant} {name : String} {t u : ParseTree}
    (hkept : v.kept = [.nonterm name]) (hlabel : v.label ≠ none)
    (h : t ∈ x.expand v [⟨u, b⟩] a) : sizeOf u < sizeOf t := by
  obtain ⟨label, hlabel⟩ := Option.ne_none_iff_exists'.1 hlabel
  obtain ⟨ts, rfl, hfills⟩ := (mem_expand hlabel).1 h
  have hmem : u ∈ ts := hfills.tree_mem (by rw [← Variant.kept_eq, hkept]; rfl) ⟨u, b⟩ (.head _)
  have := List.sizeOf_lt_of_mem hmem
  rw [SyntaxTree.node.sizeOf_spec]
  omega

variable [Pattern.Engine]

/-- What is above the parts of a variant that is not unit does not count. -/
theorem partsDerive_nodesOver {v : Variant} (hv : v.unitTarget? = none) (hkept : v.kept ≠ [])
    {ps : Parts} : PartsDerive g w (nodesOver a b seen) v.kept a b ps ↔
      PartsDerive g w [] v.kept a b ps := by
  constructor
  · intro h
    exact h.frame (by simp)
  · intro h
    cases hk : v.kept with
    | nil => exact (hkept hk).elim
    | cons y ys =>
      rw [hk] at h
      cases ys with
      | nil =>
        cases y with
        | nonterm name => simp [Variant.unitTarget?, hk] at hv
        | term t =>
          obtain ⟨u, rfl, hab, hu⟩ := partsDerive_singleton.1 h
          exact .cons hab (derivesAcyclic_term.2 (derivesAcyclic_term.1 hu)) .nil
      | cons z ys =>
        exact h.frame_of_two (by simp) fun e he => (mem_nodesOver.1 he).2

/-- A way to rebuild a tree of a head: a simple route that stays clear of what is above, the parts
of the variant at its end, and the nodes that are wrapped around them. -/
structure Spine (g : Grammar) (w : String) (x : Rebuilding) (seen : List Nonterm) (n : Nonterm)
    (a b : Nat) (t : ParseTree) (route : Route) (v : Variant) (ps : Parts) : Prop where
  travels : ∃ stops, Travels (g.variants g.emptyProofs.nilable) n route stops v.head ∧
    stops.Nodup ∧ ∀ c ∈ stops, c ∉ n :: seen
  mem : v ∈ g.variants g.emptyProofs.nilable
  body : v.unitTarget? = none
  parts : PartsDerive g w [] v.kept a b ps
  nodes : ∃ t' ∈ x.expand v ps a, t ∈ x.wrapUnits a b route t'

omit [Pattern.Engine] in
theorem mem_wrapUnits_cons {u : Variant} {route : Route} {t t' : ParseTree} :
    t ∈ x.wrapUnits a b (u :: route) t' ↔
      ∃ s ∈ x.wrapUnits a b route t', t ∈ x.expand u [⟨s, b⟩] a := by
  rw [Rebuilding.wrapUnits, List.mem_flatMap]

/-- A unit variant puts its node around a tree of its target. -/
theorem headDerives_of_unit (hx : x.HasEmpties g) (hab : a < b) {u : Variant} {c : Nonterm}
    (hu : u ∈ g.variants g.emptyProofs.nilable) (hc : u.unitTarget? = some c)
    (hn : u.head ∉ seen) {s t : ParseTree} (hs : HeadDerives g w (u.head :: seen) c a b s)
    (ht : t ∈ x.expand u [⟨s, b⟩] a) : HeadDerives g w seen u.head a b t := by
  obtain ⟨name, hkept, rfl⟩ := Variant.unitTarget?_eq_some.1 hc
  obtain ⟨_, hname, hs⟩ := hs
  obtain rfl := Option.some.inj hname
  refine headDerives_of_mem_expand hx hab hu hn ?_ ht
  rw [hkept]
  exact .cons hab hs .nil

theorem Spine.headDerives (hx : x.HasEmpties g) (hab : a < b) {n : Nonterm} {t : ParseTree}
    {route : Route} {v : Variant} {ps : Parts} (hn : n ∉ seen)
    (h : Spine g w x seen n a b t route v ps) : HeadDerives g w seen n a b t := by
  obtain ⟨⟨stops, htravel, hnodup, hclear⟩, hv, hbody, hps, t', ht', ht⟩ := h
  generalize hend : v.head = m at htravel
  induction htravel generalizing seen t with
  | nil =>
    obtain rfl := List.mem_singleton.1 ht
    subst hend
    refine headDerives_of_mem_expand hx hab hv hn ?_ ht'
    exact (partsDerive_nodesOver hbody (Grammar.kept_ne_nil hv)).2 hps
  | @cons n c m u route stops hu hh hc _ ih =>
    subst hh
    obtain ⟨s, hs, ht⟩ := mem_wrapUnits_cons.1 ht
    obtain ⟨hcs, hnodup⟩ := List.nodup_cons.1 hnodup
    refine headDerives_of_unit hx hab hu hc hn (ih (hclear c (.head _)) hnodup ?_ hs hend) ht
    intro d hd hm
    rcases List.mem_cons.1 hm with rfl | hm
    · exact hcs hd
    · exact hclear d (.tail _ hd) hm

/-- A unit variant goes on top of a spine of its target. -/
theorem Spine.cons {u v : Variant} {name : String} {s t : ParseTree} {route : Route} {ps : Parts}
    (hu : u ∈ g.variants g.emptyProofs.nilable) (hkept : u.kept = [.nonterm name])
    (hclear : .source name ∉ u.head :: seen)
    (h : Spine g w x (u.head :: seen) (.source name) a b s route v ps)
    (ht : t ∈ x.expand u [⟨s, b⟩] a) : Spine g w x seen u.head a b t (u :: route) v ps := by
  obtain ⟨⟨stops, htravel, hnodup, hstops⟩, hv, hbody, hps, t', ht', hs⟩ := h
  have hc : u.unitTarget? = some (.source name) := Variant.unitTarget?_eq_some.2 ⟨name, hkept, rfl⟩
  refine ⟨⟨.source name :: stops, .cons hu rfl hc htravel, ?_, ?_⟩, hv, hbody, hps, t', ht', ?_⟩
  · exact List.nodup_cons.2 ⟨fun hm => hstops _ hm (.head _), hnodup⟩
  · intro d hd
    rcases List.mem_cons.1 hd with rfl | hd
    · exact hclear
    · exact fun hm => hstops d hd (.tail _ hm)
  · exact mem_wrapUnits_cons.2 ⟨s, hs, ht⟩

/-- What gets smaller down a spine. The isolated start counts, since it has no node. -/
noncomputable def spineRank (n : Nonterm) (t : ParseTree) : Nat :=
  2 * sizeOf t + if n = .start then 1 else 0

omit [Pattern.Engine] in
theorem spineRank_lt {v : Variant} {name : String} {s t : ParseTree}
    (hkept : v.kept = [.nonterm name]) (ht : t ∈ x.expand v [⟨s, b⟩] a) :
    spineRank (.source name) s < spineRank v.head t := by
  rw [spineRank, spineRank, if_neg (by simp)]
  by_cases hlabel : v.label = none
  · obtain rfl : t = s := by simpa [Rebuilding.expand, hlabel] using ht
    rw [if_pos (by rw [Variant.head, hlabel])]
    omega
  · have := sizeOf_lt_of_mem_expand hkept hlabel ht
    omega

/-- Each tree of a head has a spine. -/
theorem exists_spine (hx : x.HasEmpties g) (hab : a < b) (k : Nat) : ∀ (seen : List Nonterm)
    (n : Nonterm) (t : ParseTree), spineRank n t = k → n ∉ seen →
    HeadDerives g w seen n a b t → ∃ route v ps, Spine g w x seen n a b t route v ps := by
  induction k using Nat.strongRecOn with
  | ind k ih =>
    intro seen n t hk hn h
    obtain ⟨v, hv, rfl, ps, hps, ht⟩ := h.exists_variant hx hab
    cases hc : v.unitTarget? with
    | none =>
      refine ⟨[], v, ps, ⟨[], .nil, by simp, by simp⟩, hv, hc, ?_, t, ht, List.mem_singleton.2 rfl⟩
      exact (partsDerive_nodesOver hc (Grammar.kept_ne_nil hv)).1 hps
    | some c =>
      obtain ⟨name, hkept, rfl⟩ := Variant.unitTarget?_eq_some.1 hc
      rw [hkept] at hps
      obtain ⟨s, rfl, -, hs⟩ := partsDerive_singleton.1 hps
      have hclear : .source name ∉ v.head :: seen := by
        intro hm
        exact (derivesAcyclic_nonterm.1 hs).1 (mem_nodesOver.2 ⟨hm, rfl⟩)
      obtain ⟨route, u, qs, hspine⟩ := ih _ (hk ▸ spineRank_lt hkept ht) (v.head :: seen)
        (.source name) s rfl hclear ⟨name, rfl, hs⟩
      exact ⟨v :: route, u, qs, hspine.cons hv hkept hclear ht⟩

/-- The trees of a head are those with a spine. -/
theorem derivesAcyclic_iff_spine (hx : x.HasEmpties g) (hab : a < b) {n : Nonterm} {name : String}
    (hname : n.name? g = some name) {t : ParseTree} :
    DerivesAcyclic g w [] (.nonterm name) a b t ↔
      ∃ route v ps, Spine g w x [] n a b t route v ps := by
  constructor
  · intro h
    exact exists_spine hx hab _ [] n t rfl (by simp) ⟨name, hname, h⟩
  · rintro ⟨route, v, ps, h⟩
    obtain ⟨_, hn, h⟩ := h.headDerives hx hab (by simp)
    exact Option.some.inj (hname.symm.trans hn) ▸ h

end ContextFree
