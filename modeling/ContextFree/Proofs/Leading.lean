import ContextFree.Proofs.Ways

/-! The first derivation leads. In first mode everything that has a choice makes one: what is first
in exhaustive mode. A list leads another if it is its first element alone, and this relation goes
through every operation that trees are made by. -/
namespace ContextFree

/-- A list has one element, with which the other begins. -/
def Leads {α : Type} (first all : List α) : Prop := ∃ a rest, first = [a] ∧ all = a :: rest

namespace Leads
variable {α β : Type} {l l' : List α}

theorem single (a : α) : Leads [a] [a] := ⟨a, [], rfl, rfl⟩

theorem append (h : Leads l l') (m : List α) : Leads l (l' ++ m) := by
  obtain ⟨a, rest, rfl, rfl⟩ := h
  exact ⟨a, rest ++ m, rfl, rfl⟩

theorem map (f : α → β) (h : Leads l l') : Leads (l.map f) (l'.map f) := by
  obtain ⟨a, rest, rfl, rfl⟩ := h
  exact ⟨f a, rest.map f, rfl, rfl⟩

theorem flatMap {f f' : α → List β} (h : Leads l l') (hf : ∀ a ∈ l, Leads (f a) (f' a)) :
    Leads (l.flatMap f) (l'.flatMap f') := by
  obtain ⟨a, rest, rfl, rfl⟩ := h
  rw [List.flatMap_singleton, List.flatMap_cons]
  exact (hf a (.head _)).append _

theorem filterMap {f : α → Option β} (h : Leads l l') (hf : ∀ a ∈ l, f a ≠ none) :
    Leads (l.filterMap f) (l'.filterMap f) := by
  obtain ⟨a, rest, rfl, rfl⟩ := h
  obtain ⟨b, hb⟩ := Option.ne_none_iff_exists'.1 (hf a (.head _))
  exact ⟨b, rest.filterMap f, by simp [hb], by simp [hb]⟩

theorem distinctBy {κ : Type} [DecidableEq κ] (key : α → κ) (h : Leads l l') :
    Leads (distinctBy key l) (distinctBy key l') := by
  obtain ⟨a, rest, rfl, rfl⟩ := h
  exact ⟨a, _, rfl, rfl⟩

theorem picks {ls ls' : List (List α)} (h : List.Forall₂ Leads ls ls') :
    Leads (picks ls) (picks ls') := by
  induction h with
  | nil => exact single []
  | cons h _ ih => exact h.flatMap fun a _ => ih.map (a :: ·)

end Leads

section Empties
variable {g : Grammar}

theorem nilableBy_take {l : List NumberedProduction} (h : Grounded l) {n : Nat}
    {e : NumberedProduction} (he : l[n]? = some e) :
    ∀ x ∈ e.production.rhs, x.NilableBy (l.take n) := by
  induction h with
  | nil => simp at he
  | @concat l f _ hf ih =>
    rcases Nat.lt_trichotomy n l.length with hn | rfl | hn
    · rw [List.getElem?_append_left hn] at he
      rw [List.take_append_of_le_length hn.le]
      exact ih he
    · rw [List.getElem?_concat_length, Option.some.injEq] at he
      rw [List.take_left, ← he]
      exact hf
    · rw [List.getElem?_eq_none (by simp; omega)] at he
      simp at he

/-- The non-terminals of a proof have earlier proofs. -/
theorem exists_before {l : List NumberedProduction} (h : Grounded l) {n : Nat}
    {e : NumberedProduction} (he : l[n]? = some e) {name : String}
    (hx : .nonterm name ∈ e.production.rhs) :
    ∃ m f, m < n ∧ l[m]? = some f ∧ f.production.lhs = name := by
  obtain ⟨f, hf, hlhs⟩ := nilableBy_take h he _ hx
  obtain ⟨m, hm⟩ := List.mem_iff_getElem?.1 hf
  have hmn : m < n := by
    have := (List.getElem?_eq_some_iff.1 hm).1
    rw [List.length_take] at this
    omega
  rw [List.getElem?_take_of_lt hmn] at hm
  exact ⟨m, f, hmn, hm, hlhs⟩

theorem EmptyProofs.proof?_of_getElem? {ps : EmptyProofs}
    (hnodup : (ps.toList.map (·.production.lhs)).Nodup) {n : Nat} {e : NumberedProduction}
    (he : ps.toList[n]? = some e) : ps.proof? e.production.lhs = some e := by
  have hmem := List.mem_of_getElem? he
  obtain ⟨f, hf⟩ := exists_proof?_iff.2 (Register.has_iff.2 (List.mem_map_of_mem hmem))
  obtain ⟨hmem', hlhs⟩ := proof?_eq_some hf
  rw [hf, List.inj_on_of_nodup_map hnodup hmem' hmem hlhs]

theorem EmptyProofs.index_unique {ps : EmptyProofs}
    (hnodup : (ps.toList.map (·.production.lhs)).Nodup) {m n : Nat} {e f : NumberedProduction}
    (hm : ps.toList[m]? = some e) (hn : ps.toList[n]? = some f)
    (h : e.production.lhs = f.production.lhs) : m = n := by
  have hlt := (List.getElem?_eq_some_iff.1 hm).1
  apply (List.getElem?_inj (by rwa [List.length_map]) hnodup).1
  rw [List.getElem?_map, List.getElem?_map, hm, hn, Option.map_some, Option.map_some, h]

/-- What a symbol of a proof chooses leads if the proofs before do. -/
theorem leads_emptyChoices {n : Nat} {e : NumberedProduction} {free : List String}
    (he : g.emptyProofs.toList[n]? = some e)
    (before : ∀ m f, m < n → g.emptyProofs.toList[m]? = some f → f.production.lhs ∈ free ∧
      Leads (g.emptyTreesBelow g.emptyProofs .first (free.erase f.production.lhs) f.production.lhs)
        (g.emptyTreesBelow g.emptyProofs .exhaustive (free.erase f.production.lhs)
          f.production.lhs))
    (x : Symbol) (hx : x ∈ e.production.rhs) :
    Leads (g.emptyChoices .first free x) (g.emptyChoices .exhaustive free x) := by
  have hgrounded := g.emptyProofs_spec.1.grounded
  cases x with
  | term t =>
    have ht : t.isEmpty = true := nilableBy_take hgrounded he _ hx
    rw [Grammar.emptyChoices, Grammar.emptyChoices, if_pos ht]
    exact .single _
  | nonterm child =>
    obtain ⟨m, f, hmn, hm, rfl⟩ := exists_before hgrounded he hx
    obtain ⟨hmem, hleads⟩ := before m f hmn hm
    rw [Grammar.emptyChoices, Grammar.emptyChoices, if_pos hmem, if_pos hmem]
    exact hleads

/-- The induction is on the order of the proofs: a proof rests on earlier ones, so following proofs
never meets what is above. -/
theorem leads_emptyTreesBelow (n : Nat) : ∀ (e : NumberedProduction) (free : List String),
    g.emptyProofs.toList[n]? = some e →
    (∀ m f, m < n → g.emptyProofs.toList[m]? = some f → f.production.lhs ∈ free) →
    Leads (g.emptyTreesBelow g.emptyProofs .first free e.production.lhs)
      (g.emptyTreesBelow g.emptyProofs .exhaustive free e.production.lhs) := by
  have hsound := g.emptyProofs_spec.1
  induction n using Nat.strongRecOn with
  | ind n ih =>
    intro e free he hfree
    have choices := leads_emptyChoices he fun m f hmn hm => by
      refine ⟨hfree m f hmn hm, ih m hmn f _ hm fun k h hk hh => ?_⟩
      refine (List.mem_erase_of_ne fun heq => ?_).2 (hfree k h (by omega) hh)
      have := EmptyProofs.index_unique hsound.nodup hh hm heq
      omega
    have hproof := EmptyProofs.proof?_of_getElem? hsound.nodup he
    rw [Grammar.emptyTreesBelow_eq, Grammar.emptyTreesBelow_eq, hproof]
    apply Leads.distinctBy id
    apply Leads.flatMap ⟨e.production, _, rfl, rfl⟩
    intro p hp
    obtain rfl := List.mem_singleton.1 hp
    apply Leads.map
    apply Leads.picks
    rw [List.forall₂_map_left_iff, List.forall₂_map_right_iff, List.forall₂_same]
    exact choices

theorem leads_emptyTrees {name : String} (h : g.emptyProofs.nilable (.nonterm name) = true) :
    Leads (g.emptyTrees g.emptyProofs .first name)
      (g.emptyTrees g.emptyProofs .exhaustive name) := by
  have hsound := g.emptyProofs_spec.1
  rw [EmptyProofs.nilable, Register.has_iff] at h
  obtain ⟨e, he, rfl⟩ := List.mem_map.1 h
  obtain ⟨n, hn⟩ := List.mem_iff_getElem?.1 he
  refine leads_emptyTreesBelow n e _ hn fun m f hmn hm => (List.mem_erase_of_ne fun heq => ?_).2
    (List.mem_map_of_mem (List.mem_of_getElem? hm))
  have := EmptyProofs.index_unique hsound.nodup hm hn heq
  omega

end Empties

section Nodes
variable {g : Grammar} {a : Nat}

theorem leads_emptiesAt {x : Symbol} (hx : g.emptyProofs.nilable x = true) :
    Leads ((g.rebuilding .first).emptiesAt a x) ((g.rebuilding .exhaustive).emptiesAt a x) := by
  cases x with
  | term t => exact .single _
  | nonterm name =>
    rw [Rebuilding.emptiesAt, Rebuilding.emptiesAt, empties_rebuilding,
      empties_rebuilding]
    exact (leads_emptyTrees hx).map _

theorem leads_fillSlots {slots : List Slot} {ps : Parts}
    (hnil : ∀ s ∈ slots, s.kept = false → g.emptyProofs.nilable s.symbol = true)
    (hlen : ps.length = (keptSymbols slots).length) :
    List.Forall₂ Leads ((g.rebuilding .first).fillSlots slots ps a)
      ((g.rebuilding .exhaustive).fillSlots slots ps a) := by
  induction slots generalizing ps a with
  | nil => exact .nil
  | cons s slots ih =>
    obtain ⟨x, kept⟩ := s
    have ih {ps : Parts} {a : Nat} := @ih a ps fun s hs => hnil s (.tail _ hs)
    cases kept with
    | false => exact .cons (leads_emptiesAt (hnil _ (.head _) rfl)) (ih (by simpa using hlen))
    | true =>
      cases ps with
      | nil => simp at hlen
      | cons part ps => exact .cons (.single _) (ih (by simpa using hlen))

theorem leads_expand {v : Variant} (hv : v ∈ g.ownVariants) {ps : Parts}
    (hlen : ps.length = v.kept.length) :
    Leads ((g.rebuilding .first).expand v ps a) ((g.rebuilding .exhaustive).expand v ps a) := by
  rcases Grammar.cases_of_mem_variants hv with ⟨hlabel, hkept⟩ | ⟨p, -, hlabel, hs⟩
  · rw [hkept] at hlen
    obtain ⟨part, rfl⟩ := List.length_eq_one_iff.1 hlen
    simp only [Rebuilding.expand, hlabel]
    exact .single _
  · simp only [Rebuilding.expand, hlabel]
    apply Leads.map
    apply Leads.picks
    exact leads_fillSlots (nilable_of_mem_slotChoices (Grammar.mem_variantSlots.1 hs).1) hlen

theorem leads_wrapUnits {b : Nat} {n m : Nonterm} {route : Route} {stops : List Nonterm}
    (h : Travels g.ownVariants n route stops m) (t : ParseTree) :
    Leads ((g.rebuilding .first).wrapUnits a b route t)
      ((g.rebuilding .exhaustive).wrapUnits a b route t) := by
  induction h with
  | nil => exact .single t
  | cons hu _ hc _ ih =>
    obtain ⟨name, hkept, -⟩ := Variant.unitTarget?_eq_some.1 hc
    exact ih.flatMap fun s _ => leads_expand hu (by simp [hkept])

/-- What a rule makes first in first mode it makes first of all. -/
theorem leads_produce {r : NamedRule} (hr : r ∈ g.analysis.rules) {zs : List Symbol}
    (hzs : BodyStands g r.body zs) {k : Nat} {f : Nonterm → Nat} {f' : Terminal.Key → Nat}
    (hk : g.normalForm.rules[k]? = some (r.map f f')) {qs : Parts}
    (hlen : qs.length = zs.length) :
    Leads ((g.rebuilding .first).produce k qs a) ((g.rebuilding .exhaustive).produce k qs a) := by
  have hfirst : (g.rebuilding .first).rules k = some (r.map f f') :=
    (rules_rebuilding k).trans hk
  have hfull : (g.rebuilding .exhaustive).rules k = some (r.map f f') :=
    (rules_rebuilding k).trans hk
  cases comes_of_mem_rules hr with
  | supports h =>
    rw [produce_plain hfirst h.origin_ne, produce_plain hfull h.origin_ne]
    exact .single qs
  | @derived units v ho _ hroute hv _ hstands =>
    obtain ⟨stops, htravel, -⟩ := hroute
    have horigin : (r.map f f').origin = .derived units v := ho
    have hroutes : Leads ((g.rebuilding .first).routes k)
        ((g.rebuilding .exhaustive).routes k) := by
      rw [routes_rebuilding hk, routes_rebuilding hk]
      simp only [Grammar.Analysis.routes, horigin]
      exact ⟨units, _, rfl, rfl⟩
    have hunits : ∀ route ∈ (g.rebuilding .first).routes k, route = units := by
      rw [routes_rebuilding hk]
      simp [Grammar.Analysis.routes, horigin]
    simp only [Rebuilding.produce, hfirst, hfull, Option.map_some, horigin]
    apply hroutes.flatMap
    intro route hm
    obtain rfl := hunits route hm
    refine Leads.flatMap (leads_expand hv ?_) fun t _ => (leads_wrapUnits htravel t).map _
    rw [hlen, hzs.length_unique hstands]

end Nodes

section Chart
variable {g : Grammar} {s : Scan}

/-- What the first derivation gives for a span leads everything that the span gives. -/
def LeadsOn (g : Grammar) (s : Scan) (i l : Nat) (n : Nonterm) : Prop :=
  Leads (g.gives s .first i l n) (g.gives s .exhaustive i l n)

/-- A way leads if, for a split, its two spans do. -/
theorem leads_follows {i l : Nat} (h : i + l ≤ s.bounds.length - 1) {n : Nonterm} {b : Back}
    (hway : Goes g s .first i l n b)
    (shorter : ∀ j k m ys, 1 ≤ k → k < l → j + k ≤ i + l → Stands g m ys →
      ((g.filled s .first).cell j k).has (g.number m) = true → LeadsOn g s j k m) :
    Leads (g.follows s .first i l b) (g.follows s .exhaustive i l b) := by
  cases hway with
  | term hr hv ht hk => exact leads_produce hr (.term hv ht) hk rfl
  | @split k m b c origin ys zs hr hb hc hk hm hml hleft hright =>
    rw [follows_split hk, follows_split hk]
    apply (shorter i m b ys hm hml (by omega) hb hleft).flatMap
    intro left hl
    apply (shorter (i + m) (l - m) c zs (by omega) (by omega) (by omega) hc hright).flatMap
    intro right hr'
    have hl := length_of_mem_gives m hm (by omega) hb left hl
    have hr' := length_of_mem_gives (l - m) (by omega) (by omega) hc right hr'
    exact leads_produce hr (.pair hb hc) hk (by simp [hl, hr'])

/-- Whatever is in a cell has a first derivation, which leads all of them. -/
theorem leads_alternatives (l : Nat) : ∀ {i : Nat} {n : Nonterm} {xs : List Symbol}, 1 ≤ l →
    i + l ≤ s.bounds.length - 1 → Stands g n xs →
    ((g.filled s .first).cell i l).has (g.number n) = true → LeadsOn g s i l n := by
  induction l using Nat.strongRecOn with
  | ind l ih =>
    intro i n xs hl h hxs hhas
    obtain ⟨b, ways, hb⟩ := List.exists_cons_of_ne_nil ((NormalForm.has_fill_iff hl h).1 hhas)
    have hway : Goes g s .first i l n b :=
      goes_of_mem_waysOf hxs (hb ▸ List.mem_cons_self)
    have hleads := leads_follows h hway fun j k m ys hk hkl hj hm hhas =>
      ih k hkl hk (by omega) hm hhas
    have hfirst : ((g.filled s .first).cell i l).backs (g.number n) = [b] := by
      rw [Grammar.filled, NormalForm.backs_fill hl h, hb]
      rfl
    have hfull : ((g.filled s .exhaustive).cell i l).backs (g.number n) = b :: ways := by
      rw [Grammar.filled, NormalForm.backs_fill hl h, NormalForm.waysOf_mode .first hl h, hb]
      rfl
    rw [LeadsOn, gives_eq hl h, gives_eq hl h, hfirst, hfull, List.flatMap_singleton,
      List.flatMap_cons, distinctParts_eq, distinctParts_eq]
    exact (hleads.append _).distinctBy _

end Chart
end ContextFree
