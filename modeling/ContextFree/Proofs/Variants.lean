import ContextFree.NormalForm
import ContextFree.Proofs.Slots

/-! Variants. The variants of a head, which is the isolated start or a name, describe all ways in
which it derives some bytes: what a variant keeps is derived by parts, and the node of the variant
is expanded from them. -/
namespace ContextFree
namespace Grammar
variable {g : Grammar} {nilable : Symbol → Bool} {u v : Variant}

theorem mem_variantSlots {p : Production} {slots : List Slot} :
    slots ∈ variantSlots nilable p ↔
      slots ∈ slotChoices nilable p.rhs ∧ keptSymbols slots ≠ [] := by
  rw [variantSlots, List.mem_filter, List.any_eq_true, keptSymbols, ne_eq, List.map_eq_nil_iff,
    List.filter_eq_nil_iff]
  simp

/-- The variants before they are numbered. -/
def unnumbered (g : Grammar) (nilable : Symbol → Bool) : List (Option String × List Slot) :=
  (none, [⟨.nonterm g.start, true⟩]) ::
    g.productions.flatMap fun p => (variantSlots nilable p).map (some p.lhs, ·)

theorem mem_variants : v ∈ g.variants nilable ↔
    (g.unnumbered nilable)[v.number]? = some (v.label, v.slots) := by
  change v ∈ ((g.unnumbered nilable).zipIdx.map fun e => ⟨e.2, e.1.1, e.1.2⟩) ↔ _
  rw [List.mem_map]
  constructor
  · rintro ⟨⟨⟨label, slots⟩, number⟩, h, rfl⟩
    exact List.mem_zipIdx_iff_getElem?.1 h
  · intro h
    exact ⟨((v.label, v.slots), v.number), List.mem_zipIdx_iff_getElem?.2 h, rfl⟩

/-- A variant is known by its number. -/
theorem eq_of_number_eq (hu : u ∈ g.variants nilable) (hv : v ∈ g.variants nilable)
    (h : u.number = v.number) : u = v := by
  rw [mem_variants] at hu hv
  rw [h, hv, Option.some.injEq, Prod.mk.injEq] at hu
  cases u
  cases v
  simp_all

/-- A route is known by its numbers. -/
theorem route_eq_of_numbers {r r' : Route} (hr : ∀ u ∈ r, u ∈ g.variants nilable)
    (hr' : ∀ u ∈ r', u ∈ g.variants nilable) (h : r.map (·.number) = r'.map (·.number)) :
    r = r' := by
  induction r generalizing r' with
  | nil => simpa using h.symm
  | cons u r ih =>
    cases r' with
    | nil => simp at h
    | cons u' r' =>
      simp only [List.map_cons, List.cons.injEq] at h
      rw [eq_of_number_eq (hr u (.head _)) (hr' u' (.head _)) h.1,
        ih (fun v hv => hr v (.tail _ hv)) (fun v hv => hr' v (.tail _ hv)) h.2]

theorem exists_variant {e : Option String × List Slot} (h : e ∈ g.unnumbered nilable) :
    ∃ v ∈ g.variants nilable, v.label = e.1 ∧ v.slots = e.2 := by
  obtain ⟨i, hi⟩ := List.mem_iff_getElem?.1 h
  exact ⟨⟨i, e.1, e.2⟩, mem_variants.2 hi, rfl, rfl⟩

theorem mem_unnumbered {e : Option String × List Slot} : e ∈ g.unnumbered nilable ↔
    e = (none, [⟨.nonterm g.start, true⟩]) ∨ ∃ p ∈ g.productions, ∃ slots,
      slots ∈ variantSlots nilable p ∧ e = (some p.lhs, slots) := by
  simp only [unnumbered, List.mem_cons, List.mem_flatMap, List.mem_map, eq_comm]

theorem exists_start_variant (g : Grammar) (nilable : Symbol → Bool) :
    ∃ v ∈ g.variants nilable, v.label = none ∧ v.kept = [.nonterm g.start] := by
  obtain ⟨v, hv, hlabel, hslots⟩ := exists_variant (mem_unnumbered.2 (.inl rfl))
  refine ⟨v, hv, hlabel, ?_⟩
  rw [Variant.kept_eq, hslots]
  rfl

theorem exists_source_variant {p : Production} (hp : p ∈ g.productions) {slots : List Slot}
    (hs : slots ∈ variantSlots nilable p) :
    ∃ v ∈ g.variants nilable, v.label = some p.lhs ∧ v.slots = slots :=
  exists_variant (mem_unnumbered.2 (.inr ⟨p, hp, slots, hs, rfl⟩))

/-- A variant isolates the start symbol or comes from a production. -/
theorem cases_of_mem_variants (hv : v ∈ g.variants nilable) :
    (v.label = none ∧ v.kept = [.nonterm g.start]) ∨
    ∃ p ∈ g.productions, v.label = some p.lhs ∧ v.slots ∈ variantSlots nilable p := by
  have hmem : (v.label, v.slots) ∈ g.unnumbered nilable :=
    List.mem_of_getElem? (mem_variants.1 hv)
  rcases mem_unnumbered.1 hmem with h | ⟨p, hp, slots, hs, h⟩
  · obtain ⟨hlabel, hslots⟩ := Prod.mk.inj h
    left
    refine ⟨hlabel, ?_⟩
    rw [Variant.kept_eq, hslots]
    rfl
  · obtain ⟨hlabel, rfl⟩ := Prod.mk.inj h
    right
    exact ⟨p, hp, hlabel, hs⟩

theorem kept_ne_nil (hv : v ∈ g.variants nilable) : v.kept ≠ [] := by
  rcases cases_of_mem_variants hv with ⟨-, hkept⟩ | ⟨p, -, -, hs⟩
  · simp [hkept]
  · exact (mem_variantSlots.1 hs).2

theorem mem_heads {n : Nonterm} : n ∈ g.heads ↔
    n = .start ∨ ∃ p ∈ g.productions, n = .source p.lhs := by
  rw [heads, List.mem_cons, List.mem_map]
  simp only [mem_distinct, List.mem_map]
  constructor
  · rintro (rfl | ⟨_, ⟨p, hp, rfl⟩, rfl⟩)
    · exact .inl rfl
    · exact .inr ⟨p, hp, rfl⟩
  · rintro (rfl | ⟨p, hp, rfl⟩)
    · exact .inl rfl
    · exact .inr ⟨_, ⟨p, hp, rfl⟩, rfl⟩

theorem source_mem_heads {name : String} :
    .source name ∈ g.heads ↔ ∃ p ∈ g.productions, p.lhs = name := by
  rw [mem_heads]
  simp [eq_comm]

theorem nodup_heads (g : Grammar) : g.heads.Nodup := by
  rw [heads, List.nodup_cons]
  refine ⟨by simp, (nodup_distinct _).map ?_⟩
  intro a b h
  exact Nonterm.source.inj h

theorem head_mem_heads (hv : v ∈ g.variants nilable) : v.head ∈ g.heads := by
  rcases cases_of_mem_variants hv with ⟨hlabel, -⟩ | ⟨p, hp, hlabel, -⟩
  · rw [Variant.head, hlabel]
    exact mem_heads.2 (.inl rfl)
  · rw [Variant.head, hlabel]
    exact mem_heads.2 (.inr ⟨p, hp, rfl⟩)

/-- What a variant keeps stands on a right-hand side, or is the start symbol. -/
theorem mem_rhs_of_mem_kept (hv : v ∈ g.variants nilable) {x : Symbol} (hx : x ∈ v.kept) :
    x = .nonterm g.start ∨ ∃ p ∈ g.productions, x ∈ p.rhs := by
  rcases cases_of_mem_variants hv with ⟨-, hkept⟩ | ⟨p, hp, -, hs⟩
  · left
    simpa [hkept] using hx
  · right
    rw [Variant.kept_eq, keptSymbols, List.mem_map] at hx
    obtain ⟨s, hm, rfl⟩ := hx
    refine ⟨p, hp, ?_⟩
    rw [← symbols_of_mem_slotChoices (mem_variantSlots.1 hs).1]
    exact List.mem_map_of_mem (List.mem_of_mem_filter hm)

/-- Every name that a variant keeps has a production. -/
theorem source_mem_heads_of_kept (hv : v ∈ g.variants nilable) {name : String}
    (hn : .nonterm name ∈ v.kept) : .source name ∈ g.heads := by
  rw [source_mem_heads]
  rcases mem_rhs_of_mem_kept hv hn with h | ⟨p, hp, hx⟩
  · obtain rfl := Symbol.nonterm.inj h
    exact g.start_defined
  · exact g.closed p hp name (List.mem_filterMap.2 ⟨_, hx, rfl⟩)

end Grammar

/-- The target of a unit variant is what it keeps. -/
theorem Variant.unitTarget?_eq_some {v : Variant} {c : Nonterm} :
    v.unitTarget? = some c ↔ ∃ name, v.kept = [.nonterm name] ∧ c = .source name := by
  rw [unitTarget?]
  split
  · rename_i name h
    simp [h, eq_comm]
  · rename_i h
    simpa using fun name hk => (h name hk).elim

theorem Variant.unitTarget?_eq_none {v : Variant} :
    v.unitTarget? = none ↔ ∀ name, v.kept ≠ [.nonterm name] := by
  rw [Option.eq_none_iff_forall_ne_some]
  simp only [ne_eq, unitTarget?_eq_some, not_exists, not_and]
  constructor
  · intro h name hk
    exact h _ name hk rfl
  · intro h _ name hk
    exact (h name hk).elim

theorem Variant.unitTarget?_of_two {v : Variant} (h : 2 ≤ v.kept.length) :
    v.unitTarget? = none :=
  unitTarget?_eq_none.2 fun name hk => by simp [hk] at h

/-- The name that a head stands for. -/
def Nonterm.name? (g : Grammar) : Nonterm → Option String
  | start => some g.start
  | source name => some name
  | tail _ _ | wrap _ => none

/-- Nodes above a tree, all over the same bytes. The isolated start builds none. -/
def nodesOver (a b : Nat) (seen : List Nonterm) : List (String × Nat × Nat) :=
  seen.filterMap fun n => match n with
    | .source name => some (name, a, b)
    | _ => none

theorem nodesOver_source (a b : Nat) (name : String) (seen : List Nonterm) :
    nodesOver a b (.source name :: seen) = (name, a, b) :: nodesOver a b seen := rfl

theorem nodesOver_start (a b : Nat) (seen : List Nonterm) :
    nodesOver a b (.start :: seen) = nodesOver a b seen := rfl

theorem mem_nodesOver {a b : Nat} {seen : List Nonterm} {e : String × Nat × Nat} :
    e ∈ nodesOver a b seen ↔ .source e.1 ∈ seen ∧ e.2 = (a, b) := by
  rw [nodesOver, List.mem_filterMap]
  constructor
  · rintro ⟨n, hn, h⟩
    cases n with
    | source name =>
      obtain rfl := Option.some.inj h
      exact ⟨hn, rfl⟩
    | _ => simp at h
  · rintro ⟨hn, h⟩
    exact ⟨_, hn, by rw [← h]⟩

section Nodes
variable [Pattern.Engine] {g : Grammar} {w : String} {x : Rebuilding} {a b : Nat}
  {seen : List Nonterm}

/-- A rebuilding has the empty trees of a grammar if it has all of them. -/
def Rebuilding.HasEmpties (x : Rebuilding) (g : Grammar) : Prop :=
  ∀ name, x.empties name = g.emptyTrees g.emptyProofs .exhaustive name

theorem mem_emptiesAt (hx : x.HasEmpties g) {s : Symbol} (hs : g.emptyProofs.nilable s = true)
    {p : Nat} {t : ParseTree} :
    t ∈ x.emptiesAt p s ↔ DerivesAcyclic g w [] s p p t := by
  cases s with
  | term t' =>
    have hp : t'.Takes w p p := Terminal.takes_self.2 hs
    rw [Rebuilding.emptiesAt, List.mem_singleton, derivesAcyclic_term]
    simp [hp]
  | nonterm name =>
    rw [Rebuilding.emptiesAt, hx name, List.mem_map]
    constructor
    · rintro ⟨e, he, rfl⟩
      exact (Grammar.mem_emptyTrees p).1 he
    · intro h
      obtain ⟨e, rfl⟩ := h.derives.exists_place rfl
      exact ⟨e, (Grammar.mem_emptyTrees p).2 h, rfl⟩

/-- Above empty trees, nodes over some bytes do not count. -/
theorem derivesAcyclic_nodesOver (hab : a < b) {s : Symbol} {p : Nat} {t : ParseTree} :
    DerivesAcyclic g w (nodesOver a b seen) s p p t ↔ DerivesAcyclic g w [] s p p t := by
  constructor
  · intro h
    exact h.frame (by simp)
  · intro h
    apply h.frame
    intro n c d hc hd he
    have := Prod.mk.inj (show (c, d) = (a, b) from (mem_nodesOver.1 he).2)
    omega

omit [Pattern.Engine] in
theorem mem_expand {v : Variant} {name : String} (hv : v.label = some name) {ps : Parts}
    {t : ParseTree} : t ∈ x.expand v ps a ↔ ∃ ts, t = .node name ts ∧
      Fills (fun p s u => u ∈ x.emptiesAt p s) v.slots a ps ts := by
  simp only [Rebuilding.expand, hv, List.mem_map, mem_picks_fillSlots]
  constructor
  · rintro ⟨ts, h, rfl⟩
    exact ⟨ts, rfl, h⟩
  · rintro ⟨ts, rfl, h⟩
    exact ⟨ts, h, rfl⟩

/-- What fills a choice with empty trees is what fills it with empty derivations. -/
theorem fills_emptiesAt_iff (hx : x.HasEmpties g) (hab : a < b) {xs : List Symbol}
    {slots : List Slot} (hs : slots ∈ slotChoices g.emptyProofs.nilable xs) {ps : Parts}
    {ts : List ParseTree} : Fills (fun p s u => u ∈ x.emptiesAt p s) slots a ps ts ↔
      Fills (fun p s u => DerivesAcyclic g w (nodesOver a b seen) s p p u) slots a ps ts := by
  have hnil := nilable_of_mem_slotChoices hs
  constructor
  · intro h
    apply h.imp
    intro s hs hk p u hu
    exact (derivesAcyclic_nodesOver hab).2 ((mem_emptiesAt hx (hnil s hs hk)).1 hu)
  · intro h
    apply h.imp
    intro s hs hk p u hu
    exact (mem_emptiesAt hx (hnil s hs hk)).2 ((derivesAcyclic_nodesOver hab).1 hu)

/-- Trees of a head over some bytes, below nodes over the same bytes. -/
def HeadDerives (g : Grammar) (w : String) (seen : List Nonterm) (n : Nonterm) (a b : Nat)
    (t : ParseTree) : Prop :=
  ∃ name, n.name? g = some name ∧
    DerivesAcyclic g w (nodesOver a b seen) (.nonterm name) a b t

/-- What a head derives, it derives by a variant. -/
theorem HeadDerives.exists_variant (hx : x.HasEmpties g) (hab : a < b) {n : Nonterm}
    {t : ParseTree} (h : HeadDerives g w seen n a b t) :
    ∃ v ∈ g.variants g.emptyProofs.nilable, v.head = n ∧ ∃ ps,
      PartsDerive g w (nodesOver a b (n :: seen)) v.kept a b ps ∧ t ∈ x.expand v ps a := by
  obtain ⟨name, hname, h⟩ := h
  cases n with
  | start =>
    obtain rfl := Option.some.inj hname
    obtain ⟨v, hv, hlabel, hkept⟩ := Grammar.exists_start_variant g g.emptyProofs.nilable
    refine ⟨v, hv, by rw [Variant.head, hlabel], [⟨t, b⟩], ?_, ?_⟩
    · rw [hkept, nodesOver_start]
      exact .cons hab h .nil
    · simp [Rebuilding.expand, hlabel]
  | source name' =>
    obtain rfl := Option.some.inj hname
    obtain ⟨_, p, hp, rfl, ts, rfl, hts⟩ := derivesAcyclic_nonterm.1 h
    rw [← nodesOver_source] at hts
    obtain ⟨slots, hslots, ps, hps, hfills⟩ := derivesAllAcyclic_iff_slots.1 hts
    have hkept : keptSymbols slots ≠ [] := by
      intro h0
      rw [h0] at hps
      exact hab.ne (partsDerive_nil.1 hps).1
    obtain ⟨v, hv, hlabel, rfl⟩ :=
      Grammar.exists_source_variant hp (Grammar.mem_variantSlots.2 ⟨hslots, hkept⟩)
    refine ⟨v, hv, by rw [Variant.head, hlabel], ps, hps, ?_⟩
    rw [mem_expand hlabel]
    exact ⟨ts, rfl, (fills_emptiesAt_iff hx hab hslots).2 hfills⟩
  | tail _ _ | wrap _ => simp [Nonterm.name?] at hname

/-- The node of a variant is a derivation of its head, if the head does not stand above. -/
theorem headDerives_of_mem_expand (hx : x.HasEmpties g) (hab : a < b) {v : Variant}
    (hv : v ∈ g.variants g.emptyProofs.nilable) (hn : v.head ∉ seen) {ps : Parts} {t : ParseTree}
    (hps : PartsDerive g w (nodesOver a b (v.head :: seen)) v.kept a b ps)
    (ht : t ∈ x.expand v ps a) : HeadDerives g w seen v.head a b t := by
  rcases Grammar.cases_of_mem_variants hv with ⟨hlabel, hkept⟩ | ⟨p, hp, hlabel, hs⟩
  · have hhead : v.head = .start := by rw [Variant.head, hlabel]
    rw [hkept, hhead] at hps
    obtain ⟨u, rfl, -, hu⟩ := partsDerive_singleton.1 hps
    obtain rfl : t = u := by simpa [Rebuilding.expand, hlabel] using ht
    exact ⟨g.start, by rw [hhead]; rfl, hu⟩
  · have hhead : v.head = .source p.lhs := by rw [Variant.head, hlabel]
    rw [hhead] at hn hps ⊢
    obtain ⟨ts, rfl, hfills⟩ := (mem_expand hlabel).1 ht
    obtain ⟨hchoice, -⟩ := Grammar.mem_variantSlots.1 hs
    refine ⟨p.lhs, rfl, .node hp (fun hm => hn (mem_nodesOver.1 hm).1) ?_⟩
    rw [← nodesOver_source]
    exact derivesAllAcyclic_iff_slots.2
      ⟨v.slots, hchoice, ps, hps, (fills_emptiesAt_iff hx hab hchoice).1 hfills⟩

end Nodes
end ContextFree
