import ContextFree.Proofs.Forest

/-! Shapes of parts. What a chart gives for a span lies side by side, in either mode and whatever
the matchers do: each part takes some characters, its leaves go from the stop of the part before to
its own, and the last stop is the end of the span. How many parts there are the non-terminal
tells. -/
namespace ContextFree

variable {g : Grammar} {w : String} {s : Scan} {mode : Mode}

section Tiles
variable {a : Nat}

theorem tiles_flatMap {α : Type} {f : α → List Span} {l : List α} (ha : a ∈ Text.bounds w)
    (h : ∀ x ∈ l, Tiles w a a (f x)) : Tiles w a a (l.flatMap f) := by
  induction l with
  | nil => exact .nil ha
  | cons x l ih => exact (h x (.head _)).append (ih fun y hy => h y (.tail _ hy))

/-- The leaves of an empty tree stand all at its place. -/
theorem EmptyTree.tiles_place (ha : a ∈ Text.bounds w) (t : EmptyTree) :
    Tiles w a a (t.place a).leaves := by
  induction t using SyntaxTree.induction with
  | leaf _ => exact .cons ha (Nat.le_refl a) (.nil ha)
  | node k ts ih =>
    rw [place_node, SyntaxTree.leaves_node, List.flatMap_map]
    exact tiles_flatMap ha ih

theorem Rebuilding.tiles_emptiesAt {x : Rebuilding} (ha : a ∈ Text.bounds w) {y : Symbol}
    {t : ParseTree} (ht : t ∈ x.emptiesAt a y) : Tiles w a a t.leaves := by
  cases y with
  | term _ =>
    obtain rfl := List.mem_singleton.1 ht
    exact .cons ha (Nat.le_refl a) (.nil ha)
  | nonterm name =>
    obtain ⟨e, -, rfl⟩ := List.mem_map.1 ht
    exact e.tiles_place ha

end Tiles

/-- Parts that lie side by side between two offsets, some bytes each. -/
inductive PartsTile (w : String) : Nat → Nat → Parts → Prop
  | nil {a : Nat} (ha : a ∈ Text.bounds w) : PartsTile w a a []
  | cons {a b c : Nat} {t : ParseTree} {ps : Parts} (hab : a < b) (ht : Tiles w a b t.leaves)
    (hs : PartsTile w b c ps) : PartsTile w a c (⟨t, b⟩ :: ps)

namespace PartsTile
variable {a b c : Nat} {ps qs : Parts} {t : ParseTree}

theorem single (hab : a < b) (ht : Tiles w a b t.leaves) : PartsTile w a b [⟨t, b⟩] :=
  .cons hab ht (.nil ht.stop_mem)

theorem append (hp : PartsTile w a b ps) (hq : PartsTile w b c qs) :
    PartsTile w a c (ps ++ qs) := by
  induction hp with
  | nil _ => exact hq
  | cons hab ht _ ih => exact .cons hab ht (ih hq)

theorem start_mem (h : PartsTile w a b ps) : a ∈ Text.bounds w := by
  cases h with
  | nil ha => exact ha
  | cons _ ht _ => exact ht.start_mem

theorem le (h : PartsTile w a b ps) : a ≤ b := by
  induction h with
  | nil _ => exact Nat.le_refl _
  | cons hab _ _ ih => omega

theorem lt (h : PartsTile w a b ps) (hps : ps ≠ []) : a < b := by
  cases h with
  | nil _ => exact (hps rfl).elim
  | cons hab _ hs => exact hab.trans_le hs.le

/-- The last part stops where all of them do. -/
theorem stop_eq (h : PartsTile w a b ps) : (ps.getLast?.map (·.stop)).getD a = b := by
  induction h with
  | nil _ => rfl
  | cons _ _ _ ih => rw [lastStop_cons, ih]

/-- Every stop lies behind the start, and before all later ones. -/
theorem pairwise_stops (h : PartsTile w a b ps) : (a :: ps.map (·.stop)).Pairwise (· < ·) := by
  induction h with
  | nil _ => exact List.pairwise_singleton _ _
  | cons hab _ _ ih =>
    refine List.pairwise_cons.2 ⟨List.forall_mem_cons.2 ⟨hab, fun c hc => ?_⟩, ih⟩
    exact hab.trans ((List.pairwise_cons.1 ih).1 c hc)

theorem mem_bounds (h : PartsTile w a b ps) : ∀ part ∈ ps, part.stop ∈ Text.bounds w := by
  induction h with
  | nil _ => simp
  | cons _ ht _ ih => exact List.forall_mem_cons.2 ⟨ht.stop_mem, ih⟩

/-- The leaves of a part go from the stop before to its own. -/
theorem tiles_getElem? (h : PartsTile w a b ps) : ∀ {k c : Nat} {part : Part},
    (a :: ps.map (·.stop))[k]? = some c → ps[k]? = some part →
      Tiles w c part.stop part.tree.leaves := by
  induction h with
  | nil _ => simp
  | cons _ ht _ ih =>
    intro k c part hc hpart
    cases k with
    | zero =>
      obtain rfl := Option.some.inj hc
      obtain rfl := Option.some.inj hpart
      exact ht
    | succ k => exact ih hc hpart

end PartsTile

/-- The shape of what is given for a span: so many parts, which stop at boundaries behind its start,
one after the other up to its end, each with leaves from the stop before to its own. -/
structure Shaped (w : String) (start stop count : Nat) (ps : Parts) : Prop where
  length_eq : ps.length = count
  increasing : (start :: ps.map (·.stop)).Pairwise (· < ·)
  mem_bounds : ∀ part ∈ ps, part.stop ∈ Text.bounds w
  last : ps.getLast?.map (·.stop) = some stop
  tiles : ∀ (k before : Nat) (part : Part), (start :: ps.map (·.stop))[k]? = some before →
    ps[k]? = some part → Tiles w before part.stop part.tree.leaves

theorem PartsTile.shaped {a b : Nat} {ps : Parts} (h : PartsTile w a b ps) (hps : ps ≠ []) :
    Shaped w a b ps.length ps where
  length_eq := rfl
  increasing := h.pairwise_stops
  mem_bounds := h.mem_bounds
  last := by
    have hstop := h.stop_eq
    rw [List.getLast?_eq_getLast_of_ne_nil hps] at hstop ⊢
    exact congrArg some hstop
  tiles _ _ _ := h.tiles_getElem?

section Rebuilding
variable {x : Rebuilding} {a b : Nat} {ps qs : Parts} {t t' : ParseTree}

/-- The parts of a variant and the empty trees between them lie side by side. -/
theorem Fills.tiles {slots : List Slot} {ts : List ParseTree}
    (h : Fills (fun p y t => t ∈ x.emptiesAt p y) slots a ps ts)
    (hlen : ps.length = (keptSymbols slots).length) (hps : PartsTile w a b ps) :
    Tiles w a b (ts.flatMap SyntaxTree.leaves) := by
  induction h with
  | nil =>
    obtain rfl := List.length_eq_zero_iff.1 hlen
    cases hps with
    | nil ha => exact .nil ha
  | drop ht _ ih =>
    exact (Rebuilding.tiles_emptiesAt hps.start_mem ht).append (ih (by simpa using hlen) hps)
  | keep _ ih =>
    cases hps with
    | cons _ ht hs => exact ht.append (ih (by simpa using hlen) hs)

theorem tiles_of_mem_expand {v : Variant} (hv : v ∈ g.ownVariants)
    (hlen : ps.length = v.kept.length) (hps : PartsTile w a b ps) (ht : t ∈ x.expand v ps a) :
    Tiles w a b t.leaves := by
  rcases Grammar.cases_of_mem_variants hv with ⟨hlabel, hkept⟩ | ⟨p, -, hlabel, -⟩
  · rw [hkept] at hlen
    obtain ⟨part, rfl⟩ := List.length_eq_one_iff.1 hlen
    rw [Rebuilding.expand, hlabel] at ht
    obtain rfl : t = part.tree := by simpa using ht
    cases hps with
    | cons _ hpart hs =>
      cases hs
      exact hpart
  · rw [Rebuilding.expand, hlabel] at ht
    obtain ⟨ts, hts, rfl⟩ := List.mem_map.1 ht
    rw [SyntaxTree.leaves_node]
    exact (mem_picks_fillSlots.1 hts).tiles hlen hps

/-- Nodes around a tree keep its place: unit variants drop all but the tree. -/
theorem tiles_of_mem_wrapUnits {n m : Nonterm} {route : Route} {stops : List Nonterm}
    (h : Travels g.ownVariants n route stops m) (hab : a < b) (ht : Tiles w a b t.leaves)
    (ht' : t' ∈ x.wrapUnits a b route t) : Tiles w a b t'.leaves := by
  induction h generalizing t' with
  | nil => exact List.mem_singleton.1 ht' ▸ ht
  | cons hu _ hc _ ih =>
    obtain ⟨name, hkept, -⟩ := Variant.unitTarget?_eq_some.1 hc
    obtain ⟨t, ht, ht'⟩ := List.mem_flatMap.1 ht'
    exact tiles_of_mem_expand hu (by simp [hkept]) (.single hab (ih ht)) ht'

/-- What a rule makes of parts takes the place of these parts. -/
theorem partsTile_of_mem_produce {r : NamedRule} (hr : r ∈ g.analysis.rules) {zs : List Symbol}
    (hzs : BodyStands g r.body zs) {k : Nat} {f : Nonterm → Nat} {f' : Terminal.Key → Nat}
    (hk : g.normalForm.rules[k]? = some (r.map f f')) (hlen : qs.length = zs.length)
    (hqs : PartsTile w a b qs) (hps : ps ∈ (g.rebuilding mode).produce k qs a) :
    PartsTile w a b ps := by
  have hrule : (g.rebuilding mode).rules k = some (r.map f f') := (rules_rebuilding k).trans hk
  cases comes_of_mem_rules hr with
  | supports h =>
    rw [produce_plain hrule h.origin_ne] at hps
    exact List.mem_singleton.1 hps ▸ hqs
  | derived ho _ hroute hv _ hstands =>
    obtain ⟨route, hmem, t', ht', t, ht, rfl⟩ := (mem_produce_derived hrule ho).1 hps
    rw [routes_rebuilding hk] at hmem
    obtain ⟨stops, htravel, -⟩ := simpleRoute_of_mem_routes ho hroute hmem
    have hlen : qs.length = _ := hlen.trans (hzs.length_unique hstands)
    have hab : a < b := hqs.lt fun h => Grammar.kept_ne_nil hv (List.length_eq_zero_iff.1 (by
      rw [← hlen, h, List.length_nil]))
    rw [hqs.stop_eq] at ht ⊢
    exact .single hab (tiles_of_mem_wrapUnits htravel hab (tiles_of_mem_expand hv hlen hqs ht') ht)

end Rebuilding

/-- The induction is on the length of the span: a match is one leaf, and a pair joins what it gives
for two shorter spans. -/
theorem partsTile_of_mem_gives [Pattern.Engine] (hs : g.normalForm.Scans w s) (l : Nat) :
    ∀ {i p q : Nat} {n : Nonterm} {xs : List Symbol} {ps : Parts}, 1 ≤ l →
      (Text.bounds w)[i]? = some p → (Text.bounds w)[i + l]? = some q → Stands g n xs →
      ps ∈ g.gives s mode i l n → PartsTile w p q ps := by
  induction l using Nat.strongRecOn with
  | ind l ih =>
    intro i p q n xs ps hl hp hq hxs hps
    have h := le_length hs hq
    have hpq := Text.lt_of_bounds_lt hp hq (by omega)
    have hspan := span_fill hs mode hp hq
    obtain ⟨b, hb, hps⟩ := (mem_gives_iff_follows hl h).1 hps
    cases goes_of_mem_waysOf hxs (mem_waysOf_of_mem_backs hl h hb) with
    | term hr hv ht hk =>
      rw [Grammar.follows, Rebuilding.followBack, hspan] at hps
      have hleaf : Tiles w p q (SyntaxTree.leaf ⟨p, q⟩ : ParseTree).leaves :=
        .cons (List.mem_of_getElem? hp) hpq.le (.nil (List.mem_of_getElem? hq))
      exact partsTile_of_mem_produce hr (.term hv ht) hk rfl (.single hpq hleaf) hps
    | @split k m c d origin ys zs hr hc hd hk hm hml _ _ =>
      rw [follows_split hk, hspan] at hps
      obtain ⟨left, hleft, hps⟩ := List.mem_flatMap.1 hps
      obtain ⟨right, hright, hps⟩ := List.mem_flatMap.1 hps
      have hlenl := length_of_mem_gives m hm (by omega) hc left hleft
      have hlenr := length_of_mem_gives (l - m) (by omega) (by omega) hd right hright
      obtain ⟨o, ho, hq'⟩ := exists_middle hq hml
      have hleft := ih m hml hm hp ho hc hleft
      have hright := ih (l - m) (by omega) (by omega) ho hq' hd hright
      exact partsTile_of_mem_produce hr (.pair hc hd) hk (by simp [hlenl, hlenr])
        (hleft.append hright) hps

/-- How many parts a non-terminal gives: what its variant keeps from a position on for a tail, and
one for all others. -/
def Grammar.partCount (g : Grammar) : Nonterm → Nat
  | .tail variant position => ((g.ownVariants[variant]?.map (·.kept.length)).getD 0) - position
  | .start | .source _ | .wrap _ => 1

theorem Grammar.getElem?_ownVariants {v : Variant} (hv : v ∈ g.ownVariants) :
    g.ownVariants[v.number]? = some v := by
  have h := mem_variants.1 hv
  change ((g.unnumbered g.emptyProofs.nilable).zipIdx.map fun e => ⟨e.2, e.1.1, e.1.2⟩)[v.number]?
    = some v
  rw [List.getElem?_map, List.getElem?_zipIdx, h]
  simp

theorem Stands.length_eq {n : Nonterm} {xs : List Symbol} (h : Stands g n xs) :
    xs.length = g.partCount n := by
  cases h with
  | tail hv _ _ => simp [Grammar.partCount, Grammar.getElem?_ownVariants hv]
  | start | source _ | wrap _ _ _ => rfl

theorem shaped_of_mem_gives [Pattern.Engine] (hs : g.normalForm.Scans w s) {i l p q : Nat}
    {n : Nonterm} {xs : List Symbol} {ps : Parts} (hl : 1 ≤ l) (hp : (Text.bounds w)[i]? = some p)
    (hq : (Text.bounds w)[i + l]? = some q) (hxs : Stands g n xs)
    (hps : ps ∈ g.gives s mode i l n) : Shaped w p q (g.partCount n) ps := by
  have hlen := length_of_mem_gives l hl (le_length hs hq) hxs ps hps
  have hne : ps ≠ [] := by
    rintro rfl
    exact hxs.ne_nil (List.length_eq_zero_iff.1 hlen.symm)
  rw [← hxs.length_eq, ← hlen]
  exact (partsTile_of_mem_gives hs l hl hp hq hxs hps).shaped hne

/-- In each mode a non-terminal gives something if it is in the cell of the span, and in first mode
it then gives one thing. -/
theorem gives_of_has {i l : Nat} {n : Nonterm} {xs : List Symbol} (hl : 1 ≤ l)
    (h : i + l ≤ s.bounds.length - 1) (hxs : Stands g n xs)
    (hhas : ((g.filled s mode).cell i l).has (g.number n) = true) :
    g.gives s mode i l n ≠ [] ∧ (mode = .first → (g.gives s mode i l n).length = 1) := by
  have hfirst : ((g.filled s .first).cell i l).has (g.number n) = true := by
    rw [Grammar.filled, NormalForm.has_fill_iff hl h, NormalForm.waysOf_mode mode hl h,
      ← NormalForm.has_fill_iff hl h]
    exact hhas
  obtain ⟨ps, rest, hone, hall⟩ := leads_alternatives l hl h hxs hfirst
  cases mode with
  | first => simp [hone]
  | exhaustive => simp [hall]

/-- Whatever a chart gives for a span has the shape that span and non-terminal demand. Nothing is
given twice, something is given just if the non-terminal is in the cell of the span, and in first
mode it is one thing then. -/
theorem alternatives_shape [Pattern.Engine] {c : Chart} (hc : g.parser.chart w mode = .ok c)
    {i l : Nat} (hl : 1 ≤ l) (h : i + l ≤ c.length) {a : Nat} {n : Nonterm}
    (hn : g.normalForm.nonterms[a]? = some n) :
    (∃ p q, c.bounds[i]? = some p ∧ c.bounds[i + l]? = some q ∧
      ∀ ps ∈ c.alternatives (g.rebuilding mode) i l a, Shaped w p q (g.partCount n) ps) ∧
    (c.alternatives (g.rebuilding mode) i l a).Nodup ∧
    (c.alternatives (g.rebuilding mode) i l a ≠ [] ↔ (c.cell i l).has a = true) ∧
    (mode = .first → (c.cell i l).has a = true →
      (c.alternatives (g.rebuilding mode) i l a).length = 1) := by
  cases hscan : g.normalForm.scan w with
  | error f =>
    rw [chart_eq_error hscan] at hc
    simp at hc
  | ok s =>
    obtain rfl := Except.ok.inj ((chart_eq hscan mode).symm.trans hc)
    have hs := NormalForm.scans_of_scan hscan
    obtain ⟨xs, hxs⟩ := exists_stands (List.mem_of_getElem? (Array.getElem?_toList ▸ hn))
    obtain rfl := hxs.eq_number hn
    change i + l ≤ s.bounds.length - 1 at h
    obtain ⟨p, hp⟩ : ∃ p, s.bounds[i]? = some p :=
      ⟨_, List.getElem?_eq_getElem (show i < s.bounds.length by omega)⟩
    obtain ⟨q, hq⟩ : ∃ q, s.bounds[i + l]? = some q :=
      ⟨_, List.getElem?_eq_getElem (show i + l < s.bounds.length by omega)⟩
    refine ⟨⟨p, q, hp, hq, fun ps hps => ?_⟩, ?_, ?_, fun hmode hhas => ?_⟩
    · rw [hs.bounds_eq] at hp hq
      exact shaped_of_mem_gives hs hl hp hq hxs hps
    · change (g.gives s mode i l n).Nodup
      rw [gives_eq hl h]
      exact nodup_distinctParts _
    · constructor
      · intro hne
        obtain ⟨ps, hps⟩ := List.exists_mem_of_ne_nil _ hne
        exact NormalForm.has_of_mem_alternatives hl h hps
      · exact fun hhas => (gives_of_has hl h hxs hhas).1
    · exact (gives_of_has hl h hxs hhas).2 hmode

theorem alternatives_shape_twoDigits : ∃ c, numerals.parser.chart "42" .exhaustive = .ok c ∧
    0 + 2 ≤ c.length ∧ numerals.normalForm.nonterms[0]? = some .start ∧
    [⟨twoDigits, 2⟩] ∈ c.alternatives (numerals.rebuilding .exhaustive) 0 2 0 ∧
    Shaped "42" 0 2 1 [⟨twoDigits, 2⟩] ∧ (c.cell 0 2).has 0 = true := by
  obtain ⟨s, hscan, hs⟩ := (answers_numerals "42").exists_scan
  have hstart : numerals.normalForm.nonterms[0]? = some .start := by
    have h := (Stands.start (g := numerals)).getElem?_number
    rwa [Grammar.number_start] at h
  have hbounds : Text.bounds "42" = [0, 1, 2] := by decide +kernel
  have hfilled : (numerals.filled s .exhaustive).bounds = [0, 1, 2] := hs.bounds_eq.trans hbounds
  have hlen : 0 + 2 ≤ (numerals.filled s .exhaustive).length := by
    rw [length_filled hs]
    decide +kernel
  have hgiven : [⟨twoDigits, 2⟩] ∈ numerals.gives s .exhaustive 0 2 .start := by
    refine (mem_gives_start coherent_numerals hs (by decide) (p := 0) (by simp [hbounds])
      (by simp [hbounds]) _).2 ⟨twoDigits, rfl, ?_⟩
    exact derives_twoDigits
  rw [Grammar.gives, Grammar.number_start] at hgiven
  obtain ⟨⟨p, q, hp, hq, hshaped⟩, -, hhas, -⟩ :=
    alternatives_shape (chart_eq hscan .exhaustive) (by decide) hlen hstart
  obtain rfl : 0 = p := by simpa [hfilled] using hp
  obtain rfl : 2 = q := by simpa [hfilled] using hq
  exact ⟨_, chart_eq hscan .exhaustive, hlen, hstart, hgiven, hshaped _ hgiven,
    hhas.1 (List.ne_nil_of_mem hgiven)⟩

end ContextFree
