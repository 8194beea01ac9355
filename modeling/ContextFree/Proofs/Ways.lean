import ContextFree.Proofs.Contents

/-! Ways. Every way that a chart keeps for a non-terminal goes by a rule of the non-terminal: by a
match, or by two shorter spans that have what the rule pairs. Whatever mode the chart is filled in,
a non-terminal gives lists of as many parts as it stands for symbols. -/
namespace ContextFree

variable {g : Grammar} {s : Scan} {mode : Mode}

/-- What one way gives for a span. -/
def Grammar.follows (g : Grammar) (s : Scan) (mode : Mode) (i l : Nat) (b : Back) : List Parts :=
  (g.rebuilding mode).followBack (g.filled s mode)
    ((g.filled s mode).alternatives (g.rebuilding mode)) i l b

/-- How a way of a non-terminal goes for a span. -/
inductive Goes (g : Grammar) (s : Scan) (mode : Mode) (i l : Nat) (n : Nonterm) : Back → Prop
  /-- The rule has a terminal. -/
  | term {k : Nat} {v : Variant} {t : Terminal} {origin : Origin}
    (hr : ⟨n, .term t.key, origin⟩ ∈ g.analysis.rules) (hv : v ∈ g.ownVariants)
    (ht : .term t ∈ v.kept)
    (hk : g.normalForm.rules[k]? = some (Rule.map g.number g.termNumber ⟨n, .term t.key, origin⟩)) :
    Goes g s mode i l n (.term k)
  /-- The rule has a pair, whose two sides are in the cells of the parts of the span. -/
  | split {k m : Nat} {b c : Nonterm} {origin : Origin} {ys zs : List Symbol}
    (hr : ⟨n, .pair b c, origin⟩ ∈ g.analysis.rules) (hb : Stands g b ys) (hc : Stands g c zs)
    (hk : g.normalForm.rules[k]? = some (Rule.map g.number g.termNumber ⟨n, .pair b c, origin⟩))
    (hm : 1 ≤ m) (hml : m < l)
    (hleft : ((g.filled s mode).cell i m).has (g.number b) = true)
    (hright : ((g.filled s mode).cell (i + m) (l - m)).has (g.number c) = true) :
    Goes g s mode i l n (.split k m)

section Ways
variable {i l : Nat} {n : Nonterm} {xs : List Symbol}

/-- What is found for a span goes by a rule. -/
theorem goes_of_mem_waysOf (hxs : Stands g n xs) {b : Back}
    (hb : b ∈ g.normalForm.waysOf s mode i l (g.number n)) : Goes g s mode i l n b := by
  rcases List.mem_append.1 (NormalForm.mem_waysOf.1 hb) with hway | hway
  · obtain ⟨k, r, t, rfl, hk, hlhs, hbody, -⟩ := NormalForm.mem_termFound.1 hway
    obtain ⟨v, t, origin, hv, ht, rfl, hr, rfl⟩ :=
      exists_termRule (List.mem_of_getElem? hk) hxs hlhs hbody
    exact .term hr hv ht hk
  · obtain ⟨k, r, m, d, e, rfl, hm, hml, hk, hlhs, hbody, hd, he⟩ :=
      NormalForm.mem_splitFound.1 hway
    obtain ⟨b, c, origin, ys, zs, hb, hc, rfl, rfl, hr, rfl⟩ :=
      exists_pairRule (List.mem_of_getElem? hk) hxs hlhs hbody
    exact .split hr hb hc hk hm hml hd he

/-- The ways in a cell are among those that are found. -/
theorem mem_waysOf_of_mem_backs (hl : 1 ≤ l) (h : i + l ≤ s.bounds.length - 1) {a : Nat} {b : Back}
    (hb : b ∈ ((g.filled s mode).cell i l).backs a) : b ∈ g.normalForm.waysOf s mode i l a := by
  rw [Grammar.filled, NormalForm.backs_fill hl h] at hb
  split at hb
  · exact hb
  · exact List.mem_of_mem_take hb

/-- What a non-terminal gives, by its ways. -/
theorem gives_eq (hl : 1 ≤ l) (h : i + l ≤ s.bounds.length - 1) (n : Nonterm) :
    g.gives s mode i l n = distinctParts
      ((((g.filled s mode).cell i l).backs (g.number n)).flatMap (g.follows s mode i l)) :=
  NormalForm.alternatives_fill hl h

theorem mem_gives_iff_follows (hl : 1 ≤ l) (h : i + l ≤ s.bounds.length - 1) {ps : Parts} :
    ps ∈ g.gives s mode i l n ↔ ∃ b ∈ ((g.filled s mode).cell i l).backs (g.number n),
      ps ∈ g.follows s mode i l b := by
  rw [gives_eq hl h, mem_distinctParts, List.mem_flatMap]

/-- What a split gives. -/
theorem follows_split {k m : Nat} {b c : Nonterm} {origin : Origin}
    (hk : g.normalForm.rules[k]? = some (Rule.map g.number g.termNumber ⟨n, .pair b c, origin⟩)) :
    g.follows s mode i l (.split k m) = (g.gives s mode i m b).flatMap fun left =>
      (g.gives s mode (i + m) (l - m) c).flatMap fun right =>
        (g.rebuilding mode).produce k (left ++ right) ((g.filled s mode).span i l).start := by
  simp only [Grammar.follows, Rebuilding.followBack, rules_rebuilding, hk, Option.map_some,
    Rule.map]
  rfl

end Ways

theorem Stands.length_unique {n : Nonterm} {xs ys : List Symbol} (h : Stands g n xs)
    (h' : Stands g n ys) : xs.length = ys.length := by
  cases h with
  | start => cases h'; rfl
  | source _ => cases h'; rfl
  | wrap _ _ _ => generalize hm : Nonterm.wrap _ = m at h'; cases h' <;> simp_all
  | @tail v k hv _ _ =>
    generalize hm : Nonterm.tail v.number k = m at h'
    cases h' with
    | tail hv' _ _ =>
      obtain ⟨hnumber, rfl⟩ := Nonterm.tail.inj hm
      rw [Grammar.eq_of_number_eq hv hv' hnumber]
    | start | source _ | wrap _ _ _ => simp at hm

theorem BodyStands.length_unique {body : Body Nonterm Terminal.Key} {xs ys : List Symbol}
    (h : BodyStands g body xs) (h' : BodyStands g body ys) : xs.length = ys.length := by
  cases h with
  | @term v t hv ht =>
    generalize hk : Body.term t.key = b at h'
    cases h' with
    | term _ _ => rfl
    | pair _ _ => simp at hk
  | pair hb hc =>
    cases h' with
    | pair hb' hc' =>
      rw [List.length_append, List.length_append, hb.length_unique hb', hc.length_unique hc']

/-- What a rule makes of as many parts as its right-hand side stands for is as long as the list of
symbols that the rule expands. -/
theorem length_of_mem_produce {r : NamedRule} (hr : r ∈ g.analysis.rules) {xs zs : List Symbol}
    (hxs : Stands g r.lhs xs) (hzs : BodyStands g r.body zs) {k a : Nat} {f : Nonterm → Nat}
    {f' : Terminal.Key → Nat} (hk : g.normalForm.rules[k]? = some (r.map f f')) {qs ps : Parts}
    (hlen : qs.length = zs.length) (hps : ps ∈ (g.rebuilding mode).produce k qs a) :
    ps.length = xs.length := by
  have hrule : (g.rebuilding mode).rules k = some (r.map f f') := (rules_rebuilding k).trans hk
  cases comes_of_mem_rules hr with
  | supports h =>
    obtain ⟨us, hlhs, hbody⟩ := h.expands
    rw [produce_plain hrule h.origin_ne, List.mem_singleton] at hps
    rw [hps, hlen, hzs.length_unique hbody, hxs.length_unique hlhs]
  | derived horigin hhead _ _ _ _ =>
    obtain ⟨name, -, hlhs⟩ := stands_head hhead
    obtain ⟨_, _, _, _, _, _, rfl⟩ := (mem_produce_derived hrule horigin).1 hps
    rw [hxs.length_unique hlhs]
    rfl

/-- The induction is on the length of the span. -/
theorem length_of_mem_gives (l : Nat) : ∀ {i : Nat} {n : Nonterm} {xs : List Symbol}, 1 ≤ l →
    i + l ≤ s.bounds.length - 1 → Stands g n xs →
    ∀ ps ∈ g.gives s mode i l n, ps.length = xs.length := by
  induction l using Nat.strongRecOn with
  | ind l ih =>
    intro i n xs hl h hxs ps hps
    obtain ⟨b, hb, hps⟩ := (mem_gives_iff_follows hl h).1 hps
    cases goes_of_mem_waysOf hxs (mem_waysOf_of_mem_backs hl h hb) with
    | term hr hv ht hk => exact length_of_mem_produce hr hxs (.term hv ht) hk rfl hps
    | @split k m c d origin ys zs hr hc hd hk hm hml _ _ =>
      rw [follows_split hk] at hps
      obtain ⟨left, hleft, hps⟩ := List.mem_flatMap.1 hps
      obtain ⟨right, hright, hps⟩ := List.mem_flatMap.1 hps
      have hleft := ih m hml hm (by omega) hc left hleft
      have hright := ih (l - m) (by omega) (by omega) (by omega) hd right hright
      exact length_of_mem_produce hr hxs (.pair hc hd) hk (by simp [hleft, hright]) hps

end ContextFree
