import ContextFree.Proofs.Inclusion

/-! Correspondence. If a grammar is included in another, every non-terminal that its normal form
reaches has a counterpart that stands for the same symbols, under whatever number. So the parts of a
word that non-terminals derive by the one normal form are derived by the other. -/
namespace ContextFree
open ContextFreeGrammar (Phrase Spells)

section Pairs
variable {g : Grammar} {v : Variant} {r : NamedRule} {xs : List Symbol}

/-- A pair splits off one symbol, and the isolated start is in none. -/
def Body.Chains : Body Nonterm Terminal.Key → Prop
  | term _ => True
  | pair b c => (∃ x, b = .ofSymbol x) ∧ c ≠ .start

theorem ofSymbol_ne_start (x : Symbol) : Nonterm.ofSymbol x ≠ .start := by
  cases x <;> simp [Nonterm.ofSymbol]

theorem chains_of_mem_wrapRules (hr : r ∈ wrapRules xs) : r.body.Chains := by
  obtain ⟨t, -, rfl⟩ := mem_wrapRules.1 hr
  trivial

theorem chains_of_mem_tailRules (number k : Nat) (hr : r ∈ tailRules number k xs) :
    r.body.Chains := by
  induction k, xs using tailRules.induct with
  | case1 k x y z xs ih =>
    rw [tailRules, List.mem_append, List.mem_cons] at hr
    rcases hr with hr | rfl | hr
    · exact chains_of_mem_wrapRules hr
    · exact ⟨⟨x, rfl⟩, by simp⟩
    · exact ih hr
  | case2 k x y =>
    rw [tailRules, List.mem_append, List.mem_singleton] at hr
    rcases hr with hr | rfl
    · exact chains_of_mem_wrapRules hr
    · exact ⟨⟨x, rfl⟩, ofSymbol_ne_start y⟩
  | case3 xs k => simp [tailRules] at hr

theorem chains_of_mem_support (hr : r ∈ v.support) : r.body.Chains := by
  rw [Variant.support] at hr
  split at hr
  · simp at hr
  · simp at hr
  · exact chains_of_mem_wrapRules hr
  · rcases List.mem_append.1 hr with hr | hr
    · exact chains_of_mem_wrapRules hr
    · exact chains_of_mem_tailRules _ _ hr

theorem chains_of_body? {b : Body Nonterm Terminal.Key} (hb : v.body? = some b) : b.Chains := by
  rw [Variant.body?] at hb
  split at hb
  · simp at hb
  · simp at hb
  · obtain rfl := Option.some.inj hb
    trivial
  · rename_i x y _
    obtain rfl := Option.some.inj hb
    exact ⟨⟨x, rfl⟩, ofSymbol_ne_start y⟩
  · rename_i x _ _ _ _ _
    obtain rfl := Option.some.inj hb
    exact ⟨⟨x, rfl⟩, by simp⟩

theorem chains_of_mem_rules (hr : r ∈ g.analysis.rules) : r.body.Chains := by
  rw [Grammar.Analysis.rules, Register.toList_ofList] at hr
  obtain ⟨e, -, hr⟩ := List.mem_flatMap.1 ((distinctBy_sublist _ _).subset hr)
  rcases List.mem_append.1 hr with hr | hr
  · exact chains_of_mem_support hr
  · obtain ⟨b, hb, rfl⟩ := Option.map_eq_some_iff.1 (Option.mem_toList.1 hr)
    exact chains_of_body? hb

theorem Stands.length_of_ofSymbol {x : Symbol} (h : Stands g (.ofSymbol x) xs) :
    xs.length = 1 := by
  cases x with
  | nonterm name => cases h; rfl
  | term t =>
    generalize hn : Nonterm.ofSymbol (.term t) = n at h
    cases h with
    | wrap _ _ _ => rfl
    | start | source _ | tail _ _ _ => simp [Nonterm.ofSymbol] at hn

/-- A rule for several symbols pairs the first of them with the others. -/
theorem exists_pair (hr : r ∈ g.analysis.rules) {x : Symbol} (hxs : xs ≠ [])
    (hbody : BodyStands g r.body (x :: xs)) : ∃ b c, r.body = .pair b c ∧ Stands g b [x] ∧
      Stands g c xs ∧ b ≠ .start ∧ c ≠ .start := by
  have hchains := chains_of_mem_rules hr
  generalize hb : r.body = body at hbody hchains
  generalize hsymbols : x :: xs = zs at hbody
  cases hbody with
  | term _ _ => exact (hxs (List.cons.inj hsymbols).2).elim
  | @pair b c ys us hys hus =>
    obtain ⟨⟨y, rfl⟩, hc⟩ := hchains
    obtain ⟨y', rfl⟩ := List.length_eq_one_iff.1 hys.length_of_ofSymbol
    obtain ⟨rfl, rfl⟩ := List.cons.inj hsymbols
    exact ⟨_, c, rfl, hys, hus, ofSymbol_ne_start y, hc⟩

end Pairs

/-- A rule with a pair is one for several symbols. -/
theorem exists_bodyStands_cons {g : Grammar} {r : NamedRule} (hr : r ∈ g.analysis.rules)
    {b c : Nonterm} (hbody : r.body = .pair b c) :
    ∃ x xs, xs ≠ [] ∧ BodyStands g r.body (x :: xs) := by
  obtain ⟨zs, hzs⟩ := exists_bodyStands hr
  rw [hbody] at hzs ⊢
  cases hzs with
  | @pair _ _ ys us hys hus =>
    obtain ⟨x, ys, rfl⟩ := List.exists_cons_of_ne_nil hys.ne_nil
    exact ⟨x, ys ++ us, by simp [hus.ne_nil], .pair hys hus⟩

section Reaches
variable {g : Grammar} {n b c : Nonterm} {xs ys : List Symbol}

/-- The symbols that a reached non-terminal of use stands for spell a sentence. -/
theorem exists_spells_of_reaches (hxs : Stands g n xs)
    (hgen : Generating g.numberedRules (g.number n)) (hreach : g.Reaches n) :
    ∃ ks, Spells g.variantRules (phrase xs) ks := by
  obtain ⟨ks, hks⟩ := exists_spells_of_generating hgen hreach
  have h := spells_of_normalForm hks [(n, xs)] (by simp [hxs]) rfl
  exact ⟨ks, by simpa using h⟩

/-- If both sides of a pair spell something, the start reaches them by it. -/
theorem reaches_of_pair {r : NamedRule} (hr : r ∈ g.analysis.rules) (hreach : g.Reaches r.lhs)
    (hbody : r.body = .pair b c) (hb : Stands g b xs) (hc : Stands g c ys)
    (hxs : ∃ ks, Spells g.variantRules (phrase xs) ks)
    (hys : ∃ ks, Spells g.variantRules (phrase ys) ks) : g.Reaches b ∧ g.Reaches c := by
  obtain ⟨ks, hks⟩ := hxs
  obtain ⟨ls, hls⟩ := hys
  have hrefs := Rule.references_map_of_pair hbody g.number g.termNumber
  have hgen : ∀ m ∈ (r.map g.number g.termNumber).references, Generating g.numberedRules m := by
    simp [hrefs, (spells_of_variants _ rfl hb hks).1, (spells_of_variants _ rfl hc hls).1]
  exact ⟨reached_reference hr hgen hreach (by simp [hrefs]),
    reached_reference hr hgen hreach (by simp [hrefs])⟩

end Reaches

/-- A non-terminal that stands for symbols has a counterpart in another grammar, which is reached
and stands for the same symbols. The isolated starts are each other's counterparts. -/
structure Grammar.Meets (g h : Grammar) (n : Nonterm) (xs : List Symbol) : Prop where
  accessible : ∀ x ∈ xs, g.AccessibleSymbol x
  exists_reached : ∃ m, h.Reaches m ∧ Stands h m xs ∧ (m = .start ↔ n = .start)

/-- The counterpart of a head is the head itself. -/
theorem counterpart_of_head {g h : Grammar} {n m : Nonterm} {name : String} (hn : n ∈ g.heads)
    (hname : n.name? g = some name) (hm : Stands h m [.nonterm name])
    (hstart : m = .start ↔ n = .start) : m = n ∧ m ∈ h.heads := by
  generalize hsymbols : [Symbol.nonterm name] = xs at hm
  cases hm with
  | start => exact ⟨(hstart.1 rfl).symm, Grammar.mem_heads.2 (.inl rfl)⟩
  | source hhead =>
    obtain rfl := Symbol.nonterm.inj (List.cons.inj hsymbols).1
    refine ⟨?_, hhead⟩
    rcases Grammar.mem_heads.1 hn with rfl | ⟨p, -, rfl⟩
    · exact hstart.2 rfl
    · rw [Option.some.inj hname]
  | tail _ _ hlen =>
    have := congrArg List.length hsymbols
    rw [List.length_drop, List.length_singleton] at this
    omega
  | wrap _ _ _ => simp at hsymbols

section Meets
variable {g h : Grammar} (hgh : g.Included h) (hg : g.Coherent) (hh : h.Coherent)
  {n b c : Nonterm} {x : Symbol} {xs ys : List Symbol} {r : NamedRule}
include hgh hg hh

/-- What a rule pairs, a rule of the counterpart pairs. -/
theorem exists_rule_of_meets (hr : r ∈ g.analysis.rules) (hys : Stands g r.lhs ys)
    (hmeets : g.Meets h r.lhs ys) (hbody : BodyStands g r.body (x :: xs)) (hxs : xs ≠ []) :
    (∀ y ∈ x :: xs, g.AccessibleSymbol y) ∧ ∃ r' ∈ h.analysis.rules, h.Reaches r'.lhs ∧
      BodyStands h r'.body (x :: xs) := by
  obtain ⟨haccessible, m, hreach, hm, hstart⟩ := hmeets
  cases comes_of_mem_rules hr with
  | supports hsup =>
    obtain ⟨zs, hlhs, hzs⟩ := hsup.expands
    obtain rfl := hys.unique hg hlhs
    obtain rfl := hbody.unique hg hzs
    refine ⟨haccessible, ?_⟩
    rcases exists_rule_of_stands hm with hhead | ⟨r', hr', rfl, hsup'⟩
    · obtain ⟨name, -, hname⟩ := stands_head hhead
      have hlen := hm.length_unique hname
      simp [hxs] at hlen
    · obtain ⟨us, hus, hbody'⟩ := hsup'.expands
      obtain rfl := hm.unique hh hus
      exact ⟨r', hr', hreach, hbody'⟩
  | @derived units v horigin hhead hroute hv hunit hkept =>
    obtain ⟨name, hname, hlhs⟩ := stands_head hhead
    obtain rfl := hys.unique hg hlhs
    have hkept : v.kept = x :: xs := hkept.unique hg hbody
    have hlhs : g.AccessibleHead r.lhs := by
      intro name' hname'
      obtain rfl := Option.some.inj (hname.symm.trans hname')
      exact haccessible _ (.head _)
    obtain ⟨stops, htravel, -⟩ := hroute
    have hvhead := accessibleHead_of_travels htravel hlhs
    refine ⟨hkept ▸ accessible_of_mem_kept hv hvhead, ?_⟩
    obtain ⟨rfl, hmhead⟩ := counterpart_of_head hhead hname hm hstart
    obtain ⟨v', hv', hhead', hkept'⟩ := hgh.exists_variant hv hvhead
    obtain ⟨route', stops', htravel'⟩ := hgh.travels htravel hlhs
    rw [hkept] at hkept'
    have hunit' : v'.unitTarget? = none :=
      Variant.unitTarget?_eq_none.2 fun name hk => hxs (List.cons.inj (hkept'.symm.trans hk)).2
    obtain ⟨r', hr', hlhs', hbody'⟩ := exists_rule_of_travels hmhead hv' hunit' (hhead' ▸ htravel')
    exact ⟨r', hr', hlhs' ▸ hreach, hkept' ▸ hbody'⟩

/-- Both sides of a pair of use have counterparts, if its left-hand side has. -/
theorem meets_of_pair (hr : r ∈ g.analysis.rules) (hreach : g.Reaches r.lhs)
    (hys : Stands g r.lhs ys) (hmeets : g.Meets h r.lhs ys) (hbody : r.body = .pair b c)
    (hgen : ∀ m ∈ (r.map g.number g.termNumber).references, Generating g.numberedRules m) :
    ∃ x xs, Stands g b [x] ∧ Stands g c xs ∧ g.Meets h b [x] ∧ g.Meets h c xs := by
  obtain ⟨x, xs, hxs, hstands⟩ := exists_bodyStands_cons hr hbody
  obtain ⟨b', c', hbody', hb, hc, hbstart, hcstart⟩ := exists_pair hr hxs hstands
  obtain ⟨rfl, rfl⟩ := Body.pair.inj (hbody.symm.trans hbody')
  obtain ⟨haccessible, r', hr', hreach', hstands'⟩ :=
    exists_rule_of_meets hgh hg hh hr hys hmeets hstands hxs
  obtain ⟨hx, hxs'⟩ := List.forall_mem_cons.1 haccessible
  have hx : ∀ y ∈ [x], g.AccessibleSymbol y := fun y hy => List.mem_singleton.1 hy ▸ hx
  obtain ⟨b', c', hbody', hb', hc', hbstart', hcstart'⟩ := exists_pair hr' hxs hstands'
  have hrefs := Rule.references_map_of_pair hbody g.number g.termNumber
  have spelled {m : Nonterm} {zs : List Symbol} (hzs : Stands g m zs)
      (hm : g.number m ∈ (r.map g.number g.termNumber).references)
      (hacc : ∀ y ∈ zs, g.AccessibleSymbol y) : ∃ ks, Spells h.variantRules (phrase zs) ks := by
    obtain ⟨ks, hks⟩ := exists_spells_of_reaches hzs (hgen _ hm)
      (reached_reference hr hgen hreach hm)
    exact ⟨ks, hgh.spells_variants hacc hks⟩
  obtain ⟨hreachb, hreachc⟩ := reaches_of_pair hr' hreach' hbody' hb' hc'
    (spelled hb (by simp [hrefs]) hx) (spelled hc (by simp [hrefs]) hxs')
  exact ⟨x, xs, hb, hc, ⟨hx, b', hreachb, hb', by simp [hbstart, hbstart']⟩,
    ⟨hxs', c', hreachc, hc', by simp [hcstart, hcstart']⟩⟩

omit hg hh in
theorem meets_start (hys : Stands g .start ys) : g.Meets h .start ys := by
  cases hys with
  | start =>
    refine ⟨?_, .start, ?_, hgh.start_eq ▸ .start, Iff.rfl⟩
    · intro y hy
      obtain rfl := List.mem_singleton.1 hy
      exact Grammar.Accessible.start
    · rw [Grammar.Reaches, Grammar.number_start]
      exact .start

/-- Whatever the start reaches by rules of use has a counterpart. The induction follows the way
from the start. -/
theorem meets_of_reaches {k : Nat} (hk : g.ReachesNumber k) : ∀ {n : Nonterm} {xs : List Symbol},
    Stands g n xs → g.number n = k → g.Meets h n xs := by
  induction hk with
  | start =>
    intro n xs hxs hn
    rw [← Grammar.number_start g] at hn
    obtain rfl := hxs.number_inj .start hn
    exact meets_start hgh hxs
  | @rule numbered _ hmem hreach href ih =>
    intro n xs hxs hn
    obtain ⟨hmem, hproductive⟩ := List.mem_filter.1 hmem
    obtain ⟨r, hr, rfl⟩ := List.mem_map.1 hmem
    obtain ⟨ys, hys⟩ := stands_lhs hr
    have hgen : ∀ m ∈ (r.map g.number g.termNumber).references, Generating g.numberedRules m :=
      fun m hm => mem_generating.1 (productive_iff.1 hproductive m hm)
    cases hbody : r.body with
    | term k => simp [Rule.references, Rule.map, hbody] at href
    | pair b c =>
      obtain ⟨x, zs, hb, hc, hmeetsb, hmeetsc⟩ :=
        meets_of_pair hgh hg hh hr hreach hys (ih hys rfl) hbody hgen
      rw [Rule.references_map_of_pair hbody, List.mem_pair, ← hn] at href
      rcases href with href | href
      · obtain rfl := hxs.number_inj hb href
        obtain rfl := hxs.unique hg hb
        exact hmeetsb
      · obtain rfl := hxs.number_inj hc href
        obtain rfl := hxs.unique hg hc
        exact hmeetsc

end Meets

section Parts
variable [Pattern.Engine] {g h : Grammar} {w : String} {s s' : Scan} {i l : Nat}

/-- What a non-terminal derives from a span has parts, and the non-terminal is reached. -/
theorem exists_parts_of_derives (hg : g.Coherent) (hs : g.normalForm.Scans w s) {a p q : Nat}
    (hp : (Text.bounds w)[i]? = some p) (hq : (Text.bounds w)[i + l]? = some q)
    (hderives : g.normalForm.Derives w a i l) : ∃ n xs ps, g.Reaches n ∧ Stands g n xs ∧
      PartsDerive g w [] xs p q ps := by
  obtain ⟨r, hr, rfl⟩ : ∃ r ∈ g.normalForm.rules, r.lhs = a := by
    rcases NormalForm.derives_iff.1 hderives with ⟨r, hr, _, ha, -⟩ | ⟨r, hr, _, _, _, ha, -⟩
    · exact ⟨r, hr, ha⟩
    · exact ⟨r, hr, ha⟩
  obtain ⟨named, hnamed, rfl⟩ := exists_rule_of_mem hr
  obtain ⟨-, -, hreach⟩ := mem_rules_normalForm.1 hr
  obtain ⟨xs, hxs⟩ := stands_lhs hnamed
  have hle := hderives.le_length
  have hhas := (NormalForm.has_fill_iff_derives hs .first hderives.pos hle).2 hderives
  obtain ⟨ps, rest, -, hall⟩ :=
    leads_alternatives l hderives.pos (NormalForm.le_bounds hs hle) hxs hhas
  exact ⟨named.lhs, xs, ps, hreach, hxs,
    partsDerive_of_mem_gives hg hs l hderives.pos hp hq hxs (hall ▸ .head _)⟩

theorem exists_derives_of_parts (hg : g.Coherent) (hs : g.normalForm.Scans w s) {p q : Nat}
    (hl : 1 ≤ l) (hp : (Text.bounds w)[i]? = some p) (hq : (Text.bounds w)[i + l]? = some q)
    {n : Nonterm} {xs : List Symbol} {ps : Parts} (hreach : g.Reaches n) (hxs : Stands g n xs)
    (hps : PartsDerive g w [] xs p q ps) : g.normalForm.Derives w (g.number n) i l := by
  have hle := Text.le_length_of_bounds hq
  have hmem := (mem_gives_of_partsDerive hg hs l hl hp hq hxs hps).2 hreach
  exact (NormalForm.has_fill_iff_derives hs .exhaustive hl hle).1
    (NormalForm.has_of_mem_alternatives hl (NormalForm.le_bounds hs hle) hmem)

/-- A part of a word that some non-terminal derives is derived in a grammar that includes the
first. -/
theorem Grammar.Included.exists_derives (hgh : g.Included h) (hg : g.Coherent) (hh : h.Coherent)
    (hs : g.normalForm.Scans w s) (hs' : h.normalForm.Scans w s')
    (hderives : ∃ a, g.normalForm.Derives w a i l) : ∃ a, h.normalForm.Derives w a i l := by
  obtain ⟨a, hderives⟩ := hderives
  have hle := hderives.le_length
  have hlen := Text.bounds_length w
  have hp : (Text.bounds w)[i]? = some _ := List.getElem?_eq_getElem (by omega)
  have hq : (Text.bounds w)[i + l]? = some _ := List.getElem?_eq_getElem (by omega)
  obtain ⟨n, xs, ps, hreach, hxs, hps⟩ := exists_parts_of_derives hg hs hp hq hderives
  obtain ⟨haccessible, m, hreach', hm, -⟩ := meets_of_reaches hgh hg hh hreach hxs rfl
  exact ⟨_, exists_derives_of_parts hh hs' hderives.pos hp hq hreach' hm
    (hps.of_included hgh haccessible)⟩

end Parts
end ContextFree
