import ContextFree.Proofs.Correspondence

/-! Redundancy. Two grammars are similar if the start leads to the same productions in both, in
whatever order, however often they are repeated, and whatever productions stand beside them. Then
the same words are contained, with the same trees, and the others are refused for the same
reasons. -/
namespace ContextFree

namespace Grammar

/-- Black boxes of the same name are the same matcher, also if one is in each grammar. -/
def CoherentWith (g h : Grammar) : Prop :=
  ∀ b c, .blackBox b ∈ g.terminals ++ h.terminals → .blackBox c ∈ g.terminals ++ h.terminals →
    b.name = c.name → b.matcher = c.matcher

/-- The start leads to the same productions. -/
structure Similar (g h : Grammar) : Prop where
  start_eq : g.start = h.start
  left : ∀ p ∈ g.productions, g.Accessible p.lhs →
    ∃ q ∈ h.productions, h.Accessible q.lhs ∧ (p == q) = true
  right : ∀ q ∈ h.productions, h.Accessible q.lhs →
    ∃ p ∈ g.productions, g.Accessible p.lhs ∧ (q == p) = true

variable {g h : Grammar}

theorem Similar.symm (hgh : g.Similar h) : h.Similar g := ⟨hgh.start_eq.symm, hgh.right, hgh.left⟩

theorem Accessible.of_subset (hstart : g.start = h.start) (hsub : g.productions ⊆ h.productions)
    {name : String} (ha : g.Accessible name) : h.Accessible name := by
  induction ha with
  | start => exact hstart ▸ .start
  | reference hp _ hn ih => exact .reference (hsub hp) ih hn

/-- Neither order nor repetition matters. -/
theorem Similar.of_subset (hstart : g.start = h.start) (hgh : g.productions ⊆ h.productions)
    (hhg : h.productions ⊆ g.productions) : g.Similar h where
  start_eq := hstart
  left p hp ha := ⟨p, hgh hp, ha.of_subset hstart hgh, BEq.rfl⟩
  right q hq ha := ⟨q, hhg hq, ha.of_subset hstart.symm hhg, BEq.rfl⟩

namespace CoherentWith

theorem symm (hgh : g.CoherentWith h) : h.CoherentWith g := by
  intro b c hb hc
  apply hgh
  · exact List.mem_append.2 (List.mem_append.1 hb).symm
  · exact List.mem_append.2 (List.mem_append.1 hc).symm

theorem left (hgh : g.CoherentWith h) : g.Coherent :=
  fun b c hb hc => hgh b c (List.mem_append_left _ hb) (List.mem_append_left _ hc)

theorem right (hgh : g.CoherentWith h) : h.Coherent := hgh.symm.left

variable (hgh : g.CoherentWith h)
include hgh

theorem eq_of_key_eq {s t : Terminal} (hs : s ∈ g.terminals) (ht : t ∈ h.terminals)
    (hkey : s.key = t.key) : s = t := by
  apply Terminal.eq_of_key_eq_of_matcher_eq hkey
  rintro b c rfl rfl
  exact hgh b c (List.mem_append_left _ hs) (List.mem_append_right _ ht)

/-- Symbols of right-hand sides are the same if they count as equal. -/
theorem symbols_eq {xs ys : List Symbol} (hxs : ∀ t, .term t ∈ xs → t ∈ g.terminals)
    (hys : ∀ t, .term t ∈ ys → t ∈ h.terminals) (heq : (xs == ys) = true) : xs = ys := by
  induction xs generalizing ys with
  | nil =>
    cases ys with
    | nil => rfl
    | cons y ys => simp at heq
  | cons x xs ih =>
    cases ys with
    | nil => simp at heq
    | cons y ys =>
      rw [List.cons_beq_cons, Bool.and_eq_true] at heq
      obtain ⟨hkey, hrest⟩ := heq
      have hkey : x.key = y.key := eq_of_beq hkey
      have hxy : x = y := by
        cases x with
        | nonterm name =>
          cases y with
          | nonterm name' => rw [Symbol.Key.nonterm.inj hkey]
          | term t => simp [Symbol.key] at hkey
        | term s =>
          cases y with
          | nonterm name => simp [Symbol.key] at hkey
          | term t =>
            rw [hgh.eq_of_key_eq (hxs s (.head _)) (hys t (.head _)) (Symbol.Key.term.inj hkey)]
      rw [hxy, ih (fun t ht => hxs t (.tail _ ht)) (fun t ht => hys t (.tail _ ht)) hrest]

theorem production_eq {p q : Production} (hp : p ∈ g.productions) (hq : q ∈ h.productions)
    (heq : (p == q) = true) : p = q := by
  obtain ⟨hlhs, hrhs⟩ : (p.lhs == q.lhs) = true ∧ (p.rhs == q.rhs) = true :=
    Bool.and_eq_true_iff.1 heq
  have hrhs := hgh.symbols_eq (fun t ht => mem_terminals.2 ⟨p, hp, ht⟩)
    (fun t ht => mem_terminals.2 ⟨q, hq, ht⟩) hrhs
  cases p
  cases q
  rw [Production.mk.injEq]
  exact ⟨eq_of_beq hlhs, hrhs⟩

end CoherentWith

/-- Similar grammars include each other. -/
theorem Similar.included (hgh : g.Similar h) (hcoherent : g.CoherentWith h) : g.Included h where
  start_eq := hgh.start_eq
  mem p hp hlhs := by
    obtain ⟨q, hq, -, heq⟩ := hgh.left p hp hlhs
    exact hcoherent.production_eq hp hq heq ▸ hq

namespace Included
variable {w : String} {s : Scan} (hgh : g.Included h) (hcoherent : g.CoherentWith h)
include hgh hcoherent

/-- Terminals of use are of use in a grammar that includes theirs. -/
theorem useful {t : Terminal} (ht : t ∈ g.terminals) (huseful : g.Useful t) :
    t ∈ h.terminals ∧ h.Useful t := by
  obtain ⟨hne, us, hus, hmem⟩ := huseful
  have hstart : ∀ x ∈ [Symbol.nonterm g.start], g.AccessibleSymbol x := by
    intro x hx
    obtain rfl := List.mem_singleton.1 hx
    exact Accessible.start
  have hspells := hgh.spells hstart (mem_language_iff.1 hus)
  rw [hgh.start_eq] at hspells
  have hlanguage : us ∈ h.toContextFreeGrammar.language := mem_language_iff.2 hspells
  refine ⟨?_, hne, us, hlanguage, hmem⟩
  rcases hspells.terminal_mem hmem with hm | ⟨r, hr, hm⟩
  · simp at hm
  · obtain ⟨p, hp, rfl⟩ := mem_rewriteRules.1 hr
    obtain ⟨t', ht', hkey⟩ := terminal_mem_phrase.1 hm
    have ht' := mem_terminals.2 ⟨p, hp, ht'⟩
    exact hcoherent.eq_of_key_eq ht ht' hkey.symm ▸ ht'

variable [Pattern.Engine]

theorem covers {c : Nat} (hc : g.Covers w c) : h.Covers w c := by
  obtain ⟨t, ht, huseful, hcovers⟩ := hc
  obtain ⟨ht, huseful⟩ := hgh.useful hcoherent ht huseful
  exact ⟨t, ht, huseful, hcovers⟩

/-- What a grammar has asked black boxes for, a grammar that it includes can ask for. -/
theorem exists_scan (hscan : h.normalForm.scan w = .ok s) : ∃ s', g.normalForm.scan w = .ok s' := by
  have haccept : ∀ e ∈ g.normalForm.usefulTerms, ∀ p ∈ (Text.bounds w).dropLast,
      ∃ r, e.1.accept w p = .ok r := by
    rintro ⟨t, number⟩ ht p hp
    obtain ⟨ht, huseful⟩ := (useful_iff hcoherent.left).1 ⟨number, ht⟩
    obtain ⟨number', ht'⟩ := (useful_iff hcoherent.right).2 (hgh.useful hcoherent ht huseful)
    exact NormalForm.exists_accept_of_scan hscan _ ht' p hp
  obtain ⟨s', hscan', -⟩ := NormalForm.exists_scan haccept
  exact ⟨s', hscan'⟩

end Included

namespace Similar
variable [Pattern.Engine] {w : String} {s s' : Scan} (hgh : g.Similar h)
  (hcoherent : g.CoherentWith h)
include hgh hcoherent

theorem covers_iff {c : Nat} : g.Covers w c ↔ h.Covers w c := by
  constructor
  · exact (hgh.included hcoherent).covers hcoherent
  · exact (hgh.symm.included hcoherent.symm).covers hcoherent.symm

theorem generates_iff : g.Generates w ↔ h.Generates w := by
  constructor
  · exact (hgh.included hcoherent).generates
  · exact (hgh.symm.included hcoherent.symm).generates

/-- The trees are the same, because acyclic derivations are. -/
theorem derivesAcyclic_iff {t : ParseTree} :
    DerivesAcyclic g w [] (.nonterm g.start) 0 (Text.size w.toList) t ↔
      DerivesAcyclic h w [] (.nonterm h.start) 0 (Text.size w.toList) t := by
  have hg : g.AccessibleSymbol (.nonterm g.start) := Accessible.start
  have hh : h.AccessibleSymbol (.nonterm h.start) := Accessible.start
  constructor
  · intro ht
    rw [← hgh.start_eq]
    exact ht.of_included (hgh.included hcoherent) hg
  · intro ht
    rw [hgh.start_eq]
    exact ht.of_included (hgh.symm.included hcoherent.symm) hh

variable (hs : g.normalForm.Scans w s) (hs' : h.normalForm.Scans w s')
include hs hs'

theorem perm_trees : (g.trees s .exhaustive).Perm (h.trees s' .exhaustive) := by
  rw [List.perm_ext_iff_of_nodup (nodup_trees hcoherent.left hs) (nodup_trees hcoherent.right hs')]
  intro t
  rw [mem_trees hcoherent.left hs, mem_trees hcoherent.right hs',
    hgh.derivesAcyclic_iff hcoherent]

theorem exists_derives_iff {i l : Nat} : (∃ a, g.normalForm.Derives w a i l) ↔
    ∃ a, h.normalForm.Derives w a i l := by
  constructor
  · exact (hgh.included hcoherent).exists_derives hcoherent.left hcoherent.right hs hs'
  · exact (hgh.symm.included hcoherent.symm).exists_derives hcoherent.right hcoherent.left hs' hs

end Similar
end Grammar

section Diagnoses
variable [Pattern.Engine] {g h : Grammar} {w : String} {e e' : SyntaxError}

/-- A diagnosis rests on which characters are taken and on which parts are derived. -/
theorem Diagnosis.transfer (hd : Diagnosis g w e) (hcovers : ∀ c, g.Covers w c ↔ h.Covers w c)
    (hderives : ∀ l, (∃ a, g.normalForm.Derives w a 0 l) ↔ ∃ a, h.normalForm.Derives w a 0 l) :
    Diagnosis h w e := by
  cases hd with
  | empty h0 => exact .empty h0
  | uncovered hp hq hc hfirst =>
    exact .uncovered hp hq (mt (hcovers _).2 hc) fun d hd => (hcovers d).1 (hfirst d hd)
  | unmatched hall hpos hp hex hlongest =>
    refine .unmatched (fun c hc => (hcovers c).1 (hall c hc)) hpos hp ((hderives _).1 hex) ?_
    intro a m ha
    obtain ⟨a', ha'⟩ := (hderives m).2 ⟨a, ha⟩
    exact hlongest a' m ha'

namespace Diagnosis

theorem eq_of_empty (h0 : w.toList = []) (hd : Diagnosis g w e) :
    e = ⟨w, ⟨0, 0⟩, .emptyNotAllowed⟩ := by
  have hlen : w.toList.length = 0 := List.length_eq_zero_iff.2 h0
  cases hd with
  | empty _ => rfl
  | uncovered _ hq _ _ =>
    have := Text.le_length_of_bounds hq
    omega
  | unmatched _ hpos hp _ _ =>
    have := Text.le_length_of_bounds hp
    omega

theorem eq_of_uncovered {c p q : Nat} (hp : (Text.bounds w)[c]? = some p)
    (hq : (Text.bounds w)[c + 1]? = some q) (hc : ¬ g.Covers w c) (hfirst : ∀ d < c, g.Covers w d)
    (hd : Diagnosis g w e) : e = ⟨w, ⟨p, q⟩, .unknownToken⟩ := by
  have hlt := Text.le_length_of_bounds hq
  cases hd with
  | empty h0 =>
    have := List.length_eq_zero_iff.2 h0
    omega
  | @uncovered c' p' q' hp' hq' hc' hfirst' =>
    obtain rfl : c' = c := by
      rcases Nat.lt_trichotomy c' c with hlt | heq | hlt
      · exact (hc' (hfirst c' hlt)).elim
      · exact heq
      · exact (hc (hfirst' c hlt)).elim
    rw [Option.some.inj (hp'.symm.trans hp), Option.some.inj (hq'.symm.trans hq)]
  | unmatched hall _ _ _ _ => exact (hc (hall c hlt)).elim

theorem eq_of_unmatched {l p : Nat} (hall : ∀ c < w.toList.length, g.Covers w c) (hpos : 1 ≤ l)
    (hp : (Text.bounds w)[l]? = some p) (hderives : ∃ a, g.normalForm.Derives w a 0 l)
    (hlongest : ∀ a m, g.normalForm.Derives w a 0 m → m ≤ l) (hd : Diagnosis g w e) :
    e = ⟨w, ⟨p, Text.size w.toList⟩, .unmatchedPattern⟩ := by
  cases hd with
  | empty h0 =>
    have := List.length_eq_zero_iff.2 h0
    have := Text.le_length_of_bounds hp
    omega
  | @uncovered c _ _ _ hq hc _ => exact (hc (hall c (Text.le_length_of_bounds hq))).elim
  | @unmatched l' p' _ _ hp' hderives' hlongest' =>
    obtain ⟨a, ha⟩ := hderives
    obtain ⟨a', ha'⟩ := hderives'
    obtain rfl : l' = l := le_antisymm (hlongest a' l' ha') (hlongest' a l ha)
    rw [Option.some.inj (hp'.symm.trans hp)]

/-- A word has one diagnosis at most. -/
theorem unique (hd : Diagnosis g w e) (hd' : Diagnosis g w e') : e = e' := by
  cases hd with
  | empty h0 => exact (hd'.eq_of_empty h0).symm
  | uncovered hp hq hc hfirst => exact (hd'.eq_of_uncovered hp hq hc hfirst).symm
  | unmatched hall hpos hp hderives hlongest =>
    exact (hd'.eq_of_unmatched hall hpos hp hderives hlongest).symm

end Diagnosis

end Diagnoses

section Answers
variable [Pattern.Engine] {g h : Grammar} {w : String}

/-- All trees of an accepted word are those of its chart. -/
theorem trees_of_accepted {s : Scan} {t : ParseTree} {ts : List ParseTree}
    (hscan : g.normalForm.scan w = .ok s) (haccepted : Accepted g w t ts) :
    g.trees s .exhaustive = t :: ts := by
  obtain ⟨s', hscan', -, htrees⟩ := scan_of_parse haccepted.allSyntaxTrees
  obtain rfl := Except.ok.inj (hscan.symm.trans hscan')
  exact htrees.symm

/-- What both grammars scan is accepted by both, with the same trees, or refused by both. -/
theorem accepted_or_refused_of_similar (hgh : g.Similar h) (hcoherent : g.CoherentWith h)
    {s s' : Scan} (hscan : g.normalForm.scan w = .ok s) (hscan' : h.normalForm.scan w = .ok s') :
    (∃ t ts t' ts', Accepted g w t ts ∧ Accepted h w t' ts' ∧ (t :: ts).Perm (t' :: ts')) ∨
      ∃ e, Refused g w e ∧ Refused h w e := by
  have hs := NormalForm.scans_of_scan hscan
  have hs' := NormalForm.scans_of_scan hscan'
  have haccepts : (g.filled s .first).accepts g.normalForm = true ↔
      (h.filled s' .first).accepts h.normalForm = true := by
    rw [accepts_iff hcoherent.left hs .first, accepts_iff hcoherent.right hs' .first,
      hgh.generates_iff hcoherent]
  by_cases hg : (g.filled s .first).accepts g.normalForm = true
  · left
    obtain ⟨t, ts, haccepted⟩ := accepted_of_accepts hscan hg
    obtain ⟨t', ts', haccepted'⟩ := accepted_of_accepts hscan' (haccepts.1 hg)
    have hperm := hgh.perm_trees hcoherent hs hs'
    rw [trees_of_accepted hscan haccepted, trees_of_accepted hscan' haccepted'] at hperm
    exact ⟨t, ts, t', ts', haccepted, haccepted', hperm⟩
  · right
    have hdiagnosis := diagnosis_diagnose hcoherent.left hscan .first
    have hdiagnosis' := diagnosis_diagnose hcoherent.right hscan' .first
    have htransfer := hdiagnosis.transfer (fun c => hgh.covers_iff hcoherent)
      fun l => hgh.exists_derives_iff hcoherent hs hs'
    have hrefused' := refused_diagnose hscan' (mt haccepts.2 hg)
    rw [← htransfer.unique hdiagnosis'] at hrefused'
    exact ⟨_, refused_diagnose hscan hg, hrefused'⟩

/-- Order and repetition of productions, and productions that the start does not lead to, change no
answer but the order of the trees. -/
theorem answers_of_similar (hgh : g.Similar h) (hcoherent : g.CoherentWith h) (w : String) :
    (∃ t ts t' ts', Accepted g w t ts ∧ Accepted h w t' ts' ∧ (t :: ts).Perm (t' :: ts')) ∨
      (∃ e, Refused g w e ∧ Refused h w e) ∨ ∃ f f', Faulted g w f ∧ Faulted h w f' := by
  cases hscan : g.normalForm.scan w with
  | ok s =>
    obtain ⟨s', hscan'⟩ := (hgh.symm.included hcoherent.symm).exists_scan hcoherent.symm hscan
    rcases accepted_or_refused_of_similar hgh hcoherent hscan hscan' with h | h
    · left
      exact h
    · right; left
      exact h
  | error f =>
    right; right
    cases hscan' : h.normalForm.scan w with
    | ok s' =>
      obtain ⟨s, hscan''⟩ := (hgh.included hcoherent).exists_scan hcoherent hscan'
      simp [hscan] at hscan''
    | error f' => exact ⟨f, f', faulted_of_scan hscan, faulted_of_scan hscan'⟩

end Answers

/-- Numbers in another order, with a production twice and one that is never used. -/
def reorderedNumerals : Grammar where
  start := "N"
  productions := [⟨"N", []⟩, ⟨"M", [.nonterm "N", .literal "."]⟩,
    ⟨"N", [.blackBox (.predicate "digit" Char.isDigit)]⟩, ⟨"N", []⟩,
    ⟨"N", [.nonterm "N", .nonterm "N"]⟩]
  start_defined := ⟨_, .head _, rfl⟩
  closed := by simp [Production.references, Symbol.nonterm?, Symbol.blackBox, Symbol.literal]

theorem eq_start_of_accessible {name : String} (h : reorderedNumerals.Accessible name) :
    name = "N" := by
  induction h with
  | start => rfl
  | @reference p name hp _ hn ih =>
    simp only [reorderedNumerals, List.mem_cons, List.not_mem_nil, or_false] at hp
    rcases hp with rfl | rfl | rfl | rfl | rfl <;>
      simp_all [Production.references, Symbol.nonterm?, Symbol.blackBox]

theorem similar_numerals : numerals.Similar reorderedNumerals where
  start_eq := rfl
  left p hp _ := by
    have hmem : p ∈ reorderedNumerals.productions ∧ p.lhs = "N" := by
      simp only [numerals, List.mem_cons, List.not_mem_nil, or_false] at hp
      rcases hp with rfl | rfl | rfl <;> simp [reorderedNumerals]
    exact ⟨p, hmem.1, hmem.2 ▸ .start, BEq.rfl⟩
  right q hq haccessible := by
    have hlhs := eq_start_of_accessible haccessible
    have hmem : q ∈ numerals.productions := by
      simp only [reorderedNumerals, List.mem_cons, List.not_mem_nil, or_false] at hq
      rcases hq with rfl | rfl | rfl | rfl | rfl <;> simp_all [numerals]
    exact ⟨q, hmem, hlhs ▸ .start, BEq.rfl⟩

theorem coherentWith_numerals : numerals.CoherentWith reorderedNumerals := by
  have hdigit (b : BlackBox) (hb : .blackBox b ∈ numerals.terminals ++ reorderedNumerals.terminals) :
      b = .predicate "digit" Char.isDigit := by
    have hterminals : reorderedNumerals.terminals =
        [.literal ".", .blackBox (.predicate "digit" Char.isDigit)] := rfl
    simpa [hterminals, terminals_numerals] using hb
  intro b c hb hc _
  rw [hdigit b hb, hdigit c hc]

theorem answers_of_similar_numerals : numerals.Similar reorderedNumerals ∧
    numerals.CoherentWith reorderedNumerals ∧
    ((∃ t ts t' ts', Accepted numerals "42" t ts ∧ Accepted reorderedNumerals "42" t' ts' ∧
        (t :: ts).Perm (t' :: ts')) ∨
      (∃ e, Refused numerals "42" e ∧ Refused reorderedNumerals "42" e) ∨
      ∃ f f', Faulted numerals "42" f ∧ Faulted reorderedNumerals "42" f') :=
  ⟨similar_numerals, coherentWith_numerals,
    answers_of_similar similar_numerals coherentWith_numerals "42"⟩

end ContextFree
