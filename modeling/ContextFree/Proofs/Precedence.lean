import ContextFree.Parse
import ContextFree.Proofs.Contents
import Mathlib.Data.Prod.Lex

/-! The order in which ways are found. Every way has a rank, and the ways of a non-terminal are
listed by increasing rank; the one that is kept in first mode is the least. -/
namespace ContextFree

theorem pairwise_zipIdx {α : Type} (l : List α) : l.zipIdx.Pairwise fun x y => x.2 < y.2 := by
  have h : (l.zipIdx.map (·.2)).Pairwise (· < ·) := by
    rw [List.zipIdx_map_snd]
    exact List.pairwise_lt_range'
  exact List.pairwise_map.1 h

/-- An index of numbered things has the values of a key in the order of their numbers. -/
theorem Index.pairwise_get {α κ β : Type} [DecidableEq κ] [Coded κ] {number : β → Nat}
    {f : α × Nat → Option (κ × β)} (hf : ∀ x k v, f x = some (k, v) → number v = x.2) (l : List α)
    (k : κ) : ((ofList (l.zipIdx.filterMap f)).get k).Pairwise fun u v => number u < number v := by
  rw [get_ofList]
  refine List.pairwise_map.2 (List.Pairwise.filter _ ?_)
  refine List.Pairwise.filterMap f (fun x y hxy u hu v hv => ?_) (pairwise_zipIdx l)
  rw [hf x u.1 u.2 hu, hf y v.1 v.2 hv]
  exact hxy

theorem pairwise_idxOf_of_nodup {l : List Nat} (h : l.Nodup) :
    l.Pairwise fun a b => l.idxOf a < l.idxOf b := by
  rw [List.pairwise_iff_getElem]
  intro i j hi hj hij
  rwa [h.idxOf_getElem i hi, h.idxOf_getElem j hj]

namespace Cell

theorem nodup_keys_ofFound (mode : Mode) (found : List (Nat × Back)) :
    (ofFound mode found).keys.Nodup := by
  induction found using List.reverseRecOn with
  | nil => exact List.nodup_nil
  | append_singleton found e ih =>
    rw [ofFound_concat, keys_record]
    split
    · exact ih
    · rename_i hnew
      exact ih.append (List.nodup_singleton _) (by simpa using hnew)

end Cell

/-- The matches at a character come in the order of their terminals. -/
theorem sublist_scanAt [Pattern.Engine] {w : String} {bounds : List Nat} {i p : Nat}
    {ts : List (Terminal × Nat)} {ms : List Match} (h : scanAt w bounds i p ts = .ok ms) :
    (ms.map (·.term)).Sublist (ts.map (·.2)) := by
  induction ts generalizing ms with
  | nil =>
    obtain rfl := Except.ok.inj h
    exact .slnil
  | cons e ts ih =>
    obtain ⟨t, number⟩ := e
    rw [scanAt] at h
    cases hr : t.accept w p with
    | error f => simp [hr, bind, Except.bind] at h
    | ok r =>
      cases hrest : scanAt w bounds i p ts with
      | error f => simp [hr, hrest, bind, Except.bind] at h
      | ok rest =>
        simp only [hr, hrest, bind, Except.bind] at h
        split at h <;> obtain rfl := Except.ok.inj h
        · exact (ih hrest).cons_cons number
        · exact (ih hrest).cons number

namespace NormalForm
variable {nf : NormalForm} {w : String} {s : Scan}

theorem pairwise_usefulTerms (nf : NormalForm) :
    (nf.usefulTerms.map (·.2)).Pairwise (· < ·) :=
  List.pairwise_map.2 ((pairwise_zipIdx _).filter _)

theorem pairwise_matchesAt [Pattern.Engine] (h : nf.scan w = .ok s) (i : Nat) :
    (s.matchesAt i).Pairwise fun m m' => m.term < m'.term := by
  rw [scan_eq] at h
  cases hrows : (Text.bounds w).dropLast.zipIdx.mapM
      fun e => scanAt w (Text.bounds w) e.2 e.1 nf.usefulTerms with
  | error f => simp [hrows, bind, Except.bind] at h
  | ok rows =>
    simp only [hrows, bind, Except.bind] at h
    obtain rfl := Except.ok.inj h
    rw [Scan.matchesAt]
    cases hrow : rows[i]? with
    | none => exact .nil
    | some row =>
      obtain ⟨e, -, hscan⟩ := exists_of_mem_mapM hrows (List.mem_of_getElem? hrow)
      exact List.pairwise_map.1 (nf.pairwise_usefulTerms.sublist (sublist_scanAt hscan))

/-- The terminal of a rule, or the first of its two non-terminals. -/
def lead (nf : NormalForm) (rule : Nat) : Nat :=
  match nf.rules[rule]? with
  | none => 0
  | some r => match r.body with
    | .term t => t
    | .pair b _ => b

end NormalForm

/-- The rank of a way to derive a span. Matches come first, by terminal and by rule. Then come
splits, by the length of the first part, by the place of the first non-terminal in the cell of
that part, and by rule. -/
def Back.rank (nf : NormalForm) (cell : Nat → Nat → Cell) (i : Nat) : Back → Nat ×ₗ Nat ×ₗ Nat
  | .term rule => toLex (0, toLex (nf.lead rule, rule))
  | .split rule k => toLex (k, toLex ((cell i k).keys.idxOf (nf.lead rule), rule))

namespace NormalForm
variable {nf : NormalForm} {w : String} {s : Scan} {cell : Nat → Nat → Cell} {i l : Nat}

theorem pairwise_termRules (nf : NormalForm) (t : Nat) :
    (nf.termRules.get t).Pairwise fun e f => e.2 < f.2 := by
  refine Index.pairwise_get (fun x k v h => ?_) nf.rules t
  cases hb : x.1.body <;> simp_all

theorem pairwise_pairRules (nf : NormalForm) (b : Nat) :
    (nf.pairRules.get b).Pairwise fun p q => p.rule < q.rule := by
  refine Index.pairwise_get (fun x k v h => ?_) nf.rules b
  cases hb : x.1.body with
  | term t => simp [hb] at h
  | pair b c =>
    simp only [hb, Option.some.injEq, Prod.mk.injEq] at h
    obtain ⟨-, rfl⟩ := h
    rfl

theorem lead_of_mem_termRules {t : Nat} {e : NumberedRule × Nat} (h : e ∈ nf.termRules.get t) :
    nf.lead e.2 = t := by
  obtain ⟨hr, hb⟩ := mem_termRules.1 h
  rw [lead, hr]
  simp only [hb]

theorem lead_of_mem_pairRules {b : Nat} {p : PairRule} (h : p ∈ nf.pairRules.get b) :
    nf.lead p.rule = b := by
  obtain ⟨r, hr, -, hb⟩ := mem_pairRules.1 h
  rw [lead, hr]
  simp only [hb]

theorem pairwise_termFound [Pattern.Engine] (h : nf.scan w = .ok s) :
    (termFound nf.termRules.get s i l).Pairwise fun e f =>
      e.2.rank nf cell i < f.2.rank nf cell i := by
  rw [termFound, List.pairwise_flatMap]
  constructor
  · intro m hm
    refine List.pairwise_map.2 ((nf.pairwise_termRules m.term).imp_of_mem fun he hf hlt => ?_)
    simp [Back.rank, lead_of_mem_termRules he, lead_of_mem_termRules hf,
      Prod.Lex.toLex_lt_toLex, hlt]
  · refine ((pairwise_matchesAt h i).filter _).imp fun hlt e he f hf => ?_
    obtain ⟨u, hu, rfl⟩ := List.mem_map.1 he
    obtain ⟨v, hv, rfl⟩ := List.mem_map.1 hf
    simp [Back.rank, lead_of_mem_termRules hu, lead_of_mem_termRules hv,
      Prod.Lex.toLex_lt_toLex, hlt]

/-- The splits of one length whose first part derives a non-terminal. -/
def splitsOf (nf : NormalForm) (right : Cell) (k b : Nat) : List (Nat × Back) :=
  (nf.pairRules.get b).filterMap fun p =>
    if right.has p.second then some (p.lhs, .split p.rule k) else none

theorem splitFound_eq (nf : NormalForm) (cell : Nat → Nat → Cell) (i l : Nat) :
    splitFound nf.pairRules.get cell i l = (List.range' 1 (l - 1)).flatMap fun k =>
      (cell i k).flatMap fun e => nf.splitsOf (cell (i + k) (l - k)) k e.1 :=
  rfl

theorem rank_of_mem_splitsOf (cell : Nat → Nat → Cell) (i : Nat) {right : Cell} {k b : Nat}
    {e : Nat × Back}
    (h : e ∈ nf.splitsOf right k b) : ∃ rule,
      e.2.rank nf cell i = toLex (k, toLex ((cell i k).keys.idxOf b, rule)) := by
  obtain ⟨p, hp, he⟩ := List.mem_filterMap.1 h
  simp only [Option.ite_none_right_eq_some, Option.some.injEq] at he
  obtain ⟨-, rfl⟩ := he
  exact ⟨p.rule, by rw [Back.rank, lead_of_mem_pairRules hp]⟩

theorem pairwise_splitFound (hcell : ∀ k, 1 ≤ k → k < l → (cell i k).keys.Nodup) :
    (splitFound nf.pairRules.get cell i l).Pairwise fun e f =>
      e.2.rank nf cell i < f.2.rank nf cell i := by
  rw [splitFound_eq, List.pairwise_flatMap]
  constructor
  · intro k hk
    rw [List.mem_range'_1] at hk
    rw [List.pairwise_flatMap]
    constructor
    · rintro ⟨b, bs⟩ -
      refine List.pairwise_filterMap.2 ((nf.pairwise_pairRules b).imp_of_mem ?_)
      intro p p' hp hp' hlt e he f hf
      simp only [Option.ite_none_right_eq_some, Option.some.injEq] at he hf
      obtain ⟨-, rfl⟩ := he
      obtain ⟨-, rfl⟩ := hf
      simp [Back.rank, lead_of_mem_pairRules hp, lead_of_mem_pairRules hp',
        Prod.Lex.toLex_lt_toLex, hlt]
    · have hkeys := pairwise_idxOf_of_nodup (hcell k hk.1 (by omega))
      refine (List.pairwise_map.1 hkeys).imp fun hlt e he f hf => ?_
      obtain ⟨_, he⟩ := rank_of_mem_splitsOf cell i he
      obtain ⟨_, hf⟩ := rank_of_mem_splitsOf cell i hf
      rw [he, hf, Prod.Lex.toLex_lt_toLex, Prod.Lex.toLex_lt_toLex]
      exact .inr ⟨rfl, .inl hlt⟩
  · have hlengths : (List.range' 1 (l - 1)).Pairwise (· < ·) := List.pairwise_lt_range'
    refine hlengths.imp fun hlt e he f hf => ?_
    obtain ⟨_, -, he⟩ := List.mem_flatMap.1 he
    obtain ⟨_, -, hf⟩ := List.mem_flatMap.1 hf
    obtain ⟨_, he⟩ := rank_of_mem_splitsOf cell i he
    obtain ⟨_, hf⟩ := rank_of_mem_splitsOf cell i hf
    rw [he, hf, Prod.Lex.toLex_lt_toLex]
    exact .inl hlt

/-- What is found for a span is found in the order of ranks. -/
theorem pairwise_found [Pattern.Engine] (h : nf.scan w = .ok s)
    (hcell : ∀ k, 1 ≤ k → k < l → (cell i k).keys.Nodup) :
    (nf.found s cell i l).Pairwise fun e f => e.2.rank nf cell i < f.2.rank nf cell i := by
  refine List.pairwise_append.2 ⟨pairwise_termFound h, pairwise_splitFound hcell, ?_⟩
  rintro ⟨a, b⟩ hterm ⟨a', b'⟩ hsplit
  obtain ⟨rule, -, -, rfl, -⟩ := mem_termFound.1 hterm
  obtain ⟨rule', -, k, -, -, rfl, hk, -⟩ := mem_splitFound.1 hsplit
  have hk : 0 < k := hk
  simp [Back.rank, Prod.Lex.toLex_lt_toLex, hk]

variable {a : Nat} (mode : Mode)

theorem nodup_keys_fill (hl : 1 ≤ l) (hle : i + l ≤ s.bounds.length - 1) :
    ((nf.fill s mode).cell i l).keys.Nodup := by
  rw [cell_fill hl hle]
  exact Cell.nodup_keys_ofFound _ _

variable [Pattern.Engine]

/-- The ways of a non-terminal are listed by increasing rank. -/
theorem pairwise_waysOf (h : nf.scan w = .ok s) (hle : i + l ≤ s.bounds.length - 1) :
    (nf.waysOf s mode i l a).Pairwise fun b b' =>
      b.rank nf (nf.fill s mode).cell i < b'.rank nf (nf.fill s mode).cell i := by
  refine List.pairwise_map.2 (List.Pairwise.filter _ (pairwise_found h fun k hk hkl => ?_))
  exact nodup_keys_fill mode hk (by omega)

theorem chart_of_scan (h : nf.scan w = .ok s) : nf.chart w mode = .ok (nf.fill s mode) := by
  rw [chart, h]
  rfl

/-- An exhaustive chart has the ways of every non-terminal by increasing rank, and the other chart
has the first of them. -/
theorem pairwise_backs (hw : nf.Answers w) : ∃ c c', nf.chart w .exhaustive = .ok c ∧
    nf.chart w .first = .ok c' ∧ ∀ i l a, 1 ≤ l → i + l ≤ w.toList.length →
      ((c.cell i l).backs a).Pairwise (fun b b' => b.rank nf c.cell i < b'.rank nf c.cell i) ∧
      (c'.cell i l).backs a = ((c.cell i l).backs a).take 1 := by
  obtain ⟨s, hscan, hs⟩ := hw.exists_scan
  refine ⟨_, _, chart_of_scan .exhaustive hscan, chart_of_scan .first hscan, ?_⟩
  intro i l a hl hle
  have hle : i + l ≤ s.bounds.length - 1 := by
    rw [hs.bounds_eq, Text.bounds_length]
    omega
  have hmode : nf.waysOf s .first i l a = nf.waysOf s .exhaustive i l a :=
    waysOf_mode .exhaustive hl hle
  rw [backs_fill hl hle, backs_fill hl hle, if_pos rfl, if_neg (by decide), hmode]
  exact ⟨pairwise_waysOf .exhaustive hscan hle, rfl⟩

end NormalForm

/-- The rank by rule: matches come first, by rule, and then splits, by the length of the first part
and by rule. -/
def Back.rankByRule : Back → Nat ×ₗ Nat
  | .term rule => toLex (0, rule)
  | .split rule k => toLex (k, rule)

/-- Two terminals that match the same character. The one that comes first belongs to the rule that
comes last. -/
def overlapping : Grammar where
  start := "S"
  productions := [⟨"S", [.literal "a", .nonterm "A"]⟩,
    ⟨"A", [.charClass (.range 'a' 'b')]⟩, ⟨"A", [.nonterm "B"]⟩, ⟨"B", [.literal "a"]⟩]
  start_defined := ⟨_, .head _, rfl⟩
  closed := by simp [Production.references, Symbol.nonterm?, Symbol.literal, Symbol.charClass]

theorem answers_overlapping (w : String) : overlapping.normalForm.Answers w := by
  apply Grammar.Answers.normalForm
  intro b hb
  have hterminals : overlapping.terminals =
    [.literal "a", .charClass (.range 'a' 'b'), .literal "a"] := rfl
  simp [hterminals] at hb

theorem pairwise_backs_overlapping : overlapping.normalForm.Answers "aa" ∧
    ∃ c c', overlapping.normalForm.chart "aa" .exhaustive = .ok c ∧
      overlapping.normalForm.chart "aa" .first = .ok c' ∧
      ∀ i l a, 1 ≤ l → i + l ≤ "aa".toList.length →
        ((c.cell i l).backs a).Pairwise (fun b b' =>
          b.rank overlapping.normalForm c.cell i < b'.rank overlapping.normalForm c.cell i) ∧
        (c'.cell i l).backs a = ((c.cell i l).backs a).take 1 :=
  ⟨answers_overlapping "aa", NormalForm.pairwise_backs (answers_overlapping "aa")⟩

theorem backs_overlapping : (overlapping.normalForm.chart "aa" .exhaustive).toOption.map
    (fun c => (c.cell 1 1).backs 2) = some [.term 3, .term 2] := by
  decide +kernel

/-- The order is not that of the rules. -/
theorem not_pairwise_backs_by_rule : ¬ ∀ (g : Grammar) (w : String) (c : Chart),
    g.normalForm.chart w .exhaustive = .ok c → ∀ i l a,
      ((c.cell i l).backs a).Pairwise fun b b' => b.rankByRule < b'.rankByRule := by
  intro h
  have hbacks := backs_overlapping
  cases hc : overlapping.normalForm.chart "aa" .exhaustive with
  | error f => simp [hc, Except.toOption] at hbacks
  | ok c =>
    simp only [hc, Except.toOption, Option.map_some, Option.some.injEq] at hbacks
    have hsorted := h overlapping "aa" c hc 1 1 2
    rw [hbacks] at hsorted
    revert hsorted
    decide

/-- The tree goes by the later rule. -/
example : (overlapping.parser.syntaxTree "aa").toOption = some (.node "S" [.leaf ⟨0, 1⟩,
    .node "A" [.node "B" [.leaf ⟨1, 2⟩]]]) := by
  decide +kernel

end ContextFree
