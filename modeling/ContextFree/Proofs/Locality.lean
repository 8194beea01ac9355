import ContextFree.Proofs.Exactness

/-! Locality. Literals and character classes look at nothing but the characters that they take. So
the cell of a span, with the order of what it holds, depends on the characters of the span alone:
it is the cell that they have as a word of their own. -/
namespace ContextFree

namespace Terminal

/-- Terminals that look at nothing but the characters that they take. -/
inductive Plain : Terminal → Prop
  | literal (s : String) : Plain (.literal s)
  | charClass (c : CharClass) : Plain (.charClass c)

/-- The characters at the beginning of a text that a plain terminal takes. -/
def taken? (cs : List Char) : Terminal → Option (List Char)
  | literal s => if s.toList.isPrefixOf cs ∧ s.toList ≠ [] then some s.toList else none
  | charClass c => (cs.head?.filter c.contains).map ([·])
  | pattern _ | blackBox _ => none

/-- Whether a plain terminal takes these characters wherever they stand. -/
def Spells (piece : List Char) : Terminal → Prop
  | literal s => s.toList = piece
  | charClass c => ∃ d, c.contains d = true ∧ piece = [d]
  | pattern _ | blackBox _ => False

variable {t : Terminal} {cs piece : List Char}

theorem taken?_eq_some : t.taken? cs = some piece ↔ piece <+: cs ∧ piece ≠ [] ∧ t.Spells piece := by
  cases t with
  | literal s =>
    simp only [taken?, Spells, List.isPrefixOf_iff_prefix, Option.ite_none_right_eq_some,
      Option.some.injEq, and_assoc]
    constructor
    · rintro ⟨hs, hne, rfl⟩
      exact ⟨hs, hne, rfl⟩
    · rintro ⟨hs, hne, rfl⟩
      exact ⟨hs, hne, rfl⟩
  | charClass c =>
    simp only [taken?, Spells, Option.map_eq_some_iff, Option.filter_eq_some_iff]
    constructor
    · rintro ⟨d, ⟨hd, hc⟩, rfl⟩
      obtain ⟨rest, rfl⟩ := List.head?_eq_some_iff.1 hd
      exact ⟨⟨rest, rfl⟩, by simp, d, hc, rfl⟩
    · rintro ⟨⟨rest, rfl⟩, -, d, hc, rfl⟩
      exact ⟨d, ⟨rfl, hc⟩, rfl⟩
  | pattern _ | blackBox _ => simp [taken?, Spells]

/-- What comes after the characters that are taken does not matter. -/
theorem taken?_take {n : Nat} (hn : piece.length ≤ n) :
    t.taken? (cs.take n) = some piece ↔ t.taken? cs = some piece := by
  rw [taken?_eq_some, taken?_eq_some, List.prefix_take_iff, and_iff_left hn]

variable [Pattern.Engine]

theorem accept_literal {s : String} {w : String} {p : Nat} (h : Matcher.rest w p = .ok cs) :
    (literal s).accept w p = .ok
      (if s.toList.isPrefixOf cs ∧ s.toList ≠ [] then some (p + Text.size s.toList) else none) := by
  have hpos : p < p + Text.size s.toList ↔ s.toList ≠ [] := by
    constructor
    · intro hlt hs
      simp [hs] at hlt
    · intro hs
      have := mt Text.size_eq_zero hs
      omega
  by_cases hs : s.toList.isPrefixOf cs = true
  · by_cases hne : s.toList = [] <;>
      simp [accept, matcher, Matcher.literal, h, hs, hne, hpos, bind, Except.bind, pure, Except.pure]
  · simp [accept, matcher, Matcher.literal, h, hs, bind, Except.bind, pure, Except.pure]

theorem accept_charClass {c : CharClass} {w : String} {p : Nat} (h : Matcher.rest w p = .ok cs) :
    (charClass c).accept w p =
      .ok ((cs.head?.filter c.contains).map fun d => p + d.utf8Size) := by
  have hpos (d : Char) : p < p + d.utf8Size := by
    have := d.utf8Size_pos
    omega
  simp only [accept, matcher, Matcher.one, h, bind, Except.bind, pure, Except.pure]
  cases cs.head?.filter c.contains with
  | none => rfl
  | some d => simp [hpos]

/-- A plain terminal accepts what it takes of the characters ahead. -/
theorem Plain.accept_eq (ht : t.Plain) {w : String} {before after : List Char}
    (hw : w.toList = before ++ after) : t.accept w (Text.size before) =
      .ok ((t.taken? after).map fun piece => Text.size (before ++ piece)) := by
  have hrest : Matcher.rest w (Text.size before) = .ok after := by
    rw [Matcher.rest, hw, Text.charsFrom?_size]
  cases ht with
  | literal s =>
    rw [accept_literal hrest, taken?]
    split <;> simp
  | charClass c =>
    rw [accept_charClass hrest, taken?, Option.map_map]
    simp [Function.comp_def]

end Terminal

/-- The matches of terminals at the beginning of a text. -/
def matchesAhead (cs : List Char) (ts : List (Terminal × Nat)) : List Match :=
  ts.filterMap fun e => (e.1.taken? cs).map fun piece => ⟨e.2, piece.length⟩

section Matches
variable {ts : List (Terminal × Nat)} {w : String} {before after cs : List Char}

theorem getElem?_bounds_append (hw : w.toList = before ++ after) :
    (Text.bounds w)[before.length]? = some (Text.size before) := by
  rw [Text.bounds, hw, Text.getElem?_offsets_append, Nat.zero_add]

theorem matchesAhead_cons (t : Terminal) (number : Nat) :
    matchesAhead cs ((t, number) :: ts) =
      ((t.taken? cs).map fun piece => ⟨number, piece.length⟩).toList ++ matchesAhead cs ts := by
  rw [matchesAhead, List.filterMap_cons, ← matchesAhead]
  cases t.taken? cs <;> rfl

/-- Where all terminals are plain, a row has what they take of the characters ahead. -/
theorem scanAt_plain [Pattern.Engine] (hts : ∀ e ∈ ts, e.1.Plain)
    (hw : w.toList = before ++ after) :
    scanAt w (Text.bounds w) before.length (Text.size before) ts =
      .ok (matchesAhead after ts) := by
  induction ts with
  | nil => rfl
  | cons e ts ih =>
    obtain ⟨t, number⟩ := e
    have haccept := (hts _ (.head _)).accept_eq hw
    rw [scanAt_cons haccept (ih fun e he => hts e (.tail _ he)), matchesAhead_cons]
    cases htaken : t.taken? after with
    | none => rfl
    | some piece =>
      obtain ⟨⟨rest, rfl⟩, -⟩ := Terminal.taken?_eq_some.1 htaken
      have hw' : w.toList = before ++ piece ++ rest := by simpa using hw
      have hidx := idxOf?_bounds.2 (getElem?_bounds_append hw')
      simp only [Option.map_some, Option.bind_some, hidx]
      simp

/-- Matches of some length do not depend on what comes later. -/
theorem filter_matchesAhead_take {m n : Nat} (hm : m ≤ n) :
    (matchesAhead (cs.take n) ts).filter (·.length = m) =
      (matchesAhead cs ts).filter (·.length = m) := by
  rw [matchesAhead, matchesAhead, List.filter_filterMap, List.filter_filterMap]
  refine List.filterMap_congr fun e _ => Option.ext fun found => ?_
  simp only [Option.filter_eq_some_iff, Option.map_eq_some_iff, decide_eq_true_eq]
  constructor
  · rintro ⟨⟨piece, htaken, rfl⟩, hlen⟩
    exact ⟨⟨piece, (Terminal.taken?_take (hlen.trans_le hm)).1 htaken, rfl⟩, hlen⟩
  · rintro ⟨⟨piece, htaken, rfl⟩, hlen⟩
    exact ⟨⟨piece, (Terminal.taken?_take (hlen.trans_le hm)).2 htaken, rfl⟩, hlen⟩

end Matches

namespace NormalForm
variable {nf : NormalForm} {w : String} {s s' : Scan}

/-- Where the matches of plain terminals start, these take what they take of the rest. -/
theorem matchesAt_eq [Pattern.Engine] (hts : ∀ e ∈ nf.usefulTerms, e.1.Plain)
    (h : nf.scan w = .ok s) {i : Nat} (hi : i < w.toList.length) :
    s.matchesAt i = matchesAhead (w.toList.drop i) nf.usefulTerms := by
  have hw : w.toList = w.toList.take i ++ w.toList.drop i := (List.take_append_drop _ _).symm
  have hlen : (w.toList.take i).length = i := List.length_take_of_le hi.le
  have hp : (Text.bounds w).dropLast[i]? = some (Text.size (w.toList.take i)) := by
    have hget := getElem?_bounds_append hw
    rw [hlen] at hget
    rw [List.getElem?_dropLast, if_pos (by rw [Text.bounds_length]; omega), hget]
  have hrow := scanAt_plain hts hw
  rw [hlen] at hrow
  rw [Scan.matchesAt, (getElem?_rows h).2 ⟨_, hp, hrow⟩, Option.getD_some]

section Shift
variable {u : String} {i l : Nat} (hts : ∀ e ∈ nf.usefulTerms, e.1.Plain)
  (hu : u.toList = (w.toList.drop i).take l) (hle : i + l ≤ w.toList.length)
include hu hle

theorem length_substring : u.toList.length = l := by
  rw [hu, List.length_take_of_le]
  rw [List.length_drop]
  omega

include hts

/-- What a part of a word finds by matches, the word finds there. -/
theorem termFound_substring [Pattern.Engine] (h : nf.scan w = .ok s) (h' : nf.scan u = .ok s')
    {j m : Nat} (hm : 1 ≤ m) (hjm : j + m ≤ l) :
    termFound nf.termRules.get s (i + j) m = termFound nf.termRules.get s' j m := by
  have hlen := length_substring hu hle
  have htail : u.toList.drop j = (w.toList.drop (i + j)).take (l - j) := by
    rw [hu, List.drop_take, List.drop_drop]
  rw [termFound, termFound, matchesAt_eq hts h (by omega), matchesAt_eq hts h' (by omega), htail,
    filter_matchesAhead_take (by omega)]

end Shift

/-- Two charts have the same cells, as far as the matches that they are filled from are the same,
one of them shifted. A split needs the cells of both parts, which are shorter. -/
theorem cell_fill_shift (mode : Mode) {d n : Nat} (hs : d + n ≤ s.bounds.length - 1)
    (hs' : n ≤ s'.bounds.length - 1)
    (hmatch : ∀ i l, 1 ≤ l → i + l ≤ n →
      termFound nf.termRules.get s (d + i) l = termFound nf.termRules.get s' i l) :
    ∀ l i, 1 ≤ l → i + l ≤ n → (nf.fill s mode).cell (d + i) l = (nf.fill s' mode).cell i l := by
  intro l
  induction l using Nat.strongRecOn with
  | ind l ih =>
    intro i hl h
    have hsplit : splitFound nf.pairRules.get (nf.fill s mode).cell (d + i) l =
        splitFound nf.pairRules.get (fun j k => (nf.fill s mode).cell (d + j) k) i l := by
      simp only [splitFound, Nat.add_assoc]
    rw [cell_fill hl (by omega), cell_fill hl (by omega), found, found, hmatch i l hl h, hsplit,
      splitFound_congr fun j k hk hkl _ _ => congrArg Cell.keys (ih k hkl j hk (by omega))]

end NormalForm

namespace Grammar
variable {g : Grammar}

theorem plain_usefulTerms (hg : ∀ t ∈ g.terminals, t.Plain) :
    ∀ e ∈ g.normalForm.usefulTerms, e.1.Plain :=
  fun _ he => hg _ (mem_terminals_of_mem_usefulTerms he)

theorem answers_of_plain (hg : ∀ t ∈ g.terminals, t.Plain) (w : String) : g.Answers w := by
  intro b hb
  cases hg _ hb

/-- Where all terminals are literals or character classes, the cell of a span is the cell of its
text alone. -/
theorem cell_eq_cell_substring [Pattern.Engine] (hg : ∀ t ∈ g.terminals, t.Plain) (w : String)
    (mode : Mode) {i l : Nat} (hl : 1 ≤ l) (h : i + l ≤ w.toList.length) :
    ∃ c c', g.normalForm.chart w mode = .ok c ∧
      g.normalForm.chart (String.ofList ((w.toList.drop i).take l)) mode = .ok c' ∧
      c.cell i l = c'.cell 0 l := by
  generalize hu : String.ofList ((w.toList.drop i).take l) = u
  have hu : u.toList = (w.toList.drop i).take l := by rw [← hu, String.toList_ofList]
  have hlen := NormalForm.length_substring hu h
  obtain ⟨s, hscan, hs⟩ := (answers_of_plain hg w).exists_scan
  obtain ⟨s', hscan', hs'⟩ := (answers_of_plain hg u).exists_scan
  have hbounds := NormalForm.le_bounds hs h
  have hbounds' := NormalForm.le_bounds (i := 0) (l := l) hs' (by omega)
  have hcell := NormalForm.cell_fill_shift mode hbounds (by omega)
    (fun _ _ => NormalForm.termFound_substring (plain_usefulTerms hg) hu h hscan hscan')
    l 0 hl (by omega)
  exact ⟨_, _, NormalForm.chart_of_scan mode hscan, NormalForm.chart_of_scan mode hscan', hcell⟩

end Grammar

/-- A literal of two characters next to shorter terminals, which may stick out of a span. -/
def stickingOut : Grammar where
  start := "S"
  productions := [⟨"S", [.literal "aa"]⟩, ⟨"S", [.charClass (.range 'a' 'b'), .nonterm "S"]⟩,
    ⟨"S", [.literal "a"]⟩]
  start_defined := ⟨_, .head _, rfl⟩
  closed := by simp [Production.references, Symbol.nonterm?, Symbol.literal, Symbol.charClass]

theorem plain_stickingOut : ∀ t ∈ stickingOut.terminals, t.Plain := by
  have hterminals : stickingOut.terminals =
    [.literal "aa", .charClass (.range 'a' 'b'), .literal "a"] := rfl
  simp only [hterminals, List.forall_mem_cons]
  exact ⟨.literal _, .charClass _, .literal _, by simp⟩

theorem cell_stickingOut : (∀ t ∈ stickingOut.terminals, t.Plain) ∧ 1 + 2 ≤ "baaa".toList.length ∧
    ∃ c c', stickingOut.normalForm.chart "baaa" .exhaustive = .ok c ∧
      stickingOut.normalForm.chart (String.ofList (("baaa".toList.drop 1).take 2)) .exhaustive =
        .ok c' ∧ c.cell 1 2 = c'.cell 0 2 :=
  ⟨plain_stickingOut, by decide,
    Grammar.cell_eq_cell_substring plain_stickingOut "baaa" .exhaustive (by decide) (by decide)⟩

/-- The span after the "b" has a match of both of its characters, and a split. -/
example : (stickingOut.normalForm.chart "baaa" .exhaustive).toOption.map (fun c => c.cell 1 2) =
    some [(0, [.term 0, .split 2 1]), (1, [.term 4, .split 5 1])] := by
  decide +kernel

end ContextFree
