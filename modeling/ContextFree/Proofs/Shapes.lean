import ContextFree.Linear
import ContextFree.Proofs.Acyclic
import ContextFree.Proofs.Scanning
import Mathlib.Data.List.TakeWhile

/-! Right-hand sides over a word, without trees. What non-terminals derive is the least relation
that the productions are closed under, and the shapes of a linear grammar say the same as its
productions. -/
namespace ContextFree

/-- Whether a symbol derives the bytes between two offsets, given what non-terminals derive. -/
def Symbol.Spans [Pattern.Engine] (w : String) (known : String → Nat → Nat → Prop) :
    Symbol → Nat → Nat → Prop
  | nonterm name => known name
  | term t => t.Takes w

/-- Whether symbols derive the bytes between two offsets, each from where the one before ended. -/
def SpansAll [Pattern.Engine] (w : String) (known : String → Nat → Nat → Prop) :
    List Symbol → Nat → Nat → Prop
  | [], a, b => a = b
  | x :: xs, a, c => ∃ b, x.Spans w known a b ∧ SpansAll w known xs b c

section Spans
variable [Pattern.Engine] {w : String} {known known' : String → Nat → Nat → Prop}
  {xs ys : List Symbol} {ts : List Terminal} {a b c : Nat}

theorem spansAll_append : SpansAll w known (xs ++ ys) a c ↔
    ∃ b, SpansAll w known xs a b ∧ SpansAll w known ys b c := by
  induction xs generalizing a with
  | nil => simp [SpansAll]
  | cons x xs ih =>
    simp only [List.cons_append, SpansAll, ih]
    constructor
    · rintro ⟨d, hx, b, hxs, hys⟩
      exact ⟨b, ⟨d, hx, hxs⟩, hys⟩
    · rintro ⟨b, ⟨d, hx, hxs⟩, hys⟩
      exact ⟨d, hx, b, hxs, hys⟩

/-- What derives more spans more. -/
theorem SpansAll.imp (hk : ∀ name a b, known name a b → known' name a b)
    (h : SpansAll w known xs a b) : SpansAll w known' xs a b := by
  induction xs generalizing a with
  | nil => exact h
  | cons x xs ih =>
    obtain ⟨d, hx, hxs⟩ := h
    refine ⟨d, ?_, ih hxs⟩
    cases x with
    | nonterm name => exact hk name a d hx
    | term t => exact hx

/-- Empty literals do not matter. -/
theorem spansAll_filter : SpansAll w known (xs.filter (!·.isEmptyLiteral)) a b ↔
    SpansAll w known xs a b := by
  induction xs generalizing a with
  | nil => rfl
  | cons x xs ih =>
    cases hx : x.isEmptyLiteral with
    | false => simp [hx, SpansAll, ih]
    | true =>
      have spans {d : Nat} : x.Spans w known a d ↔ a = d := by
        cases x with
        | nonterm name => simp [Symbol.isEmptyLiteral] at hx
        | term t =>
          have ht : t.isEmpty = true := hx
          simp [Symbol.Spans, Terminal.Takes, ht]
      simp [hx, SpansAll, ih, spans]

/-- A relation that leads from boundaries to boundaries, and not backwards. -/
def KeepsBoundaries (w : String) (known : String → Nat → Nat → Prop) : Prop :=
  ∀ name a b, known name a b → a ∈ Text.bounds w → b ∈ Text.bounds w ∧ a ≤ b

theorem SpansAll.keepsBoundaries (hk : KeepsBoundaries w known) (ha : a ∈ Text.bounds w)
    (h : SpansAll w known xs a b) : b ∈ Text.bounds w ∧ a ≤ b := by
  induction xs generalizing a with
  | nil =>
    obtain rfl : a = b := h
    exact ⟨ha, Nat.le_refl a⟩
  | cons x xs ih =>
    obtain ⟨d, hx, hxs⟩ := h
    have hd : d ∈ Text.bounds w ∧ a ≤ d := by
      cases x with
      | nonterm name => exact hk name a d hx ha
      | term t => exact ⟨Terminal.Takes.mem_bounds hx ha, Terminal.Takes.le hx⟩
    obtain ⟨hb, hdb⟩ := ih hd.1 hxs
    exact ⟨hb, by omega⟩

/-- Only what non-terminals derive inside a span matters for the span. -/
theorem SpansAll.imp_within {first last : Nat} (hk : KeepsBoundaries w known) (ha : a ∈ Text.bounds w)
    (hfirst : first ≤ a) (hlast : b ≤ last)
    (himp : ∀ name c d, c ∈ Text.bounds w → first ≤ c → d ≤ last → known name c d →
      known' name c d) (h : SpansAll w known xs a b) : SpansAll w known' xs a b := by
  induction xs generalizing a with
  | nil => exact h
  | cons x xs ih =>
    obtain ⟨d, hx, hxs⟩ := h
    have hstep : SpansAll w known [x] a d := ⟨d, hx, rfl⟩
    have hd := hstep.keepsBoundaries hk ha
    have hdb := (hxs.keepsBoundaries hk hd.1).2
    refine ⟨d, ?_, ih hd.1 (by omega) hxs⟩
    cases x with
    | nonterm name => exact himp name a d ha hfirst (by omega) hx
    | term t => exact hx

/-- For terminals it does not matter what non-terminals derive. -/
theorem spansAll_terms :
    SpansAll w known (ts.map .term) a b ↔ SpansAll w known' (ts.map .term) a b := by
  induction ts generalizing a with
  | nil => rfl
  | cons t ts ih => simp [SpansAll, Symbol.Spans, ih]

end Spans

namespace Grammar
variable [Pattern.Engine]

/-- Whether a non-terminal derives the bytes between two offsets. -/
def Spans (g : Grammar) (w : String) (name : String) (a b : Nat) : Prop :=
  ∃ t, Derives g w (.nonterm name) a b t

variable {g : Grammar} {w : String}

theorem spans_symbol {x : Symbol} {a b : Nat} :
    x.Spans w (g.Spans w) a b ↔ ∃ t, Derives g w x a b t := by
  cases x with
  | nonterm name => rfl
  | term t =>
    constructor
    · intro h
      exact ⟨_, .term h⟩
    · rintro ⟨_, ⟨h⟩⟩
      exact h

theorem exists_derivesAll {xs : List Symbol} {a b : Nat} (h : SpansAll w (g.Spans w) xs a b) :
    ∃ ts, DerivesAll g w xs a b ts := by
  induction xs generalizing a with
  | nil =>
    obtain rfl : a = b := h
    exact ⟨[], .nil⟩
  | cons x xs ih =>
    obtain ⟨d, hx, hxs⟩ := h
    obtain ⟨t, ht⟩ := spans_symbol.1 hx
    obtain ⟨ts, hts⟩ := ih hxs
    exact ⟨t :: ts, .cons ht hts⟩

/-- Productions are closed under what they derive. -/
theorem Spans.of_production {p : Production} (hp : p ∈ g.productions) {a b : Nat}
    (h : SpansAll w (g.Spans w) p.rhs a b) : g.Spans w p.lhs a b := by
  obtain ⟨ts, hts⟩ := exists_derivesAll h
  exact ⟨_, .node hp hts⟩

mutual
theorem spans_of_derives {known : String → Nat → Nat → Prop}
    (closed : ∀ p ∈ g.productions, ∀ a b, SpansAll w known p.rhs a b → known p.lhs a b)
    {x : Symbol} {a b : Nat} {t : ParseTree} : Derives g w x a b t → x.Spans w known a b
  | .term h => h
  | .node hp h => closed _ hp _ _ (spansAll_of_derivesAll closed h)
theorem spansAll_of_derivesAll {known : String → Nat → Nat → Prop}
    (closed : ∀ p ∈ g.productions, ∀ a b, SpansAll w known p.rhs a b → known p.lhs a b)
    {xs : List Symbol} {a b : Nat} {ts : List ParseTree} :
    DerivesAll g w xs a b ts → SpansAll w known xs a b
  | .nil => rfl
  | .cons h hs => ⟨_, spans_of_derives closed h, spansAll_of_derivesAll closed hs⟩
end

/-- Whatever is closed under the productions has all that non-terminals derive. -/
theorem Spans.induction {known : String → Nat → Nat → Prop}
    (closed : ∀ p ∈ g.productions, ∀ a b, SpansAll w known p.rhs a b → known p.lhs a b)
    {name : String} {a b : Nat} (h : g.Spans w name a b) : known name a b := by
  obtain ⟨t, ht⟩ := h
  exact spans_of_derives closed ht

theorem Spans.le {name : String} {a b : Nat} (h : g.Spans w name a b) : a ≤ b := by
  obtain ⟨t, ht⟩ := h
  exact ht.le

theorem Spans.mem_bounds {name : String} {a b : Nat} (h : g.Spans w name a b)
    (ha : a ∈ Text.bounds w) : b ∈ Text.bounds w := by
  obtain ⟨t, ht⟩ := h
  exact ht.mem_bounds ha

/-- Every black box has an answer at the boundaries of a word, and a match that starts at a
boundary ends at one. -/
def AnswersBoundaries (g : Grammar) (w : String) : Prop :=
  ∀ b, .blackBox b ∈ g.terminals → ∀ p ∈ Text.bounds w,
    ∃ r, b.matcher w p = .ok r ∧ ∀ q, r = some q → q ∈ Text.bounds w

omit [Pattern.Engine] in
theorem AnswersBoundaries.answers (h : g.AnswersBoundaries w) : g.Answers w := by
  intro b hb p hp
  obtain ⟨r, hr, -⟩ := h b hb p hp
  exact ⟨r, hr⟩

end Grammar

namespace Matcher
variable {w : String} {p : Nat}
open Text

/-- What follows a boundary begins with a text just if the text leads on to a boundary. -/
theorem add_size_mem_bounds {cs before after : List Char} (h : rest w p = .ok cs)
    (hp : p ∈ bounds w) (hcs : cs = before ++ after) : p + size before ∈ bounds w := by
  obtain ⟨left, right, hw, rfl⟩ := mem_bounds.1 hp
  rw [rest, hw, charsFrom?_size, Except.ok.injEq] at h
  exact mem_bounds.2 ⟨left ++ before, after, by rw [hw, h, hcs, List.append_assoc], by simp⟩

/-- One character is matched up to the next boundary. -/
theorem exists_one_bounds (test : Char → Bool) (hp : p ∈ bounds w) :
    ∃ r, one test w p = .ok r ∧ ∀ q, r = some q → q ∈ bounds w := by
  obtain ⟨cs, hcs⟩ := rest_of_mem_bounds hp
  refine ⟨_, by rw [one, hcs]; rfl, fun q hq => ?_⟩
  obtain ⟨d, hd, rfl⟩ := Option.map_eq_some_iff.1 hq
  obtain ⟨hd, -⟩ := Option.filter_eq_some_iff.1 hd
  obtain ⟨after, rfl⟩ := List.head?_eq_some_iff.1 hd
  have hend : p + size [d] ∈ bounds w := add_size_mem_bounds hcs hp rfl
  simpa using hend

end Matcher

section Ends
variable [Pattern.Engine]

/-- Whatever the engine, a pattern matches up to a boundary. -/
theorem Pattern.mem_bounds_of_accept (s : Pattern) {w : String} {p q : Nat}
    (h : s.accept w p = some q) : q ∈ Text.bounds w := by
  unfold accept at h
  split at h
  · cases h
  · simp only [Option.bind_eq_some_iff, Option.map_eq_some_iff] at h
    obtain ⟨before, -, ⟨start, stop⟩, -, rfl⟩ := h
    exact Text.mem_bounds.2 ⟨_, _, (List.take_append_drop stop w.toList).symm, rfl⟩

/-- From the boundaries of a word a terminal has an answer, which is a boundary if it matches. -/
def Terminal.KeepsBoundaries (t : Terminal) (w : String) : Prop :=
  ∀ p ∈ Text.bounds w, ∃ r, t.accept w p = .ok r ∧ ∀ q, r = some q → q ∈ Text.bounds w

/-- Terminals keep boundaries if black boxes do. -/
theorem Terminal.keepsBoundaries {t : Terminal} {w : String}
    (hb : ∀ b, t = .blackBox b → ∀ p ∈ Text.bounds w,
      ∃ r, b.matcher w p = .ok r ∧ ∀ q, r = some q → q ∈ Text.bounds w) : t.KeepsBoundaries w := by
  intro p hp
  have hmatch : ∃ r, t.matcher w p = .ok r ∧ ∀ q, r = some q → q ∈ Text.bounds w := by
    cases t with
    | literal s =>
      obtain ⟨cs, hcs⟩ := Matcher.rest_of_mem_bounds hp
      refine ⟨_, by rw [Terminal.matcher, Matcher.literal, hcs]; rfl, fun q hq => ?_⟩
      split at hq
      · rename_i hs
        obtain ⟨after, rfl⟩ := List.isPrefixOf_iff_prefix.1 hs
        obtain rfl := Option.some.inj hq
        exact Matcher.add_size_mem_bounds hcs hp rfl
      · simp at hq
    | charClass c => exact Matcher.exists_one_bounds c.contains hp
    | pattern s =>
      exact ⟨_, rfl, fun _ => s.mem_bounds_of_accept⟩
    | blackBox b => exact hb b rfl p hp
  obtain ⟨r, hr, hbounds⟩ := hmatch
  refine ⟨_, by rw [Terminal.accept, hr]; rfl, fun q hq => ?_⟩
  exact hbounds q (Option.filter_eq_some_iff.1 hq).1

theorem Grammar.AnswersBoundaries.terminal {g : Grammar} {w : String} (h : g.AnswersBoundaries w)
    {t : Terminal} (ht : t ∈ g.terminals) : t.KeepsBoundaries w :=
  Terminal.keepsBoundaries fun b hb => h b (hb ▸ ht)

end Ends

namespace Shape

/-- The non-terminal of a shape, if there is one, and the terminals after it. -/
def rest (s : Shape) : List Symbol :=
  match s.inner with
  | none => []
  | some (name, after) => .nonterm name :: after.map .term

/-- The symbols that a shape stands for. -/
def symbols (s : Shape) : List Symbol := s.before.map .term ++ s.rest

theorem map_term_terminals {xs : List Symbol} (h : ∀ x ∈ xs, x.nonterm? = none) :
    (terminals xs).map .term = xs.filter (!·.isEmptyLiteral) := by
  induction xs with
  | nil => rfl
  | cons x xs ih =>
    have ih := ih fun y hy => h y (.tail _ hy)
    cases x with
    | nonterm name => exact absurd (h _ (.head _)) (by simp [Symbol.nonterm?])
    | term t =>
      cases ht : t.isEmpty <;>
        simpa [terminals, Symbol.term?, Symbol.isEmptyLiteral, ht] using ih

/-- Symbols are terminals only, or terminals up to a first non-terminal. -/
theorem terminals_or_first_nonterm (xs : List Symbol) : (∀ x ∈ xs, x.nonterm? = none) ∨
    ∃ before name after, xs = before ++ .nonterm name :: after ∧
      ∀ x ∈ before, x.nonterm? = none := by
  induction xs with
  | nil => simp
  | cons x xs ih =>
    cases x with
    | nonterm name => exact .inr ⟨[], name, xs, rfl, by simp⟩
    | term t =>
      rcases ih with h | ⟨before, name, after, rfl, h⟩
      · exact .inl (List.forall_mem_cons.2 ⟨rfl, h⟩)
      · exact .inr ⟨.term t :: before, name, after, rfl, List.forall_mem_cons.2 ⟨rfl, h⟩⟩

/-- A shape stands for the production without its empty literals. -/
theorem of_ofProduction? {p : Production} {s : Shape} (h : ofProduction? p = some s) :
    s.lhs = p.lhs ∧ s.symbols = p.rhs.filter (!·.isEmptyLiteral) := by
  obtain ⟨lhs, rhs⟩ := p
  rcases terminals_or_first_nonterm rhs with hall | ⟨before, name, after, rfl, hbefore⟩
  · have hrhs : rhs.takeWhile (·.nonterm?.isNone) = rhs :=
      List.takeWhile_eq_self_iff.2 fun x hx => by simp [hall x hx]
    simp only [ofProduction?, hrhs, List.drop_length, Option.some.injEq] at h
    subst h
    simp [symbols, rest, map_term_terminals hall]
  · have hrhs : (before ++ .nonterm name :: after).takeWhile (·.nonterm?.isNone) = before := by
      rw [List.takeWhile_append_of_pos fun x hx => by simp [hbefore x hx]]
      simp [Symbol.nonterm?]
    simp only [ofProduction?, hrhs, List.drop_left, List.all_eq_true,
      Option.isNone_iff_eq_none, Option.ite_none_right_eq_some, Option.some.injEq] at h
    obtain ⟨hafter, rfl⟩ := h
    simp [symbols, rest, map_term_terminals hbefore, map_term_terminals hafter, Symbol.isEmptyLiteral]

end Shape

namespace LinearGrammar
variable {lg : LinearGrammar} {w : String}

theorem exists_production {s : Shape} (hs : s ∈ lg.shapes) :
    ∃ p ∈ lg.grammar.productions, Shape.ofProduction? p = some s := by
  have h : some s ∈ lg.grammar.productions.map Shape.ofProduction? :=
    lg.shapes_eq ▸ List.mem_map_of_mem hs
  exact List.mem_map.1 h

theorem exists_shape {p : Production} (hp : p ∈ lg.grammar.productions) :
    ∃ s ∈ lg.shapes, Shape.ofProduction? p = some s := by
  have h : Shape.ofProduction? p ∈ lg.shapes.map some := lg.shapes_eq ▸ List.mem_map_of_mem hp
  obtain ⟨s, hs, he⟩ := List.mem_map.1 h
  exact ⟨s, hs, he.symm⟩

/-- Shapes are closed under what they derive. -/
theorem spans_of_shape [Pattern.Engine] {s : Shape} (hs : s ∈ lg.shapes) {a b : Nat}
    (h : SpansAll w (lg.grammar.Spans w) s.symbols a b) : lg.grammar.Spans w s.lhs a b := by
  obtain ⟨p, hp, hps⟩ := exists_production hs
  obtain ⟨hlhs, hsymbols⟩ := Shape.of_ofProduction? hps
  rw [hsymbols, spansAll_filter] at h
  exact hlhs ▸ .of_production hp h

/-- Whatever is closed under the shapes has all that non-terminals derive. -/
theorem spans_induction [Pattern.Engine] {known : String → Nat → Nat → Prop}
    (closed : ∀ s ∈ lg.shapes, ∀ a b, SpansAll w known s.symbols a b → known s.lhs a b)
    {name : String} {a b : Nat} (h : lg.grammar.Spans w name a b) : known name a b := by
  refine h.induction fun p hp a b hspans => ?_
  obtain ⟨s, hs, hps⟩ := exists_shape hp
  obtain ⟨hlhs, hsymbols⟩ := Shape.of_ofProduction? hps
  rw [← hlhs]
  exact closed s hs a b (by rwa [hsymbols, spansAll_filter])

end LinearGrammar
end ContextFree
