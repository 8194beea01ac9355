import Mathlib.Computability.ContextFreeGrammar

/-! Rewriting and spelling. Rewriting symbols step by step ends in a sentence of terminals just if
the symbols spell it, each of them its own part: a terminal itself, a non-terminal what the
right-hand side of one of its rules spells. -/
namespace ContextFreeGrammar

variable {T N : Type}

/-- What rules rewrite: terminals and non-terminals. -/
abbrev Phrase (T N : Type) := List (Symbol T N)

/-- A phrase spells a sentence by some rules. -/
inductive Spells (rules : Finset (ContextFreeRule T N)) : Phrase T N → List T → Prop
  | nil : Spells rules [] []
  | terminal {t : T} {u : Phrase T N} {w : List T} (h : Spells rules u w) :
    Spells rules (.terminal t :: u) (t :: w)
  | nonterminal {r : ContextFreeRule T N} {u : Phrase T N} {v w : List T} (hr : r ∈ rules)
    (h : Spells rules r.output v) (hs : Spells rules u w) :
    Spells rules (.nonterminal r.input :: u) (v ++ w)

section Spells
variable {rules : Finset (ContextFreeRule T N)} {u v : Phrase T N} {w : List T}

@[simp] theorem spells_nil : Spells rules [] w ↔ w = [] := by
  constructor
  · intro h
    cases h
    rfl
  · rintro rfl
    exact .nil

theorem spells_terminal_cons {t : T} :
    Spells rules (.terminal t :: u) w ↔ ∃ w', w = t :: w' ∧ Spells rules u w' := by
  constructor
  · intro h
    cases h with
    | terminal h => exact ⟨_, rfl, h⟩
  · rintro ⟨w', rfl, h⟩
    exact .terminal h

theorem spells_nonterminal_cons {a : N} : Spells rules (.nonterminal a :: u) w ↔
    ∃ r ∈ rules, r.input = a ∧ ∃ w₁ w₂, w = w₁ ++ w₂ ∧ Spells rules r.output w₁ ∧
      Spells rules u w₂ := by
  constructor
  · intro h
    cases h with
    | nonterminal hr h hs => exact ⟨_, hr, rfl, _, _, rfl, h, hs⟩
  · rintro ⟨r, hr, rfl, w₁, w₂, rfl, h, hs⟩
    exact .nonterminal hr h hs

theorem spells_nonterminal {a : N} : Spells rules [.nonterminal a] w ↔
    ∃ r ∈ rules, r.input = a ∧ Spells rules r.output w := by
  simp [spells_nonterminal_cons]

/-- Phrases side by side spell sentences side by side. -/
theorem Spells.append {w' : List T} (h : Spells rules u w) (h' : Spells rules v w') :
    Spells rules (u ++ v) (w ++ w') := by
  induction h with
  | nil => exact h'
  | terminal _ ih => exact .terminal ih
  | nonterminal hr h _ _ ih =>
    rw [List.append_assoc]
    exact .nonterminal hr h ih

theorem spells_append : Spells rules (u ++ v) w ↔
    ∃ w₁ w₂, w = w₁ ++ w₂ ∧ Spells rules u w₁ ∧ Spells rules v w₂ := by
  constructor
  · intro h
    induction u generalizing w with
    | nil => exact ⟨[], w, rfl, .nil, h⟩
    | cons x u ih =>
      cases h with
      | terminal h =>
        obtain ⟨w₁, w₂, rfl, h₁, h₂⟩ := ih h
        exact ⟨_, w₂, rfl, .terminal h₁, h₂⟩
      | nonterminal hr h hs =>
        obtain ⟨w₁, w₂, rfl, h₁, h₂⟩ := ih hs
        exact ⟨_, w₂, (List.append_assoc _ w₁ w₂).symm, .nonterminal hr h h₁, h₂⟩
  · rintro ⟨w₁, w₂, rfl, h₁, h₂⟩
    exact h₁.append h₂

theorem spells_terminals (w : List T) : Spells rules (w.map .terminal) w := by
  induction w with
  | nil => exact .nil
  | cons t w ih => exact .terminal ih

end Spells

variable {g : ContextFreeGrammar T} {u v : Phrase T g.NT} {w : List T}

/-- Undoing one step of rewriting: the rule's right-hand side is spelled as a part. -/
theorem Spells.of_produces (h : g.Produces u v) (hs : Spells g.rules v w) :
    Spells g.rules u w := by
  obtain ⟨r, hr, hrewrites⟩ := h
  obtain ⟨p, q, rfl, rfl⟩ := hrewrites.exists_parts
  obtain ⟨w₁, w₃, rfl, hs, h₃⟩ := spells_append.1 hs
  obtain ⟨w₁, w₂, rfl, h₁, h₂⟩ := spells_append.1 hs
  exact (h₁.append (spells_nonterminal.2 ⟨r, hr, rfl, h₂⟩)).append h₃

theorem Spells.derives (h : Spells g.rules u w) : g.Derives u (w.map .terminal) := by
  induction h with
  | nil => exact .refl _
  | terminal _ ih => exact ih.append_left [_]
  | @nonterminal r u v w hr _ _ ih ihs =>
    have hstep : g.Produces (.nonterminal r.input :: u) (r.output ++ u) := ⟨r, hr, .head u⟩
    rw [List.map_append]
    exact hstep.trans_derives ((ih.append_right u).trans (ihs.append_left _))

/-- Symbols can be rewritten to a sentence just if they spell it. -/
theorem derives_iff_spells : g.Derives u (w.map .terminal) ↔ Spells g.rules u w := by
  constructor
  · intro h
    induction h using Relation.ReflTransGen.head_induction_on with
    | refl => exact spells_terminals w
    | head h _ ih => exact .of_produces h ih
  · exact Spells.derives

theorem mem_language_iff_spells :
    w ∈ g.language ↔ Spells g.rules [.nonterminal g.initial] w := by
  rw [mem_language_iff, derives_iff_spells]

end ContextFreeGrammar
