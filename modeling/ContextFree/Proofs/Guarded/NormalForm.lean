import ContextFree.Proofs.Expansion

/-! Guarded runs. The definitions of recognition and of parsing are total: where a table has no
entry they go on with a default. A guarded run computes the same, but at every look-up, slice and
choice that could fail it stops and says what it would have to do without. That guarded runs never
stop is what says that no default is ever used.

This module has the guarded normal form: every variant has a head and leads to a head, every
emission has a right-hand side, the isolated start comes first, and whatever a rule mentions has
the number of an entry. -/
namespace ContextFree

/-- What a run would have to do without. -/
inductive Lapse
  /-- A request that the text cannot answer, or a parse with another number of trees than one. -/
  | fault (f : Fault)
  /-- A terminal that is tried at an offset that is no boundary. -/
  | offBoundary (offset : Nat)
  /-- A non-terminal or a terminal that has no number. -/
  | noNonterm (n : Nonterm)
  | noTerm (k : Terminal.Key)
  /-- A number that has no entry in a table. -/
  | noEntry (number : Nat)
  /-- A unit variant, of which no rule is made. -/
  | noBody (variant : Nat)
  /-- A span that is not inside the word, or that is empty. -/
  | outside (first length : Nat)
  /-- A split that goes by a rule without a pair, or that leaves nothing for one side. -/
  | noSplit (rule first : Nat)
  /-- A variant that keeps more positions than there are parts. -/
  | noPart (variant : Nat)
  /-- A dropped non-terminal that is not nilable. -/
  | noProof (name : String)
  /-- A derivation of the whole word without a tree. -/
  | noTree

namespace Guarded

/-- What is there, or else a lapse. -/
def demand {α : Type} (o : Option α) (e : Lapse) : Except Lapse α := o.elim (.error e) .ok

@[simp] theorem demand_some {α : Type} (a : α) (e : Lapse) : demand (some a) e = .ok a := rfl

/-- Goes on where a condition holds. -/
def when {α : Type} (p : Prop) [Decidable p] (e : Lapse) (a : Except Lapse α) : Except Lapse α :=
  if p then a else .error e

theorem when_pos {α : Type} {p : Prop} [Decidable p] {e : Lapse} {a : Except Lapse α} (h : p) :
    when p e a = a := if_pos h

theorem mapM_eq_ok {α β : Type} {f : α → Except Lapse β} {f' : α → β} {l : List α}
    (h : ∀ a ∈ l, f a = .ok (f' a)) : l.mapM f = .ok (l.map f') := by
  induction l with
  | nil => rfl
  | cons a l ih =>
    obtain ⟨ha, hl⟩ := List.forall_mem_cons.1 h
    rw [List.mapM_cons, ha, ih hl]
    rfl

/-- If guards stop where the elements have an error, and nowhere else, so does the whole run. -/
theorem mapM_eq_mapError {α β ε : Type} {f : α → Except ε β} {f' : α → Except Lapse β}
    {e : ε → Lapse} {l : List α} (h : ∀ a ∈ l, f' a = (f a).mapError e) :
    l.mapM f' = (l.mapM f).mapError e := by
  induction l with
  | nil => rfl
  | cons a l ih =>
    obtain ⟨ha, hl⟩ := List.forall_mem_cons.1 h
    rw [List.mapM_cons, List.mapM_cons, ha, ih hl]
    cases f a with
    | error _ => rfl
    | ok b => cases l.mapM f <;> rfl

/-- The results for all elements, one after the other. -/
def gather {α β : Type} (f : α → Except Lapse (List β)) (l : List α) : Except Lapse (List β) :=
  return (← l.mapM f).flatten

theorem gather_eq_ok {α β : Type} {f : α → Except Lapse (List β)} {f' : α → List β} {l : List α}
    (h : ∀ a ∈ l, f a = .ok (f' a)) : gather f l = .ok (l.flatMap f') := by
  rw [gather, mapM_eq_ok h]
  rfl

/-- A variant belongs to a non-terminal of the grammar, and so does what it leads to. -/
def checkVariant (heads : List Nonterm) (v : Variant) : Except Lapse Unit :=
  when (v.head ∈ heads) (.noNonterm v.head) <|
    match v.unitTarget? with
    | some c => when (c ∈ heads) (.noNonterm c) (.ok ())
    | none => .ok ()

/-- The rules of an emission, whose variant has to have a right-hand side. -/
def emit (e : Emission) : Except Lapse (List NamedRule) := do
  let b ← demand e.variant.body? (.noBody e.variant.number)
  return e.variant.support ++ [⟨e.head, b, .derived e.units e.variant⟩]

/-- The place of a key, which has to be that of an entry. -/
def place {κ α : Type} [DecidableEq κ] [Coded κ] {key : α → κ} (r : Register key) (k : κ)
    (e : Lapse) : Except Lapse Nat := do
  let i ← demand (r.place? k) e
  when (i < r.size) (.noEntry i) (.ok i)

/-- A rule over numbers; all that it mentions has to have them. -/
def numberRule (nonterms : Roster Nonterm) (terms : Register Terminal.key) (r : NamedRule) :
    Except Lapse NumberedRule := do
  let number (n : Nonterm) := place nonterms n (.noNonterm n)
  let lhs ← number r.lhs
  match r.body with
  | .term k => return ⟨lhs, .term (← place terms k (.noTerm k)), r.origin⟩
  | .pair b c => return ⟨lhs, .pair (← number b) (← number c), r.origin⟩

def normalForm (a : Grammar.Analysis) : Except Lapse NormalForm := do
  let _ ← a.variants.mapM (checkVariant a.heads)
  let rules ← gather emit a.emissions
  let nonterms := a.nonterms
  let terms := a.terms
  let start ← place nonterms .start (.noNonterm .start)
  let numbered ← (Register.ofList NamedRule.tag rules).toList.mapM (numberRule nonterms terms)
  when (start = NormalForm.start) (.noNonterm .start) <| .ok {
    nonterms := nonterms.entries
    terms := terms.entries
    rules := prune NormalForm.start numbered
    acceptsEmpty := a.proofs.nilable (.nonterm a.grammar.start) }

end Guarded

theorem Register.placeOf_lt {κ α : Type} [DecidableEq κ] [Coded κ] {key : α → κ}
    {r : Register key} {k : κ} (hk : k ∈ r.toList.map key) : r.placeOf k < r.size := by
  obtain ⟨a, ha, -⟩ := exists_placeOf hk
  exact (List.getElem?_eq_some_iff.1 ha).1

variable {g : Grammar}

namespace Guarded

theorem place_eq {κ α : Type} [DecidableEq κ] [Coded κ] {key : α → κ} {r : Register key} {k : κ}
    (hk : k ∈ r.toList.map key) (e : Lapse) : place r k e = .ok (r.placeOf k) := by
  obtain ⟨i, hi⟩ := Option.isSome_iff_exists.1 (Register.has_iff.2 hk)
  have hplace : r.placeOf k = i := by rw [Register.placeOf, hi, Option.getD_some]
  have hlt := Register.placeOf_lt hk
  rw [place, hi, demand_some]
  simp only [bind, Except.bind]
  rw [← hplace, when_pos hlt]

theorem place_nonterm {n : Nonterm} {xs : List Symbol} (h : Stands g n xs) (e : Lapse) :
    place g.analysis.nonterms n e = .ok (g.number n) := by
  apply place_eq
  rw [List.map_id]
  exact h.mem_nonterms

theorem checkVariant_eq {v : Variant} (hv : v ∈ g.ownVariants) :
    checkVariant g.heads v = .ok () := by
  rw [checkVariant, when_pos (Grammar.head_mem_heads hv)]
  split
  · rename_i c hc
    exact when_pos (unitTarget_mem_heads g v hv c hc)
  · rfl

/-- What is emitted is no unit variant. -/
theorem emit_eq {e : Emission} (he : e ∈ g.analysis.emissions) : emit e = .ok e.rules := by
  obtain ⟨-, -, hv, hunit⟩ := emitted_of_mem he
  obtain ⟨b, hb, -⟩ := exists_body hv hunit
  rw [emit, Emission.rules, Emission.rule?, hb]
  rfl

theorem numberRule_eq {r : NamedRule} (hr : r ∈ g.analysis.rules) :
    numberRule g.analysis.nonterms g.analysis.terms r = .ok (r.map g.number g.termNumber) := by
  obtain ⟨xs, hxs⟩ := stands_lhs hr
  obtain ⟨zs, hzs⟩ := exists_bodyStands hr
  rcases r with ⟨lhs, body, origin⟩
  cases hzs with
  | @term v t hv ht =>
    simp only [numberRule, place_nonterm hxs, place_eq (key_mem_terms hv ht)]
    rfl
  | pair hb hc =>
    simp only [numberRule, place_nonterm hxs, place_nonterm hb, place_nonterm hc]
    rfl

/-- The guarded normal form is the normal form. -/
theorem normalForm_eq (g : Grammar) : normalForm g.analysis = .ok g.normalForm := by
  have hvariants : g.analysis.variants.mapM (checkVariant g.analysis.heads) = .ok _ :=
    mapM_eq_ok fun _ hv => checkVariant_eq hv
  have hemit : gather emit g.analysis.emissions = .ok _ := gather_eq_ok fun _ he => emit_eq he
  have hstart : place g.analysis.nonterms .start (.noNonterm .start) = .ok _ :=
    place_nonterm .start _
  have hnumber : g.analysis.rules.mapM
      (numberRule g.analysis.nonterms g.analysis.terms) = .ok _ :=
    mapM_eq_ok fun _ hr => numberRule_eq hr
  rw [Grammar.Analysis.rules] at hnumber
  simp only [normalForm, hvariants, hemit, hstart, bind, Except.bind, hnumber]
  exact when_pos g.number_start

end Guarded
end ContextFree
