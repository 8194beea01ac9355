import ContextFree.Proofs.Recognition
import ContextFree.Proofs.Shapes
import Mathlib.Data.List.Perm.Subperm

/-! Recognition by a linear grammar. The rounds over a span end with all non-terminals that derive
it, given those that derive the spans inside it. So both recognizers accept the same words. -/
namespace ContextFree

section Walks
variable [Pattern.Engine]

/-- No match of a terminal from a boundary ends inside a character. It may end past the word. -/
def Terminal.EntersNoCharacter (t : Terminal) (w : String) : Prop :=
  ∀ p ∈ Text.bounds w, ∀ q, t.accept w p = .ok (some q) → q ≤ Text.size w.toList →
    q ∈ Text.bounds w

theorem Terminal.KeepsBoundaries.entersNoCharacter {t : Terminal} {w : String}
    (h : t.KeepsBoundaries w) : t.EntersNoCharacter w := by
  intro p hp q hq _
  obtain ⟨r, hr, hbounds⟩ := h p hp
  exact hbounds q (Except.ok.inj (hr.symm.trans hq))

/-- Whether terminals can be walked along: none is the empty literal, all have answers at
boundaries, and none but the last ends a match inside a character. -/
structure Walkable (w : String) (ts : List Terminal) : Prop where
  answers : ∀ t ∈ ts, t.isEmpty = false ∧ ∀ p ∈ Text.bounds w, ∃ r, t.accept w p = .ok r
  dropLast : ∀ t ∈ ts.dropLast, t.EntersNoCharacter w

namespace Walkable
variable {w : String} {t : Terminal} {ts : List Terminal}

theorem tail (h : Walkable w (t :: ts)) : Walkable w ts where
  answers u hu := h.answers u (.tail _ hu)
  dropLast u hu := by
    cases ts with
    | nil => simp at hu
    | cons v vs => exact h.dropLast u (.tail _ hu)

/-- What follows a match starts at a boundary, if anything follows. -/
theorem eq_nil (h : Walkable w (t :: ts)) {p q : Nat} (hp : p ∈ Text.bounds w)
    (ht : t.accept w p = .ok (some q)) (hq : q ≤ Text.size w.toList) (hne : q ∉ Text.bounds w) :
    ts = [] := by
  cases ts with
  | nil => rfl
  | cons v vs => exact (hne (h.dropLast t (.head _) p hp q ht hq)).elim

end Walkable

namespace Walk
variable {w : String} {ts : List Terminal}

theorem getElem?_fromAll {i p : Nat} (hi : (Text.bounds w)[i]? = some p) :
    (fromAll w (Text.bounds w) ts)[i]?.getD .stuck = along w (Text.bounds w) ts p := by
  simp [fromAll, hi]

section Terminals
variable {known : String → Nat → Nat → Prop} {p q : Nat}

/-- Terminals go on from where a match of the first ends, which has to be a boundary. -/
theorem spansAll_cons_iff {t : Terminal} {r : Option Nat} (hne : t.isEmpty = false)
    (hr : t.accept w p = .ok r) : SpansAll w known ((t :: ts).map .term) p q ↔
      ∃ d, r = some d ∧ d ∈ Text.bounds w ∧ SpansAll w known (ts.map .term) d q := by
  have takes {d : Nat} : t.Takes w p d ↔ r = some d ∧ d ∈ Text.bounds w := by
    simp [Terminal.Takes, hne, hr, and_comm]
  simp only [List.map_cons, SpansAll, Symbol.Spans, takes, and_assoc]

/-- Terminals never go back. -/
theorem le_of_spansAll (hp : p ∈ Text.bounds w) (h : SpansAll w known (ts.map .term) p q) :
    p ≤ q := by
  have h : SpansAll w (fun _ _ _ => False) (ts.map .term) p q := spansAll_terms.1 h
  exact (h.keepsBoundaries (fun _ _ _ hf => hf.elim) hp).2

end Terminals

/-- A walk within a limit reaches what the terminals take, if that is not beyond the limit. -/
theorem exists_within (known : String → Nat → Nat → Prop) (hts : Walkable w ts) {p limit : Nat}
    (hp : p ∈ Text.bounds w) (hlimit : p ≤ limit) (hsize : limit ≤ Text.size w.toList) :
    ∃ r, (along w (Text.bounds w) ts p).within limit = .ok r ∧
      ∀ k, r = some k ↔ ∃ q, (Text.bounds w)[k]? = some q ∧ q ≤ limit ∧
        SpansAll w known (ts.map .term) p q := by
  induction ts generalizing p with
  | nil =>
    refine ⟨_, rfl, fun k => ?_⟩
    rw [idxOf?_bounds]
    constructor
    · intro hk
      exact ⟨p, hk, hlimit, rfl⟩
    · rintro ⟨q, hq, -, rfl⟩
      exact hq
  | cons t ts ih =>
    obtain ⟨hne, hanswers⟩ := hts.answers t (.head _)
    obtain ⟨r, hr⟩ := hanswers p hp
    simp only [spansAll_cons_iff hne hr]
    cases r with
    | none => exact ⟨none, by rw [along, hr]; rfl, by simp⟩
    | some d =>
      have hstep : (along w (Text.bounds w) (t :: ts) p).within limit =
          if limit < d then .ok none else (along w (Text.bounds w) ts d).within limit := by
        rw [along, hr]
        rfl
      rw [hstep]
      by_cases hd : d ∈ Text.bounds w
      · split
        · have hbeyond {q : Nat} (hq : q ≤ limit) : ¬ SpansAll w known (ts.map .term) d q := by
            intro h
            have := le_of_spansAll hd h
            omega
          exact ⟨none, rfl, by simp +contextual [hbeyond]⟩
        · obtain ⟨r, hr, hspec⟩ := ih hts.tail hd (by omega)
          exact ⟨r, hr, by simp [hspec, hd]⟩
      · -- Inside a character only the last terminal arrives, which ends the walk.
        refine ⟨none, ?_, by simp [hd]⟩
        split
        · rfl
        · obtain rfl := hts.eq_nil hp hr (by omega) hd
          rw [along, within, List.idxOf?_eq_none_iff.2 hd]

end Walk

namespace Shape
variable {s : Shape} {w : String}

/-- The runs of terminals of a shape: before the non-terminal, and after it if there is one. -/
def runs (s : Shape) : List (List Terminal) := s.before :: (s.inner.map (·.2)).toList

/-- Whether all runs of a shape can be walked along. -/
def Walkable (s : Shape) (w : String) : Prop := ∀ ts ∈ s.runs, ContextFree.Walkable w ts

theorem Walkable.before (h : s.Walkable w) : ContextFree.Walkable w s.before := h _ (.head _)

theorem Walkable.after (h : s.Walkable w) {name : String} {after : List Terminal}
    (hinner : s.inner = some (name, after)) : ContextFree.Walkable w after :=
  h _ (by simp [runs, hinner])

omit [Pattern.Engine] in
/-- The terminals of runs are symbols of the shape. -/
theorem term_mem_symbols {ts : List Terminal} (hts : ts ∈ s.runs) {t : Terminal} (ht : t ∈ ts) :
    .term t ∈ s.symbols := by
  rcases List.mem_cons.1 hts with rfl | hts
  · simp [symbols, ht]
  · obtain ⟨e, hinner, rfl⟩ := Option.map_eq_some_iff.1 (Option.mem_toList.1 hts)
    simp [symbols, rest, hinner, ht]

/-- A shape derives a span if the rest does from where the walk of the terminals before arrives. -/
theorem spansAll_symbols_iff {known : String → Nat → Nat → Prop} (hknown : KeepsBoundaries w known)
    {p q : Nat} (hp : p ∈ Text.bounds w) {r : Option Nat}
    (hreach : ∀ k, r = some k ↔ ∃ c, (Text.bounds w)[k]? = some c ∧ c ≤ q ∧
      SpansAll w known (s.before.map .term) p c) :
    SpansAll w known s.symbols p q ↔ ∃ k c, r = some k ∧ (Text.bounds w)[k]? = some c ∧
      SpansAll w known s.rest c q := by
  rw [symbols, spansAll_append]
  constructor
  · rintro ⟨c, hbefore, hrest⟩
    have hc := (hbefore.keepsBoundaries hknown hp).1
    have hcq := (hrest.keepsBoundaries hknown hc).2
    obtain ⟨k, hk⟩ := List.mem_iff_getElem?.1 hc
    exact ⟨k, c, (hreach k).2 ⟨c, hk, hcq, hbefore⟩, hk, hrest⟩
  · rintro ⟨k, c, hrk, hk, hrest⟩
    obtain ⟨c', hc', -, hbefore⟩ := (hreach k).1 hrk
    obtain rfl := Option.some.inj (hc'.symm.trans hk)
    exact ⟨c', hbefore, hrest⟩

end Shape
end Walks

namespace LinearGrammar

theorem exists_anyOf {ε : Type} {test : Nat → Except ε Bool} {P : Nat → Prop} (ms : List Nat)
    (h : ∀ m ∈ ms, ∃ b, test m = .ok b ∧ (b = true ↔ P m)) :
    ∃ b, anyOf test ms = .ok b ∧ (b = true ↔ ∃ m ∈ ms, P m) := by
  induction ms with
  | nil => exact ⟨false, rfl, by simp⟩
  | cons m ms ih =>
    obtain ⟨⟨b, hb, hm⟩, hms⟩ := List.forall_mem_cons.1 h
    obtain ⟨c, hc, hrest⟩ := ih hms
    cases b with
    | true => exact ⟨true, by rw [anyOf, hb]; rfl, by simp [← hm]⟩
    | false =>
      refine ⟨c, by rw [anyOf, hb]; exact hc, ?_⟩
      simp [hrest, ← hm]

section Recognition
variable [Pattern.Engine] {lg : LinearGrammar} {w : String} {d : Derived}
  {here : List String} {i j p q : Nat}

/-- What is known inside the span between two boundaries, while the span itself is settled. -/
def KnownWithin (w : String) (d : Derived) (here : List String) (i j : Nat) (name : String)
    (a b : Nat) : Prop :=
  ∃ k m, (Text.bounds w)[k]? = some a ∧ (Text.bounds w)[m]? = some b ∧ i ≤ k ∧ k ≤ m ∧ m ≤ j ∧
    name ∈ if k = i ∧ m = j then here else d.names k m

omit [Pattern.Engine] in
theorem keepsBoundaries_knownWithin : KeepsBoundaries w (KnownWithin w d here i j) := by
  rintro name a b ⟨k, m, hk, hm, -, hkm, -, -⟩ -
  have := Text.bounds_lt_iff hm hk
  exact ⟨List.mem_of_getElem? hm, by omega⟩

section Derives
variable (d here i) (hi : (Text.bounds w)[i]? = some p) (hj : (Text.bounds w)[j]? = some q)
include hj

/-- What comes of a non-terminal up to a boundary, if the terminals after it go on to the end of
the span. -/
theorem exists_attempt (name : String) {after : List Terminal} (hafter : Walkable w after)
    (k : Nat) {m : Nat} (hmj : m ≤ j) :
    ∃ b, (do
        let known := if k = i && m = j then here else d.names k m
        if known.contains name then
          return (← ((Walk.fromAll w (Text.bounds w) after)[m]?.getD .stuck).within q) == some j
        else pure false : Except Fault Bool) = .ok b ∧
      (b = true ↔ (name ∈ if k = i ∧ m = j then here else d.names k m) ∧
        ∃ e, (Text.bounds w)[m]? = some e ∧
          SpansAll w (KnownWithin w d here i j) (after.map .term) e q) := by
  have hlen := (List.getElem?_eq_some_iff.1 hj).1
  obtain ⟨e, he⟩ : ∃ e, (Text.bounds w)[m]? = some e := ⟨_, List.getElem?_eq_getElem (by omega)⟩
  have heq : e ≤ q := by
    have := Text.bounds_lt_iff hj he
    omega
  obtain ⟨r, hr, hreach⟩ := Walk.exists_within (KnownWithin w d here i j) hafter
    (List.mem_of_getElem? he) heq (Text.le_size (List.mem_of_getElem? hj))
  have hend : r = some j ↔ SpansAll w (KnownWithin w d here i j) (after.map .term) e q := by
    rw [hreach]
    simp [hj]
  by_cases hname : name ∈ if k = i ∧ m = j then here else d.names k m
  · refine ⟨r == some j, ?_, by simp [hname, hend, he]⟩
    simp only [Walk.getElem?_fromAll he, hr, bind_pure_comp, Bool.and_eq_true, decide_eq_true_eq,
      List.contains_iff_mem, if_pos hname]
    rfl
  · refine ⟨false, ?_, by simp [hname]⟩
    simp only [Bool.and_eq_true, decide_eq_true_eq, List.contains_iff_mem, if_neg hname]
    rfl

/-- The attempts at all boundaries up to the end of the span. -/
theorem exists_attempts (name : String) {after : List Terminal} (hafter : Walkable w after)
    {k c : Nat} (hk : (Text.bounds w)[k]? = some c) (hik : i ≤ k) :
    ∃ b, anyOf (fun m => do
        let known := if k = i && m = j then here else d.names k m
        if known.contains name then
          return (← ((Walk.fromAll w (Text.bounds w) after)[m]?.getD .stuck).within q) == some j
        else pure false) (List.range' k (j + 1 - k)) = Except.ok (ε := Fault) b ∧
      (b = true ↔ SpansAll w (KnownWithin w d here i j) (.nonterm name :: after.map .term) c q) := by
  obtain ⟨b, hb, hany⟩ := exists_anyOf (List.range' k (j + 1 - k)) fun m hm =>
    have hmj : m ≤ j := by
      rw [List.mem_range'_1] at hm
      omega
    exists_attempt d here i hj name hafter k hmj
  refine ⟨b, hb, hany.trans ?_⟩
  constructor
  · rintro ⟨m, hm, hname, e, he, hspans⟩
    rw [List.mem_range'_1] at hm
    exact ⟨e, ⟨k, m, hk, he, hik, hm.1, by omega, hname⟩, hspans⟩
  · rintro ⟨e, ⟨k', m, hk', he, -, hkm, hmj, hname⟩, hspans⟩
    obtain rfl := (Text.bounds_eq_iff hk hk').1 rfl
    exact ⟨m, List.mem_range'_1.2 ⟨hkm, by omega⟩, hname, e, he, hspans⟩

include hi

/-- A shape is found to derive a span if it does by what is known. -/
theorem exists_derives {s : Shape} (hs : s.Walkable w) (hij : i ≤ j) :
    ∃ b, derives d here i j q (s.lay w (Text.bounds w)) = .ok b ∧
      (b = true ↔ SpansAll w (KnownWithin w d here i j) s.symbols p q) := by
  have hp := List.mem_of_getElem? hi
  have hpq : p ≤ q := by
    have := Text.bounds_lt_iff hj hi
    omega
  obtain ⟨r, hr, hreach⟩ := Walk.exists_within (KnownWithin w d here i j) hs.before hp hpq
    (Text.le_size (List.mem_of_getElem? hj))
  have hwalk : ((s.lay w (Text.bounds w)).before[i]?.getD .stuck).within q = .ok r := by
    rw [Shape.lay, Walk.getElem?_fromAll hi, hr]
  rw [Shape.spansAll_symbols_iff keepsBoundaries_knownWithin hp hreach, derives, hwalk]
  cases r with
  | none => exact ⟨false, rfl, by simp⟩
  | some k =>
    obtain ⟨c, hk, hcq, hbefore⟩ := (hreach k).1 rfl
    have hik : i ≤ k := by
      have := (hbefore.keepsBoundaries keepsBoundaries_knownWithin hp).2
      have := Text.bounds_lt_iff hk hi
      omega
    simp only [Option.some.injEq, exists_and_left, exists_eq_left', hk, Shape.rest]
    cases hinner : s.inner with
    | none =>
      refine ⟨k == j, by simp [Shape.lay, hinner, bind, Except.bind, pure, Except.pure], ?_⟩
      rw [beq_iff_eq, ← Text.bounds_eq_iff hk hj]
      rfl
    | some e =>
      obtain ⟨name, after⟩ := e
      obtain ⟨b, hb, hany⟩ := exists_attempts d here i hj name (hs.after hinner) hk hik
      refine ⟨b, ?_, hany⟩
      rw [← hb]
      simp [Shape.lay, hinner, bind, Except.bind]

end Derives

/-- The shapes over a word. -/
def laid (lg : LinearGrammar) (w : String) : List Shape.Laid :=
  lg.shapes.map (Shape.lay w (Text.bounds w))

@[simp] theorem length_laid : (lg.laid w).length = lg.shapes.length := List.length_map _

/-- What is true of the names found so far for the span between two offsets. -/
structure Settling (lg : LinearGrammar) (w : String) (p q : Nat) (here : List String) : Prop where
  nodup : here.Nodup
  subset : here ⊆ lg.shapes.map Shape.lhs
  sound : ∀ name ∈ here, lg.grammar.Spans w name p q

theorem Settling.length_le (h : Settling lg w p q here) : here.length ≤ lg.shapes.length := by
  simpa using (List.subperm_of_subset h.nodup h.subset).length_le

/-- What a table has for spans of lengths below some length is exactly what derives them. -/
def Exact (lg : LinearGrammar) (w : String) (d : Derived) (l : Nat) : Prop :=
  ∀ i j p q, (Text.bounds w)[i]? = some p → (Text.bounds w)[j]? = some q → i ≤ j → j < i + l →
    ∀ name, name ∈ d.names i j ↔ lg.grammar.Spans w name p q

section Cell
variable {l : Nat} (hd : Exact lg w d l) (hi : (Text.bounds w)[i]? = some p)
  (hj : (Text.bounds w)[i + l]? = some q)
include hd hi hj

/-- What is known inside a span is true. -/
theorem spans_of_knownWithin (hhere : Settling lg w p q here) {name : String} {a b : Nat}
    (h : KnownWithin w d here i (i + l) name a b) : lg.grammar.Spans w name a b := by
  obtain ⟨k, m, hk, hm, hik, hkm, hmj, hname⟩ := h
  split at hname
  · rename_i hkm
    obtain rfl := (Text.bounds_eq_iff hk hi).2 hkm.1
    obtain rfl := (Text.bounds_eq_iff hm hj).2 hkm.2
    exact hhere.sound name hname
  · exact (hd k m a b hk hm hkm (by omega) name).1 hname

/-- One more name that is derived by what is known. -/
theorem Settling.concat (hhere : Settling lg w p q here) {s : Shape} (hs : s ∈ lg.shapes)
    (hnew : s.lhs ∉ here)
    (h : SpansAll w (KnownWithin w d here i (i + l)) s.symbols p q) :
    Settling lg w p q (here ++ [s.lhs]) where
  nodup := hhere.nodup.append (List.nodup_singleton _) (by simpa using hnew)
  subset := List.append_subset.2 ⟨hhere.subset, by simpa using ⟨s, hs, rfl⟩⟩
  sound := by
    have hspans := spans_of_shape hs
      (h.imp fun name a b hk => spans_of_knownWithin hd hi hj hhere hk)
    simpa [or_imp, forall_and] using ⟨hhere.sound, hspans⟩

/-- When no shape derives the span by what is known except those that are found, everything that
derives it is found. -/
theorem mem_settled (hhere : Settling lg w p q here)
    (hall : ∀ s ∈ lg.shapes, SpansAll w (KnownWithin w d here i (i + l)) s.symbols p q →
      s.lhs ∈ here) (name : String) : name ∈ here ↔ lg.grammar.Spans w name p q := by
  refine ⟨hhere.sound name, fun h => ?_⟩
  -- Over other spans the relation says nothing but that they are derived.
  let known (name : String) (a b : Nat) : Prop :=
    lg.grammar.Spans w name a b ∧ (a = p → b = q → name ∈ here)
  have hk : KeepsBoundaries w known := fun _ a b h ha => ⟨h.1.mem_bounds ha, h.1.le⟩
  have hknown : known name p q := by
    refine spans_induction (fun s hs a b hspans => ?_) h
    refine ⟨spans_of_shape hs (hspans.imp fun _ _ _ h => h.1), ?_⟩
    rintro rfl rfl
    have ha := List.mem_of_getElem? hi
    refine hall s hs (hspans.imp_within hk ha (Nat.le_refl _) (Nat.le_refl _) ?_)
    intro name c e hc hac heb hce
    obtain ⟨k, hkc⟩ := List.mem_iff_getElem?.1 hc
    obtain ⟨m, hme⟩ := List.mem_iff_getElem?.1 (hk _ _ _ hce hc).1
    have hle := (hk _ _ _ hce hc).2
    have hik := Text.bounds_lt_iff hkc hi
    have hkm := Text.bounds_lt_iff hme hkc
    have hmj := Text.bounds_lt_iff hj hme
    refine ⟨k, m, hkc, hme, by omega, by omega, by omega, ?_⟩
    split
    · rename_i heq
      exact hce.2 ((Text.bounds_eq_iff hkc hi).2 heq.1) ((Text.bounds_eq_iff hme hj).2 heq.2)
    · exact (hd k m c e hkc hme (by omega) (by omega) name).2 hce.1
  exact hknown.2 rfl rfl

variable (hw : ∀ s ∈ lg.shapes, s.Walkable w)
include hw

/-- A round only appends, and if it appends nothing, no shape derives more. -/
theorem exists_round {ss : List Shape} (hss : ss ⊆ lg.shapes) (hhere : Settling lg w p q here) :
    ∃ next, round d i (i + l) q (ss.map (Shape.lay w (Text.bounds w))) here = .ok next ∧
      here <+: next ∧ Settling lg w p q next ∧ (next = here → ∀ s ∈ ss,
        SpansAll w (KnownWithin w d here i (i + l)) s.symbols p q → s.lhs ∈ here) := by
  induction ss generalizing here with
  | nil => exact ⟨here, rfl, List.prefix_refl _, hhere, by simp⟩
  | cons s ss ih =>
    obtain ⟨hs, hss⟩ := List.cons_subset.1 hss
    rw [List.map_cons, round]
    by_cases hnew : s.lhs ∈ here
    · obtain ⟨next, hround, hpre, hnext, hlast⟩ := ih hss hhere
      refine ⟨next, ?_, hpre, hnext, fun he => List.forall_mem_cons.2 ⟨fun _ => hnew, hlast he⟩⟩
      rw [if_pos (by simpa [Shape.lay] using hnew)]
      exact hround
    · obtain ⟨b, hb, hspans⟩ := exists_derives d here i hi hj (hw s hs) (Nat.le_add_right i l)
      rw [if_neg (by simpa [Shape.lay] using hnew), hb]
      cases b with
      | true =>
        have hspans := hspans.1 rfl
        obtain ⟨next, hround, hpre, hnext, -⟩ := ih hss (hhere.concat hd hi hj hs hnew hspans)
        refine ⟨next, hround, (List.prefix_append _ _).trans hpre, hnext, ?_⟩
        rintro rfl
        have := hpre.length_le
        simp at this
      | false =>
        obtain ⟨next, hround, hpre, hnext, hlast⟩ := ih hss hhere
        exact ⟨next, hround, hpre, hnext, fun he => List.forall_mem_cons.2
          ⟨fun h => absurd (hspans.2 h) (by simp), hlast he⟩⟩

/-- Rounds end with what derives the span. -/
theorem exists_settle (fuel : Nat) (hhere : Settling lg w p q here)
    (hfuel : lg.shapes.length ≤ here.length + fuel) :
    ∃ settled, settle d i (i + l) q (lg.laid w) fuel here = .ok settled ∧
      ∀ name, name ∈ settled ↔ lg.grammar.Spans w name p q := by
  induction fuel generalizing here with
  | zero =>
    -- All names are there, so another round would append nothing.
    obtain ⟨next, -, hpre, hnext, hlast⟩ := exists_round hd hi hj hw (List.Subset.refl _) hhere
    have := hnext.length_le
    have := hpre.length_le
    have hend := hpre.eq_of_length (by omega)
    exact ⟨here, rfl, mem_settled hd hi hj hhere (hlast hend.symm)⟩
  | succ fuel ih =>
    obtain ⟨next, hround, hpre, hnext, hlast⟩ :=
      exists_round hd hi hj hw (List.Subset.refl _) hhere
    have hround : round d i (i + l) q (lg.laid w) here = .ok next := hround
    rw [settle, hround]
    by_cases hlen : next.length = here.length
    · have hend := hpre.eq_of_length hlen.symm
      refine ⟨here, ?_, mem_settled hd hi hj hhere (hlast hend.symm)⟩
      simp [bind, Except.bind, hlen, pure, Except.pure]
    · have := hpre.length_le
      obtain ⟨settled, hsettle, hmem⟩ := ih hnext (by omega)
      refine ⟨settled, ?_, hmem⟩
      simpa [bind, Except.bind, hlen] using hsettle

end Cell

/-- A row, which has what derives each span of one length. -/
theorem exists_row (hw : ∀ s ∈ lg.shapes, s.Walkable w) {l : Nat} (hd : Exact lg w d l) :
    ∃ row : List (List String), ((Text.bounds w).drop l).zipIdx.mapM (fun e =>
        settle d e.2 (e.2 + l) e.1 (lg.laid w) (lg.laid w).length []) = .ok row ∧
      ∀ i p q, (Text.bounds w)[i]? = some p → (Text.bounds w)[i + l]? = some q →
        ∃ settled, row[i]? = some settled ∧
          ∀ name, name ∈ settled ↔ lg.grammar.Spans w name p q := by
  have hcell {i p q : Nat} (hi : (Text.bounds w)[i]? = some p)
      (hj : (Text.bounds w)[i + l]? = some q) :=
    exists_settle hd hi hj hw (lg.laid w).length
      (⟨List.nodup_nil, List.nil_subset _, by simp⟩ : Settling lg w p q []) (by simp)
  obtain ⟨row, hrow, hget⟩ := exists_mapM (l := ((Text.bounds w).drop l).zipIdx)
    (f := fun e => settle d e.2 (e.2 + l) e.1 (lg.laid w) (lg.laid w).length []) fun e he => by
    have hj : (Text.bounds w)[e.2 + l]? = some e.1 := by
      rw [← List.mem_zipIdx_iff_getElem?.1 he, List.getElem?_drop, Nat.add_comm]
    have hlen := (List.getElem?_eq_some_iff.1 hj).1
    obtain ⟨settled, hsettle, -⟩ := hcell (List.getElem?_eq_getElem (by omega)) hj
    exact ⟨settled, hsettle⟩
  refine ⟨row, hrow, fun i p q hi hj => ?_⟩
  obtain ⟨settled, hrow, hsettle⟩ := hget i (q, i) (by
    simp [List.getElem?_zipIdx, List.getElem?_drop, Nat.add_comm l i, hj])
  obtain ⟨settled', hsettle', hmem⟩ := hcell hi hj
  obtain rfl := Except.ok.inj (hsettle.symm.trans hsettle')
  exact ⟨settled, hrow, hmem⟩

omit [Pattern.Engine] in
theorem derivedBelow_succ (ss : List Shape.Laid) (bounds : List Nat) (l : Nat) :
    derivedBelow ss bounds (l + 1) = (do
      let d ← derivedBelow ss bounds l
      let row ← (bounds.drop l).zipIdx.mapM fun e =>
        settle d e.2 (e.2 + l) e.1 ss ss.length []
      pure (d.push row.toArray)) :=
  rfl

/-- A table for spans of lengths below some length is exact. -/
theorem exists_derivedBelow (hw : ∀ s ∈ lg.shapes, s.Walkable w) (l : Nat) :
    ∃ d, derivedBelow (lg.laid w) (Text.bounds w) l = .ok d ∧
      d.size = l ∧ Exact lg w d l := by
  induction l with
  | zero =>
    refine ⟨#[], rfl, rfl, fun i j p q _ _ hij hlt => ?_⟩
    omega
  | succ l ih =>
    obtain ⟨d, hd, hsize, hexact⟩ := ih
    obtain ⟨row, hrow, hget⟩ := exists_row hw hexact
    refine ⟨d.push row.toArray, ?_, by simp [hsize], fun i j p q hi hj hij hlt name => ?_⟩
    · simp only [derivedBelow_succ, hd, hrow, bind, Except.bind]
      rfl
    · by_cases hl : j = i + l
      · subst hl
        obtain ⟨settled, hsettled, hmem⟩ := hget i p q hi hj
        rw [← hmem, Derived.names, Nat.add_sub_cancel_left, ← hsize, Array.getElem?_push_size]
        simp [hsettled]
      · have hshort : j - i < d.size := by omega
        rw [Derived.names, Array.getElem?_push_lt hshort, ← Array.getElem?_eq_getElem hshort,
          ← Derived.names]
        exact hexact i j p q hi hj hij (by omega) name

omit [Pattern.Engine] in
/-- The terminals of runs come from right-hand sides, and none is the empty literal. -/
theorem mem_terminals_of_runs {s : Shape} (hs : s ∈ lg.shapes) {ts : List Terminal}
    (hts : ts ∈ s.runs) {t : Terminal} (ht : t ∈ ts) :
    t ∈ lg.grammar.terminals ∧ t.isEmpty = false := by
  obtain ⟨p, hp, hps⟩ := exists_production hs
  have hmem := Shape.term_mem_symbols hts ht
  rw [(Shape.of_ofProduction? hps).2, List.mem_filter] at hmem
  exact ⟨Grammar.mem_terminals.2 ⟨p, hp, hmem.1⟩, by simpa [Symbol.isEmptyLiteral] using hmem.2⟩

/-- Shapes can be walked along if black boxes keep to the boundaries of a word. -/
theorem walkable_of_answers (hw : lg.grammar.AnswersBoundaries w) :
    ∀ s ∈ lg.shapes, s.Walkable w := by
  intro s hs ts hts
  constructor
  · intro t ht
    obtain ⟨hmem, hne⟩ := mem_terminals_of_runs hs hts ht
    refine ⟨hne, fun p hp => ?_⟩
    obtain ⟨r, hr, -⟩ := hw.terminal hmem p hp
    exact ⟨r, hr⟩
  · intro t ht
    obtain ⟨hmem, -⟩ := mem_terminals_of_runs hs hts (List.dropLast_subset _ ht)
    exact (hw.terminal hmem).entersNoCharacter

/-- A linear grammar whose shapes can be walked along contains just the words that its start
derives. -/
theorem exists_contains_of_walkable (hw : ∀ s ∈ lg.shapes, s.Walkable w) :
    ∃ b, lg.contains w = .ok b ∧ (b = true ↔ lg.grammar.Generates w) := by
  obtain ⟨d, hd, -, hexact⟩ := exists_derivedBelow hw (Text.bounds w).length
  have hlast : (Text.bounds w).length - 1 = w.toList.length := by
    rw [Text.bounds_length, Nat.add_sub_cancel]
  have hcontains : lg.contains w =
      .ok ((d.names 0 ((Text.bounds w).length - 1)).contains lg.grammar.start) := by
    change (derivedBelow (lg.laid w) (Text.bounds w) (Text.bounds w).length >>= _) = _
    rw [hd]
    rfl
  refine ⟨_, hcontains, ?_⟩
  rw [List.contains_iff_mem, hlast]
  exact hexact 0 _ _ _ (Text.bounds_zero w) (Text.bounds_last w) (Nat.zero_le _)
    (by rw [Text.bounds_length]; omega) _

theorem exists_contains (hw : lg.grammar.AnswersBoundaries w) :
    ∃ b, lg.contains w = .ok b ∧ (b = true ↔ lg.grammar.Generates w) :=
  exists_contains_of_walkable (walkable_of_answers hw)

omit [Pattern.Engine] in
theorem check_grammar {ps : List Production} {start : String}
    (h : LinearGrammar.check ps start = .ok lg) : Grammar.check ps start = .ok lg.grammar := by
  rw [LinearGrammar.check] at h
  cases hc : Grammar.check ps start with
  | error e => simp [hc] at h
  | ok g =>
    simp only [hc] at h
    cases hss : shapesOf g.productions with
    | error p => simp [hss] at h
    | ok ss =>
      simp only [hss, Except.ok.injEq] at h
      rw [← h]

/-- Where both recognizers apply they agree. -/
theorem contains_eq_parser_contains {ps : List Production} {start : String}
    (h : LinearGrammar.check ps start = .ok lg) (hg : lg.grammar.Coherent)
    (hw : lg.grammar.AnswersBoundaries w) : Grammar.check ps start = .ok lg.grammar ∧
      ∃ b, lg.contains w = .ok b ∧ lg.grammar.parser.contains w = .ok b := by
  refine ⟨check_grammar h, ?_⟩
  obtain ⟨b, hb, hlinear⟩ := exists_contains hw
  obtain ⟨s, hscan, hs⟩ := hw.answers.exists_scan
  have hgeneral := (accepts_iff hg hs .first).trans hlinear.symm
  refine ⟨b, hb, ?_⟩
  rw [Parser.contains, chart_eq hscan, ← Bool.eq_iff_iff.2 hgeneral]
  rfl

end Recognition

/-- Digits in brackets. -/
def brackets : LinearGrammar where
  grammar :=
    { start := "S"
      productions := [⟨"S", [.blackBox (.predicate "digit" Char.isDigit)]⟩,
        ⟨"S", [.literal "(", .nonterm "S", .literal ")"]⟩]
      start_defined := ⟨_, .head _, rfl⟩
      closed := by simp [Production.references, Symbol.nonterm?, Symbol.blackBox, Symbol.literal] }
  shapes := [⟨"S", [.blackBox (.predicate "digit" Char.isDigit)], none⟩,
    ⟨"S", [.literal "("], some ("S", [.literal ")"])⟩]
  shapes_eq := rfl

theorem check_brackets : LinearGrammar.check brackets.grammar.productions "S" = .ok brackets :=
  rfl

theorem eq_digit_of_mem_brackets {b : BlackBox} (hb : .blackBox b ∈ brackets.grammar.terminals) :
    b = .predicate "digit" Char.isDigit := by
  have hterminals : brackets.grammar.terminals =
    [.blackBox (.predicate "digit" Char.isDigit), .literal "(", .literal ")"] := rfl
  simpa [hterminals] using hb

theorem coherent_brackets : brackets.grammar.Coherent := by
  intro b c hb hc _
  rw [eq_digit_of_mem_brackets hb, eq_digit_of_mem_brackets hc]

theorem answersBoundaries_brackets (w : String) : brackets.grammar.AnswersBoundaries w := by
  intro b hb p hp
  rw [eq_digit_of_mem_brackets hb]
  exact Matcher.exists_one_bounds Char.isDigit hp

theorem contains_eq_parser_contains_brackets :
    LinearGrammar.check brackets.grammar.productions "S" = .ok brackets ∧
      brackets.grammar.Coherent ∧ brackets.grammar.AnswersBoundaries "((7))" ∧
      Grammar.check brackets.grammar.productions "S" = .ok brackets.grammar ∧
      ∃ b, brackets.contains "((7))" = .ok b ∧
        brackets.grammar.parser.contains "((7))" = .ok b :=
  ⟨check_brackets, coherent_brackets, answersBoundaries_brackets "((7))",
    contains_eq_parser_contains check_brackets coherent_brackets
      (answersBoundaries_brackets "((7))")⟩

end LinearGrammar
end ContextFree
