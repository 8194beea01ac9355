import ContextFree.Matcher
import ContextFree.Tree.Text
import Mathlib.Data.List.Nodup
import Mathlib.Order.Basic

/-! Boundaries of a word. They lie where the word splits into two texts, they increase strictly,
and text can be read from each of them. -/
namespace ContextFree.Text

@[simp] theorem size_nil : size [] = 0 := rfl

@[simp] theorem size_cons (c : Char) (cs : List Char) : size (c :: cs) = c.utf8Size + size cs :=
  rfl

@[simp] theorem size_append (cs ds : List Char) : size (cs ++ ds) = size cs + size ds := by
  induction cs with
  | nil => simp
  | cons c cs ih => simp [ih, Nat.add_assoc]

theorem size_eq_zero {cs : List Char} (h : size cs = 0) : cs = [] := by
  cases cs with
  | nil => rfl
  | cons c cs =>
    have := c.utf8Size_pos
    rw [size_cons] at h
    omega

/-- Of two ways to split a text the one that takes more bytes extends the other. -/
theorem exists_append_of_size_le {before after before' after' : List Char}
    (h : before ++ after = before' ++ after') (hle : size before ≤ size before') :
    ∃ piece, before' = before ++ piece ∧ after = piece ++ after' := by
  rcases List.append_eq_append_iff.1 h with ⟨piece, h1, h2⟩ | ⟨piece, h1, h2⟩
  · exact ⟨piece, h1, h2⟩
  · rw [h1, size_append] at hle
    obtain rfl := size_eq_zero (show size piece = 0 by omega)
    exact ⟨[], by simp [h1], by simp [h2]⟩

theorem mem_offsets {p q : Nat} {cs : List Char} :
    q ∈ offsets p cs ↔ ∃ before after, cs = before ++ after ∧ q = p + size before := by
  induction cs generalizing p with
  | nil =>
    simp only [offsets, List.mem_singleton, List.nil_eq, List.append_eq_nil_iff]
    constructor
    · intro h
      exact ⟨[], [], ⟨rfl, rfl⟩, by simp [h]⟩
    · rintro ⟨_, _, ⟨rfl, rfl⟩, h⟩
      exact h
  | cons c cs ih =>
    rw [offsets, List.mem_cons, ih]
    constructor
    · rintro (rfl | ⟨before, after, rfl, rfl⟩)
      · exact ⟨[], c :: cs, rfl, rfl⟩
      · exact ⟨c :: before, after, rfl, by rw [size_cons]; omega⟩
    · rintro ⟨before, after, h, rfl⟩
      cases before with
      | nil => exact .inl rfl
      | cons d before =>
        obtain ⟨rfl, rfl⟩ := List.cons.inj h
        exact .inr ⟨before, after, rfl, by rw [size_cons]; omega⟩

theorem mem_bounds {w : String} {p : Nat} :
    p ∈ bounds w ↔ ∃ before after, w.toList = before ++ after ∧ p = size before := by
  simp [bounds, mem_offsets]

theorem zero_mem_bounds (w : String) : 0 ∈ bounds w := mem_bounds.2 ⟨[], w.toList, rfl, rfl⟩

theorem le_size {w : String} {p : Nat} (h : p ∈ bounds w) : p ≤ size w.toList := by
  obtain ⟨before, after, hw, rfl⟩ := mem_bounds.1 h
  rw [hw, size_append]
  omega

theorem le_of_mem_offsets {p q : Nat} {cs : List Char} (h : q ∈ offsets p cs) : p ≤ q := by
  obtain ⟨before, _, _, rfl⟩ := mem_offsets.1 h
  omega

theorem offsets_pairwise (p : Nat) (cs : List Char) : (offsets p cs).Pairwise (· < ·) := by
  induction cs generalizing p with
  | nil => simp [offsets]
  | cons c cs ih =>
    refine .cons (fun q hq => ?_) (ih _)
    have := le_of_mem_offsets hq
    have := c.utf8Size_pos
    omega

/-- Boundaries increase strictly. -/
theorem bounds_pairwise (w : String) : (bounds w).Pairwise (· < ·) := offsets_pairwise 0 w.toList

section Order
variable {w : String} {i j p q : Nat}

/-- There is one boundary more than there are characters. -/
theorem le_length_of_bounds (hi : (bounds w)[i]? = some p) : i ≤ w.toList.length := by
  have hlt := (List.getElem?_eq_some_iff.1 hi).1
  rw [bounds_length] at hlt
  omega

theorem lt_of_bounds_lt (hi : (bounds w)[i]? = some p) (hj : (bounds w)[j]? = some q)
    (h : i < j) : p < q := by
  obtain ⟨hi', rfl⟩ := List.getElem?_eq_some_iff.1 hi
  obtain ⟨hj', rfl⟩ := List.getElem?_eq_some_iff.1 hj
  exact List.pairwise_iff_getElem.1 (bounds_pairwise w) i j hi' hj' h

theorem bounds_lt_iff (hi : (bounds w)[i]? = some p) (hj : (bounds w)[j]? = some q) :
    p < q ↔ i < j := by
  constructor
  · intro h
    rcases Nat.lt_trichotomy i j with hij | rfl | hij
    · exact hij
    · rw [hi, Option.some.injEq] at hj
      omega
    · have := lt_of_bounds_lt hj hi hij
      omega
  · exact lt_of_bounds_lt hi hj

theorem bounds_eq_iff (hi : (bounds w)[i]? = some p) (hj : (bounds w)[j]? = some q) :
    p = q ↔ i = j := by
  have hlt := bounds_lt_iff hi hj
  have hgt := bounds_lt_iff hj hi
  omega

end Order

theorem getElem?_offsets_append (p : Nat) (before after : List Char) :
    (offsets p (before ++ after))[before.length]? = some (p + size before) := by
  induction before generalizing p with
  | nil => cases after <;> simp [offsets]
  | cons c before ih =>
    rw [List.cons_append, offsets, List.length_cons, List.getElem?_cons_succ, ih, size_cons]
    congr 1
    omega

theorem getElem?_offsets_length (p : Nat) (cs : List Char) :
    (offsets p cs)[cs.length]? = some (p + size cs) := by
  simpa using getElem?_offsets_append p cs []

theorem bounds_zero (w : String) : (bounds w)[0]? = some 0 := by
  rw [bounds]
  cases w.toList <;> rfl

theorem bounds_last (w : String) : (bounds w)[w.toList.length]? = some (size w.toList) := by
  simpa [bounds] using getElem?_offsets_length 0 w.toList

/-- From a boundary the rest of the text can be read. -/
@[simp] theorem charsFrom?_size (before after : List Char) :
    charsFrom? (before ++ after) (size before) = some after := by
  induction before with
  | nil => simp
  | cons c before ih =>
    obtain ⟨n, hn⟩ : ∃ n, size (c :: before) = n + 1 :=
      Nat.exists_eq_add_one.2 (by have := c.utf8Size_pos; rw [size_cons]; omega)
    rw [size_cons] at hn
    rw [size_cons, List.cons_append, hn, charsFrom?, if_pos (by omega), ← ih]
    congr 1
    omega

@[simp] theorem charsBefore?_size (before after : List Char) :
    charsBefore? (before ++ after) (size before) = some before := by
  induction before with
  | nil => simp
  | cons c before ih =>
    obtain ⟨n, hn⟩ : ∃ n, size (c :: before) = n + 1 :=
      Nat.exists_eq_add_one.2 (by have := c.utf8Size_pos; rw [size_cons]; omega)
    rw [size_cons] at hn
    rw [size_cons, List.cons_append, hn, charsBefore?, if_pos (by omega),
      show n + 1 - c.utf8Size = size before by omega, ih]
    rfl

/-- The text between two boundaries. -/
theorem slice?_append {w : String} {before piece after : List Char}
    (h : w.toList = before ++ piece ++ after) :
    slice? w (size before) (size (before ++ piece)) = some (String.ofList piece) := by
  rw [slice?, if_pos (by rw [size_append]; omega), h, List.append_assoc, charsFrom?_size,
    Option.bind_some, size_append, Nat.add_sub_cancel_left, charsBefore?_size]
  rfl

/-- Between two boundaries there is text. -/
theorem exists_slice? {w : String} {p q : Nat} (hp : p ∈ bounds w) (hq : q ∈ bounds w)
    (h : p ≤ q) : ∃ text, slice? w p q = some text := by
  obtain ⟨before, after, hw, rfl⟩ := mem_bounds.1 hp
  obtain ⟨before', after', hw', rfl⟩ := mem_bounds.1 hq
  obtain ⟨piece, rfl, rfl⟩ := exists_append_of_size_le (hw.symm.trans hw') h
  exact ⟨_, slice?_append hw'⟩

theorem exists_of_charsFrom? {cs after : List Char} {p : Nat}
    (h : charsFrom? cs p = some after) : ∃ before, cs = before ++ after ∧ p = size before := by
  induction cs generalizing p with
  | nil => cases p <;> simp_all [charsFrom?]
  | cons c cs ih =>
    cases p with
    | zero => exact ⟨[], by simpa using h, rfl⟩
    | succ p =>
      rw [charsFrom?] at h
      split at h
      · obtain ⟨before, rfl, hp⟩ := ih h
        exact ⟨c :: before, rfl, by rw [size_cons]; omega⟩
      · cases h

theorem exists_of_charsBefore? {cs before : List Char} {p : Nat}
    (h : charsBefore? cs p = some before) : ∃ after, cs = before ++ after ∧ p = size before := by
  induction cs generalizing p before with
  | nil => cases p <;> simp_all [charsBefore?]
  | cons c cs ih =>
    cases p with
    | zero =>
      obtain rfl : [] = before := by simpa using h
      exact ⟨c :: cs, rfl, rfl⟩
    | succ p =>
      rw [charsBefore?] at h
      split at h
      · obtain ⟨before', hb, rfl⟩ := Option.map_eq_some_iff.1 h
        obtain ⟨after, rfl, hp⟩ := ih hb
        exact ⟨after, rfl, by rw [size_cons]; omega⟩
      · cases h

/-- Text can only be read between two boundaries. -/
theorem mem_bounds_of_slice? {w text : String} {p q : Nat} (h : slice? w p q = some text) :
    p ∈ bounds w ∧ q ∈ bounds w ∧ p ≤ q := by
  rw [slice?] at h
  split at h
  · obtain ⟨piece, hpiece, rfl⟩ := Option.map_eq_some_iff.1 h
    obtain ⟨rest, hrest, hpiece⟩ := Option.bind_eq_some_iff.1 hpiece
    obtain ⟨before, hw, hp⟩ := exists_of_charsFrom? hrest
    obtain ⟨after, rfl, hq⟩ := exists_of_charsBefore? hpiece
    refine ⟨mem_bounds.2 ⟨before, _, hw, hp⟩,
      mem_bounds.2 ⟨before ++ piece, after, by simp [hw], ?_⟩, ‹_›⟩
    rw [size_append]
    omega
  · cases h

end ContextFree.Text

namespace ContextFree

/-- A range of a word that can be read: from a boundary to one that does not come before it. -/
def Span.IsSlice (w : String) (s : Span) : Prop :=
  s.start ∈ Text.bounds w ∧ s.stop ∈ Text.bounds w ∧ s.start ≤ s.stop

instance (w : String) (s : Span) : Decidable (s.IsSlice w) :=
  inferInstanceAs (Decidable (_ ∧ _ ∧ _))

theorem Span.isSlice_iff {w : String} {s : Span} :
    s.IsSlice w ↔ ∃ text, s.slice w = .ok text := by
  constructor
  · rintro ⟨hstart, hstop, hle⟩
    obtain ⟨text, htext⟩ := Text.exists_slice? hstart hstop hle
    exact ⟨text, by rw [slice, htext]⟩
  · rintro ⟨text, htext⟩
    rw [slice] at htext
    split at htext
    · exact Text.mem_bounds_of_slice? ‹_›
    · cases htext

end ContextFree

namespace ContextFree.Matcher
open Text

/-- At a boundary there is text to match. -/
theorem rest_of_mem_bounds {w : String} {p : Nat} (h : p ∈ bounds w) : ∃ cs, rest w p = .ok cs := by
  obtain ⟨before, after, hw, rfl⟩ := mem_bounds.1 h
  exact ⟨after, by rw [rest, hw, charsFrom?_size]⟩

theorem exists_one {w : String} {q : Nat} (p : Char → Bool) (h : q ∈ bounds w) :
    ∃ r, one p w q = .ok r := by
  obtain ⟨cs, hcs⟩ := rest_of_mem_bounds h
  exact ⟨_, by rw [one, hcs]; rfl⟩

end ContextFree.Matcher
