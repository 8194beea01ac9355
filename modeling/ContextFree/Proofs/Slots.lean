import ContextFree.Chart.Trees
import ContextFree.Proofs.EmptyTrees

/-! Slots. A choice of kept positions splits a derivation of a right-hand side: parts derive the
kept symbols, some bytes each, and empty trees stand between them for the others. Each derivation
is split by the choice that keeps what derives some bytes. -/
namespace ContextFree

/-- The symbols that a choice keeps. -/
def keptSymbols (slots : List Slot) : List Symbol := (slots.filter (·.kept)).map (·.symbol)

@[simp] theorem keptSymbols_nil : keptSymbols [] = [] := rfl

@[simp] theorem keptSymbols_cons (x : Symbol) (b : Bool) (slots : List Slot) :
    keptSymbols (⟨x, b⟩ :: slots) = if b then x :: keptSymbols slots else keptSymbols slots := by
  cases b <;> simp [keptSymbols]

theorem Variant.kept_eq (v : Variant) : v.kept = keptSymbols v.slots := rfl

/-- Whether a position may be kept, or dropped: an empty literal is dropped, and all else that is
dropped is nilable. -/
def Slot.Allowed (nilable : Symbol → Bool) (s : Slot) : Prop :=
  (s.kept = true → s.symbol.isEmptyLiteral = false) ∧
    (s.kept = false → s.symbol.isEmptyLiteral = true ∨ nilable s.symbol = true)

section Choices
variable {nilable : Symbol → Bool} {ps : EmptyProofs} {x : Symbol} {xs : List Symbol}
  {slots : List Slot}

/-- A choice is made position by position. -/
theorem mem_slotChoices_cons_iff : slots ∈ slotChoices nilable (x :: xs) ↔
    ∃ kept rest, slots = ⟨x, kept⟩ :: rest ∧ rest ∈ slotChoices nilable xs ∧
      (Slot.mk x kept).Allowed nilable := by
  have mem (kept : Bool) : slots ∈ (slotChoices nilable xs).map (⟨x, kept⟩ :: ·) ↔
      ∃ rest, slots = ⟨x, kept⟩ :: rest ∧ rest ∈ slotChoices nilable xs := by
    simp only [List.mem_map, eq_comm, and_comm]
  rw [slotChoices, Bool.exists_bool]
  by_cases hx : x.isEmptyLiteral = true
  · simp [Slot.Allowed, hx, mem]
  · by_cases hn : nilable x = true
    · simp [Slot.Allowed, hx, hn, mem, or_comm]
    · simp [Slot.Allowed, hx, hn, mem]

theorem nilable_of_isEmptyLiteral (h : x.isEmptyLiteral = true) : ps.nilable x = true := by
  cases x with
  | nonterm name => simp [Symbol.isEmptyLiteral] at h
  | term t => exact h

/-- By proofs of nilability the empty literal is nilable, so only nilable symbols are dropped. -/
theorem mem_slotChoices_cons : slots ∈ slotChoices ps.nilable (x :: xs) ↔
    ∃ kept rest, slots = ⟨x, kept⟩ :: rest ∧ rest ∈ slotChoices ps.nilable xs ∧
      (kept = true → x.isEmptyLiteral = false) ∧ (kept = false → ps.nilable x = true) := by
  rw [mem_slotChoices_cons_iff]
  simp only [Slot.Allowed, or_iff_right_of_imp nilable_of_isEmptyLiteral]

theorem nilable_of_mem_slotChoices (h : slots ∈ slotChoices ps.nilable xs) :
    ∀ s ∈ slots, s.kept = false → ps.nilable s.symbol = true := by
  induction xs generalizing slots with
  | nil =>
    obtain rfl := List.mem_singleton.1 h
    simp
  | cons x xs ih =>
    obtain ⟨kept, rest, rfl, hrest, -, hnil⟩ := mem_slotChoices_cons.1 h
    intro s hs hk
    rcases List.mem_cons.1 hs with rfl | hs
    · exact hnil hk
    · exact ih hrest s hs hk

end Choices

variable [Pattern.Engine] (g : Grammar) (w : String)

/-- Parts derive symbols, some bytes each, and each part begins where the one before stopped. -/
inductive PartsDerive (above : List (String × Nat × Nat)) : List Symbol → Nat → Nat → Parts → Prop
  | nil {a : Nat} : PartsDerive above [] a a []
  | cons {x : Symbol} {xs : List Symbol} {a b c : Nat} {t : ParseTree} {ps : Parts} (hab : a < b)
    (h : DerivesAcyclic g w above x a b t) (hs : PartsDerive above xs b c ps) :
    PartsDerive above (x :: xs) a c (⟨t, b⟩ :: ps)

/-- Trees for the positions of a variant: the tree of a part where it keeps the symbol, an empty
tree between the parts where it does not. -/
inductive Fills (empty : Nat → Symbol → ParseTree → Prop) :
    List Slot → Nat → Parts → List ParseTree → Prop
  | nil {p : Nat} {ps : Parts} : Fills empty [] p ps []
  | drop {x : Symbol} {slots : List Slot} {p : Nat} {ps : Parts} {t : ParseTree}
    {ts : List ParseTree} (h : empty p x t) (hs : Fills empty slots p ps ts) :
    Fills empty (⟨x, false⟩ :: slots) p ps (t :: ts)
  | keep {x : Symbol} {slots : List Slot} {p : Nat} {part : Part} {ps : Parts}
    {ts : List ParseTree} (hs : Fills empty slots part.stop ps ts) :
    Fills empty (⟨x, true⟩ :: slots) p (part :: ps) (part.tree :: ts)

variable {g : Grammar} {w : String}

section Parts
variable {above : List (String × Nat × Nat)} {xs ys : List Symbol} {a b c : Nat} {ps : Parts}

theorem partsDerive_nil : PartsDerive g w above [] a b ps ↔ a = b ∧ ps = [] := by
  constructor
  · intro h
    cases h
    exact ⟨rfl, rfl⟩
  · rintro ⟨rfl, rfl⟩
    exact .nil

theorem partsDerive_cons {x : Symbol} : PartsDerive g w above (x :: xs) a c ps ↔
    ∃ b t qs, ps = ⟨t, b⟩ :: qs ∧ a < b ∧ DerivesAcyclic g w above x a b t ∧
      PartsDerive g w above xs b c qs := by
  constructor
  · intro h
    cases h with
    | cons hab h hs => exact ⟨_, _, _, rfl, hab, h, hs⟩
  · rintro ⟨b, t, qs, rfl, hab, h, hs⟩
    exact .cons hab h hs

theorem partsDerive_singleton {x : Symbol} : PartsDerive g w above [x] a b ps ↔
    ∃ t, ps = [⟨t, b⟩] ∧ a < b ∧ DerivesAcyclic g w above x a b t := by
  rw [partsDerive_cons]
  constructor
  · rintro ⟨m, t, qs, rfl, hab, h, hs⟩
    obtain ⟨rfl, rfl⟩ := partsDerive_nil.1 hs
    exact ⟨t, rfl, hab, h⟩
  · rintro ⟨t, rfl, hab, h⟩
    exact ⟨b, t, [], rfl, hab, h, .nil⟩

/-- Parts for two lists of symbols are parts for each of them, side by side. -/
theorem partsDerive_append : PartsDerive g w above (xs ++ ys) a c ps ↔ ∃ b left right,
    ps = left ++ right ∧ PartsDerive g w above xs a b left ∧
      PartsDerive g w above ys b c right := by
  induction xs generalizing a ps with
  | nil =>
    constructor
    · exact fun h => ⟨a, [], ps, rfl, .nil, h⟩
    · rintro ⟨b, left, right, rfl, hl, hr⟩
      obtain ⟨rfl, rfl⟩ := partsDerive_nil.1 hl
      exact hr
  | cons x xs ih =>
    rw [List.cons_append, partsDerive_cons]
    constructor
    · rintro ⟨m, t, qs, rfl, ham, h, hs⟩
      obtain ⟨b, left, right, rfl, hl, hr⟩ := ih.1 hs
      exact ⟨b, ⟨t, m⟩ :: left, right, rfl, .cons ham h hl, hr⟩
    · rintro ⟨b, left, right, rfl, hl, hr⟩
      obtain ⟨m, t, qs, rfl, ham, h, hs⟩ := partsDerive_cons.1 hl
      exact ⟨m, t, qs ++ right, rfl, ham, h, ih.2 ⟨b, qs, right, rfl, hs, hr⟩⟩

omit [Pattern.Engine] in
/-- Where the last of some parts stops depends on their start only if there are none. -/
theorem lastStop_cons (a : Nat) (part : Part) (ps : Parts) :
    (((part :: ps).getLast?).map (·.stop)).getD a = (ps.getLast?.map (·.stop)).getD part.stop := by
  cases ps with
  | nil => rfl
  | cons q ps => simp [List.getLast?_eq_getLast_of_ne_nil]

namespace PartsDerive

theorem le (h : PartsDerive g w above xs a b ps) : a ≤ b := by
  induction h with
  | nil => exact Nat.le_refl _
  | cons hab _ _ ih => omega

theorem lt (h : PartsDerive g w above xs a b ps) (hxs : xs ≠ []) : a < b := by
  cases h with
  | nil => exact (hxs rfl).elim
  | cons hab _ hs => exact hab.trans_le hs.le

/-- The last part stops where all of them do. -/
theorem stop_eq (h : PartsDerive g w above xs a b ps) :
    (ps.getLast?.map (·.stop)).getD a = b := by
  induction h with
  | nil => rfl
  | cons _ _ _ ih => rw [lastStop_cons, ih]

theorem mem_bounds (h : PartsDerive g w above xs a b ps) (ha : a ∈ Text.bounds w) :
    b ∈ Text.bounds w := by
  induction h with
  | nil => exact ha
  | cons _ h _ ih => exact ih (h.derives.mem_bounds ha)

/-- Of what stands above parts only that counts which could stand inside one of them. -/
theorem frame {above' : List (String × Nat × Nat)} (h : PartsDerive g w above xs a b ps)
    (hsub : ∀ n c d, a ≤ c → d ≤ b → (n, c, d) ∈ above' → (n, c, d) ∈ above) :
    PartsDerive g w above' xs a b ps := by
  induction h with
  | nil => exact .nil
  | cons hab h hs ih =>
    have hle := hs.le
    exact .cons hab (h.frame fun n c d hc hd => hsub n c d hc (by omega))
      (ih fun n c d hc hd => hsub n c d (by omega) hd)

/-- No part of several takes all bytes, so what stands above over all of them does not count. -/
theorem frame_of_two {above' : List (String × Nat × Nat)} (h : PartsDerive g w above xs a b ps)
    (hxs : 2 ≤ xs.length) (hab : ∀ e ∈ above', e.2 = (a, b)) :
    PartsDerive g w above' xs a b ps := by
  cases h with
  | nil => simp at hxs
  | @cons x xs _ m _ t ps ham h hs =>
    have hmb := hs.lt fun h => by simp [h] at hxs
    refine .cons ham (h.frame fun n c d hc hd he => ?_) (hs.frame fun n c d hc hd he => ?_)
    all_goals
      have hcd : (c, d) = _ := hab _ he
      have := Prod.mk.inj hcd
      omega

end PartsDerive
end Parts

namespace Fills
variable {empty empty' : Nat → Symbol → ParseTree → Prop} {slots : List Slot} {p : Nat}
  {ps : Parts} {ts : List ParseTree}

omit [Pattern.Engine] in
theorem imp (h : Fills empty slots p ps ts)
    (himp : ∀ s ∈ slots, s.kept = false → ∀ p t, empty p s.symbol t → empty' p s.symbol t) :
    Fills empty' slots p ps ts := by
  induction h with
  | nil => exact .nil
  | drop h _ ih =>
    exact .drop (himp _ (.head _) rfl _ _ h) (ih fun s hs => himp s (.tail _ hs))
  | keep _ ih => exact .keep (ih fun s hs => himp s (.tail _ hs))

end Fills

omit [Pattern.Engine] in
/-- The picks for the positions of a variant are what fills them. -/
theorem mem_picks_fillSlots {x : Rebuilding} {slots : List Slot} {ps : Parts} {p : Nat}
    {ts : List ParseTree} : ts ∈ picks (x.fillSlots slots ps p) ↔
      Fills (fun p s t => t ∈ x.emptiesAt p s) slots p ps ts := by
  rw [mem_picks]
  constructor
  · intro h
    induction slots generalizing ps p ts with
    | nil =>
      cases h
      exact .nil
    | cons s slots ih =>
      obtain ⟨s, kept⟩ := s
      cases kept with
      | false =>
        cases h with
        | cons h hs => exact .drop h (ih hs)
      | true =>
        cases ps with
        | nil =>
          cases h with
          | cons h _ => simp at h
        | cons part ps =>
          cases h with
          | cons h hs =>
            obtain rfl := List.mem_singleton.1 h
            exact .keep (ih hs)
  · intro h
    induction h with
    | nil => exact .nil
    | drop h _ ih => exact .cons h ih
    | keep _ ih => exact .cons (List.mem_singleton.2 rfl) ih

/-- A symbol that derives some bytes is no empty literal. -/
theorem Derives.isEmptyLiteral_eq_false {x : Symbol} {a b : Nat} {t : ParseTree}
    (h : Derives g w x a b t) (hab : a < b) : x.isEmptyLiteral = false := by
  cases h with
  | term h =>
    rw [Symbol.isEmptyLiteral, Bool.eq_false_iff]
    intro he
    rw [Terminal.Takes, if_pos he] at h
    omega
  | node => rfl

/-- A derivation of a right-hand side is a choice of what derives some bytes, with parts for what
is kept and empty trees for the rest. -/
theorem derivesAllAcyclic_iff_slots {above : List (String × Nat × Nat)} {xs : List Symbol}
    {a b : Nat} {ts : List ParseTree} : DerivesAllAcyclic g w above xs a b ts ↔
      ∃ slots ∈ slotChoices g.emptyProofs.nilable xs, ∃ ps,
        PartsDerive g w above (keptSymbols slots) a b ps ∧
        Fills (fun p x t => DerivesAcyclic g w above x p p t) slots a ps ts := by
  induction xs generalizing a ts with
  | nil =>
    rw [derivesAllAcyclic_nil]
    constructor
    · rintro ⟨rfl, rfl⟩
      exact ⟨[], by simp [slotChoices], [], .nil, .nil⟩
    · rintro ⟨slots, hslots, ps, hps, hts⟩
      obtain rfl : slots = [] := by simpa [slotChoices] using hslots
      cases hts
      exact ⟨(partsDerive_nil.1 hps).1, rfl⟩
  | cons x xs ih =>
    rw [derivesAllAcyclic_cons]
    constructor
    · rintro ⟨m, t, us, rfl, h, hs⟩
      obtain ⟨slots, hslots, ps, hps, hfills⟩ := ih.1 hs
      rcases h.derives.le.eq_or_lt with rfl | ham
      · have hnil := h.derives.nilable rfl
        refine ⟨⟨x, false⟩ :: slots, ?_, ps, hps, .drop h hfills⟩
        exact mem_slotChoices_cons.2 ⟨false, slots, rfl, hslots, by simp, fun _ => hnil⟩
      · have hlit := h.derives.isEmptyLiteral_eq_false ham
        refine ⟨⟨x, true⟩ :: slots, ?_, ⟨t, m⟩ :: ps, .cons ham h hps, .keep hfills⟩
        exact mem_slotChoices_cons.2 ⟨true, slots, rfl, hslots, fun _ => hlit, by simp⟩
    · rintro ⟨slots, hslots, ps, hps, hfills⟩
      obtain ⟨kept, rest, rfl, hrest, -, -⟩ := mem_slotChoices_cons.1 hslots
      cases hfills with
      | drop h hfills => exact ⟨a, _, _, rfl, h, ih.2 ⟨rest, hrest, ps, hps, hfills⟩⟩
      | keep hfills =>
        obtain ⟨m, t, qs, he, ham, h, hs⟩ := partsDerive_cons.1 hps
        obtain ⟨rfl, rfl⟩ := List.cons.inj he
        exact ⟨m, t, _, rfl, h, ih.2 ⟨rest, hrest, _, hs, hfills⟩⟩

end ContextFree
