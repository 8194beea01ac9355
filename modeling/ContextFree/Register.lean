import ContextFree.Coded
import ContextFree.Distinct
import Std.Data.TreeMap

/-! Registers: things in the order in which they were entered, one for each key, that are found by
their key. A register is its list; the code of a key says where to look for it. -/
namespace ContextFree

variable {κ α : Type} [DecidableEq κ] [Coded κ]

structure Register (key : α → κ) where
  entries : Array α
  /-- The keys of a code, each with the place of its entry. -/
  places : Std.TreeMap Nat (List (κ × Nat))
  lookup_eq : ∀ k, (places.getD (Coded.code k) []).lookup k =
    (entries.toList.map key).findIdx? (· == k)

namespace Register

variable {key : α → κ}

def toList (r : Register key) : List α := r.entries.toList

def size (r : Register key) : Nat := r.entries.size

def empty : Register key := ⟨#[], ∅, fun k => by simp⟩

/-- The place of the entry with a key. -/
def place? (r : Register key) (k : κ) : Option Nat :=
  (r.places.getD (Coded.code k) []).lookup k

/-- The entry with a key. -/
def get? (r : Register key) (k : κ) : Option α := (r.place? k).bind fun i => r.entries[i]?

def has (r : Register key) (k : κ) : Bool := (r.place? k).isSome

theorem place?_eq (r : Register key) (k : κ) :
    r.place? k = (r.toList.map key).findIdx? (· == k) :=
  r.lookup_eq k

@[simp] theorem has_iff {r : Register key} {k : κ} : r.has k = true ↔ k ∈ r.toList.map key := by
  rw [has, place?_eq, List.findIdx?_isSome, List.any_eq_true]
  simp

/-- What is found by a key is what a search of the list finds. -/
theorem get?_eq (r : Register key) (k : κ) : r.get? k = r.toList.find? (key · == k) := by
  rw [get?, place?_eq]
  cases h : (r.toList.map key).findIdx? (· == k) with
  | none =>
    rw [Option.bind_none, eq_comm, List.find?_eq_none]
    rw [List.findIdx?_eq_none_iff] at h
    intro a ha he
    have := h _ (List.mem_map_of_mem ha)
    simp_all
  | some i =>
    obtain ⟨hi, he, hj⟩ := List.findIdx?_eq_some_iff_getElem.1 h
    rw [Option.bind_some, eq_comm]
    have hi' : i < r.toList.length := by simpa using hi
    rw [← Array.getElem?_toList, ← toList, List.getElem?_eq_getElem hi',
      List.find?_eq_some_iff_getElem]
    refine ⟨by simpa using he, i, hi', rfl, fun j hji => ?_⟩
    simpa using hj j hji

/-- Enters something with a new key, at the end. -/
def enter (r : Register key) (a : α) : Register key :=
  if h : r.has (key a) then r
  else
    let place := (key a, r.entries.size)
    let others := r.places.getD (Coded.code (key a)) []
    { entries := r.entries.push a
      places := r.places.insert (Coded.code (key a)) (place :: others)
      lookup_eq := fun k => by
        have hk := r.lookup_eq k
        have hn : key a ∉ r.entries.toList.map key := fun hm => h (has_iff.2 hm)
        rw [Std.TreeMap.getD_insert, Array.toList_push, List.map_append, List.findIdx?_append]
        by_cases hc : compare (Coded.code (key a)) (Coded.code k) = .eq
        · rw [if_pos hc]
          change List.lookup k ((key a, _) :: r.places.getD (Coded.code (key a)) []) = _
          rw [Nat.compare_eq_eq.1 hc, List.lookup_cons]
          by_cases he : k = key a
          · subst he
            have : (r.entries.toList.map key).findIdx? (· == key a) = none := by
              rw [List.findIdx?_eq_none_iff]
              intro x hx
              exact beq_false_of_ne fun e => hn (e ▸ hx)
            simp [this, List.findIdx?_cons]
          · have he' : key a ≠ k := fun e => he e.symm
            rw [beq_false_of_ne he, Nat.compare_eq_eq.1 hc] at *
            simp [he', hk, List.findIdx?_cons]
        · rw [if_neg hc, hk]
          have he : key a ≠ k := fun e => hc (by rw [e]; exact Nat.compare_eq_eq.2 rfl)
          simp [he, List.findIdx?_cons] }

@[simp] theorem toList_empty : (empty : Register key).toList = [] := rfl

theorem toList_enter (r : Register key) (a : α) :
    (r.enter a).toList = if key a ∈ r.toList.map key then r.toList else r.toList ++ [a] := by
  rw [enter]
  split
  · rename_i h; rw [if_pos (has_iff.1 h)]
  · rename_i h
    rw [if_neg fun hm => h (has_iff.2 hm)]
    exact Array.toList_push

/-- Enters the elements of a list in order. -/
def enterAll (r : Register key) (l : List α) : Register key := l.foldl enter r

theorem toList_enterAll (r : Register key) (l : List α) :
    (r.enterAll l).toList =
      r.toList ++ (distinctBy key l).filter fun a => decide (key a ∉ r.toList.map key) := by
  induction l generalizing r with
  | nil => simp [enterAll, distinctBy]
  | cons a l ih =>
    rw [enterAll, List.foldl_cons, ← enterAll, ih, toList_enter, distinctBy]
    by_cases h : key a ∈ r.toList.map key
    · rw [if_pos h, List.filter_cons_of_neg (by simpa using h), List.filter_filter]
      congr 1
      refine List.filter_congr fun b _ => ?_
      by_cases hb : key b = key a
      · simp [hb, h]
      · simp [hb]
    · rw [if_neg h, List.filter_cons_of_pos (by simpa using h), List.filter_filter,
        List.append_assoc, List.singleton_append]
      congr 2
      refine List.filter_congr fun b _ => ?_
      simp only [List.map_append, List.map_cons, List.map_nil, List.mem_append,
        List.mem_singleton]
      by_cases hb : key b = key a <;> simp [hb]

/-- The register of the elements of a list. -/
def ofList (key : α → κ) (l : List α) : Register key := empty.enterAll l

/-- A register keeps first occurrences. -/
@[simp] theorem toList_ofList (l : List α) : (ofList key l).toList = distinctBy key l := by
  rw [ofList, toList_enterAll, toList_empty, List.nil_append, List.filter_eq_self]
  simp

/-- The place of a key, or the number of entries if there is none. -/
def placeOf (r : Register key) (k : κ) : Nat := (r.place? k).getD r.size

/-- The place of a key in the list, or its length. -/
theorem placeOf_eq (r : Register key) (k : κ) :
    r.placeOf k = (r.toList.map key).findIdx (· == k) := by
  rw [placeOf, place?_eq, List.findIdx_eq_getD_findIdx?, List.length_map]
  rfl

end Register

/-- A register of things that are their own keys. -/
abbrev Roster (α : Type) [DecidableEq α] [Coded α] := Register (id : α → α)

namespace Roster

variable {α : Type} [DecidableEq α] [Coded α]

theorem has_iff {r : Roster α} {a : α} : r.has a = true ↔ a ∈ r.toList := by
  rw [Register.has_iff, List.map_id]

theorem toList_enter (r : Roster α) (a : α) :
    (r.enter a).toList = if a ∈ r.toList then r.toList else r.toList ++ [a] := by
  rw [Register.toList_enter, List.map_id]
  rfl

end Roster
end ContextFree
