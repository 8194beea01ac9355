import ContextFree.Coded
import Std.Data.TreeMap

/-! Indexes: the values of a list of pairs, by key. What an index has for a key is what a search
through the whole list gives, in the same order. -/
namespace ContextFree

variable {κ β : Type} [DecidableEq κ] [Coded κ]

structure Index (κ β : Type) where
  /-- The pairs whose keys have a code. -/
  shelves : Std.TreeMap Nat (List (κ × β))

namespace Index

def shelf (x : Index κ β) (code : Nat) : List (κ × β) := x.shelves.getD code []

/-- Puts a pair before the others. -/
def cons (e : κ × β) (x : Index κ β) : Index κ β :=
  let others := x.shelf (Coded.code e.1)
  ⟨x.shelves.insert (Coded.code e.1) (e :: others)⟩

def ofList (l : List (κ × β)) : Index κ β := l.foldr cons ⟨∅⟩

/-- The values of a key, in order. -/
def get (x : Index κ β) (k : κ) : List β :=
  (x.shelf (Coded.code k)).filterMap fun e => if e.1 = k then some e.2 else none

theorem get_cons (e : κ × β) (x : Index κ β) (k : κ) :
    (x.cons e).get k = if e.1 = k then e.2 :: x.get k else x.get k := by
  simp only [get, shelf, cons, Std.TreeMap.getD_insert, Nat.compare_eq_eq]
  by_cases hk : e.1 = k
  · simp [hk]
  · by_cases hc : Coded.code e.1 = Coded.code k
    · simp [hk, hc]
    · simp [hk, hc]

/-- An index has all values of a key, in the order of the list. -/
theorem get_ofList (l : List (κ × β)) (k : κ) :
    (ofList l).get k = (l.filter (·.1 = k)).map (·.2) := by
  induction l with
  | nil => simp [ofList, get, shelf]
  | cons e l ih =>
    rw [ofList, List.foldr_cons, ← ofList, get_cons, ih, List.filter_cons]
    split <;> simp_all

example : (ofList [(2, 'a'), (1, 'b'), (2, 'c')]).get 2 = ['a', 'c'] := by decide +kernel

end Index
end ContextFree
