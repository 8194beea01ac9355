/-! Faults: requests that the text at hand cannot answer. They are not syntax errors, which are
ordinary answers about a word; a fault says that a question itself made no sense. -/
namespace ContextFree

/-- What was asked for and does not exist. -/
inductive Fault
  /-- Text was read from an offset inside a character or past the end. -/
  | notBoundary (offset : Nat)
  /-- A byte range that is backwards, ends past the end, or cuts a character. -/
  | noSlice (start stop : Nat)
  /-- A chart with one derivation a cell gave this number of trees instead of one. -/
  | treeCount (count : Nat)
  deriving DecidableEq, Repr

end ContextFree
