/-! Codes: a number for every value of a type, by which values are found. Values may share a code;
where they rarely do, finding is fast. -/
namespace ContextFree

class Coded (α : Type) where
  code : α → Nat

namespace Coded

/-- The code of two things by their codes. -/
def mix (a b : Nat) : Nat := (a * 1000003 + b) % 4294967291

variable {α β : Type} [Coded α] [Coded β]

instance : Coded Nat := ⟨id⟩

instance : Coded Unit := ⟨fun _ => 0⟩

instance : Coded Char := ⟨Char.toNat⟩

instance : Coded (List α) := ⟨fun l => l.foldl (fun a x => mix a (code x)) l.length⟩

instance : Coded (α × β) := ⟨fun p => mix (code p.1) (code p.2)⟩

instance : Coded (Option α) := ⟨fun o => o.elim 0 (mix 1 <| code ·)⟩

instance : Coded String := ⟨fun s => code s.toList⟩

end Coded
end ContextFree
