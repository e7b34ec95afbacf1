import BackusNaur.Proofs.Matching.Evaluation

/-!
# Chains of references

A chain of symbols each of which refers to the next one, down to one that writes a literal. Its
definitions are acyclic and short, and still a match goes down through all of them: two levels of
depth and three frames for each reference.
-/

namespace BackusNaur

def link : Nat → Node
  | 0 => .sequence [.run [.literal "x"]]
  | n + 1 => .sequence [.run [.reference n.repr]]

def chain : Nat → SymbolTable
  | 0 => [(Nat.repr 0, link 0)]
  | n + 1 => ((n + 1).repr, link (n + 1)) :: chain n

@[simp] theorem nesting_chain (n : Nat) : (chain n).nesting = 0 := by
  have hlink (i : Nat) : (link i).nesting = 0 := by cases i <;> rfl
  induction n with
  | zero => rfl
  | succ n ih => rw [chain, SymbolTable.nesting_cons, hlink, ih]; rfl

end BackusNaur
