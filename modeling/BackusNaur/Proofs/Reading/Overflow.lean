import BackusNaur.Overflow
import BackusNaur.Proofs.Reading.Joining

/-!
# Definitions that there is no room for

Whether there is room for a definition depends on its own block, and on the definitions before it
only in that it has to be come to: these must be read, and must not define its symbol.

`Reading.exists_overflow?_iff`: reading a text takes up more than there is room for exactly if it
comes to such a definition. `Reading.overflow?_eq_none_of_alternatives_le`: there is room for a text
none of whose definitions has too many alternatives.
-/

namespace BackusNaur

namespace Reading

variable {room : Room} {known found : List Definition} {lines : List Line} {blocks : List Block}
  {text : String}

/-- A reading of the lines comes to a definition that there is no room for. -/
inductive Overflows (room : Room) (lines : List Line) : Prop
  | block {earlier later : List Block} {b : Block} {known : List Definition}
    (hcut : Block.Cut lines (earlier ++ b :: later))
    (hknown : List.Forall₂ Block.Written earlier known)
    (hnodup : (known.map Definition.name).Nodup) (hroom : b.overflows room known = true) :
    Overflows room lines

theorem exists_of_overflowIn? (h : overflowIn? room known blocks = some found) :
    ∃ earlier b later, blocks = earlier ++ b :: later ∧
      (ofBlocks known earlier).result = .ok found ∧ b.overflows room found = true := by
  induction blocks generalizing known with
  | nil => cases h
  | cons b rest ih =>
    rw [overflowIn?] at h
    split at h
    · cases h
      exact ⟨[], b, rest, rfl, rfl, ‹_›⟩
    · split at h
      · cases h
      · rename_i d hd
        obtain ⟨earlier, b', later, rfl, hearlier, hb'⟩ := ih h
        refine ⟨b :: earlier, b', later, rfl, ?_, hb'⟩
        rw [ofBlocks, hd]
        exact hearlier

theorem exists_overflowIn? {earlier later : List Block} {b : Block}
    (hearlier : (ofBlocks known earlier).result = .ok found)
    (hroom : b.overflows room found = true) :
    ∃ before, overflowIn? room known (earlier ++ b :: later) = some before := by
  induction earlier generalizing known with
  | nil =>
    obtain rfl : known = found := Except.ok.inj hearlier
    exact ⟨known, by rw [List.nil_append, overflowIn?, if_pos hroom]⟩
  | cons first earlier ih =>
    rw [List.cons_append, overflowIn?]
    rw [ofBlocks] at hearlier
    split
    · exact ⟨known, rfl⟩
    · cases hd : first.define known with
      | error fault =>
        rw [hd] at hearlier
        cases hearlier
      | ok d =>
        rw [hd] at hearlier
        exact ih hearlier

theorem exists_overflow?_iff :
    (∃ before, overflow? room text = some before) ↔ Overflows room (Line.ofText text) := by
  constructor
  · rintro ⟨before, h⟩
    rw [overflow?] at h
    split at h
    · rename_i blocks hcut
      obtain ⟨earlier, b, later, rfl, hearlier, hroom⟩ := exists_of_overflowIn? h
      obtain ⟨hknown, hnodup⟩ := written_of_result hearlier
      exact .block (Block.cut_eq_iff.mp hcut) hknown hnodup hroom
    · cases h
  · rintro ⟨hcut, hknown, hnodup, hroom⟩
    rw [overflow?, hcut.cut_eq]
    exact exists_overflowIn? (result_of_written hknown hnodup) hroom

theorem overflow?_eq_none_iff :
    overflow? room text = none ↔ ¬ Overflows room (Line.ofText text) := by
  rw [← exists_overflow?_iff, ← Option.ne_none_iff_exists', not_not]

theorem overflow?_eq_none_of_alternatives_le
    (h : ∀ blocks, Block.Cut (Line.ofText text) blocks →
      ∀ b ∈ blocks, b.alternatives ≤ min room.cut room.told) :
    overflow? room text = none := by
  rw [overflow?_eq_none_iff]
  rintro ⟨hcut, -, -, hroom⟩
  have hle := h _ hcut _ (List.mem_append_right _ (.head _))
  rw [Block.overflows] at hroom
  split at hroom
  · exact absurd hle (Nat.not_le.mpr (of_decide_eq_true hroom))
  · have hlt := of_decide_eq_true (Bool.and_eq_true_iff.mp hroom).2
    omega

end Reading

end BackusNaur
