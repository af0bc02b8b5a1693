import Mqtt.Proofs.Wire.VarInt

/-!
Block lengths in words of 32 bits. The length of a block is found from its size by two subtractions,
and for every size that a word can hold neither takes more than there is.
-/
namespace Mqtt

/-- What is left of a word, unless more is taken than there is. -/
def difference? (total part : UInt32) : Option UInt32 :=
  if part ≤ total then some (total - part) else none

theorem difference?_eq_some_iff {total part rest : UInt32} :
    difference? total part = some rest ↔
      part.toNat ≤ total.toNat ∧ rest.toNat = total.toNat - part.toNat := by
  unfold difference?
  split
  · rename_i inside
    rw [Option.some_inj, ← UInt32.toNat_inj, UInt32.toNat_sub_of_le _ _ inside, eq_comm]
    exact (and_iff_right (UInt32.le_iff_toNat_le.mp inside)).symm
  · rename_i beyond
    exact iff_of_false nofun fun found => beyond (UInt32.le_iff_toNat_le.mpr found.1)

namespace VarInt

/-- `size` of a word, in a word. -/
def wordSize (number : UInt32) : UInt32 := .ofNat (size number.toNat)

/-- `blockLength` in words, unless a subtraction takes more than there is. -/
def blockLength? (total : UInt32) : Option UInt32 :=
  (difference? total (wordSize total)).bind fun rest => difference? total (wordSize (rest + 1))

theorem toNat_wordSize (number : UInt32) : (wordSize number).toNat = size number.toNat :=
  UInt32.toNat_ofNat_of_lt' (Nat.lt_of_le_of_lt (size_le_four _) (by decide))

theorem size_le_self {number : Nat} (positive : 0 < number) : size number ≤ number := by
  unfold size
  repeat' split
  all_goals omega

/-- The sum between the subtractions does not wrap around. -/
private theorem toNat_next {total rest : UInt32}
    (taken : difference? total (wordSize total) = some rest) :
    (rest + 1).toNat = total.toNat - size total.toNat + 1 := by
  obtain ⟨inside, left⟩ := difference?_eq_some_iff.mp taken
  rw [toNat_wordSize] at inside left
  have width := size_pos total.toNat
  have bound := total.toNat_lt
  rw [UInt32.toNat_add, left]
  exact Nat.mod_eq_of_lt (by rw [UInt32.toNat_one]; omega)

/-- A block and its length field take a byte at least. -/
theorem blockLength?_eq_some_iff {total length : UInt32} :
    blockLength? total = some length ↔
      0 < total.toNat ∧ length.toNat = blockLength total.toNat := by
  simp only [blockLength?, Option.bind_eq_some_iff]
  constructor
  · rintro ⟨rest, taken, found⟩
    obtain ⟨inside, -⟩ := difference?_eq_some_iff.mp taken
    obtain ⟨-, same⟩ := difference?_eq_some_iff.mp found
    rw [toNat_wordSize] at inside
    rw [toNat_wordSize, toNat_next taken] at same
    exact ⟨Nat.lt_of_lt_of_le (size_pos _) inside, same⟩
  · rintro ⟨positive, same⟩
    have inside := size_le_self positive
    have width := size_pos total.toNat
    have taken : difference? total (wordSize total) = some (total - wordSize total) :=
      if_pos (by rwa [UInt32.le_iff_toNat_le, toNat_wordSize])
    refine ⟨_, taken, difference?_eq_some_iff.mpr ?_⟩
    have narrower : size (total.toNat - size total.toNat + 1) ≤ total.toNat :=
      (size_mono (by omega)).trans inside
    rw [toNat_wordSize, toNat_next taken]
    exact ⟨narrower, same⟩

/-- In words as well, a block and its length field have one size only. -/
theorem blockLength?_size {length : Nat} (fits : size length + length < UInt32.size) :
    blockLength? (.ofNat (size length + length)) = some (.ofNat length) := by
  have width := size_pos length
  rw [blockLength?_eq_some_iff, UInt32.toNat_ofNat_of_lt' fits, UInt32.toNat_ofNat_of_lt' (by omega),
    blockLength_size]
  exact ⟨by omega, rfl⟩

end VarInt
end Mqtt
