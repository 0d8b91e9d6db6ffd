import Mathlib

/-! Prefix masks over byte strings. Bits are counted from the most significant bit of
the first byte; two byte strings are equal under the mask of a prefix exactly when
their first bits agree. -/
namespace GuardSarm

def maskByte (ones : Nat) : BitVec 8 := BitVec.allOnes 8 <<< (8 - ones)

/-- The bytes whose first `k` bits are ones. -/
def prefixMask (n k : Nat) (i : Fin n) : BitVec 8 := maskByte (k - 8 * i)

/-- Two byte strings are equal under a mask. -/
def EqualUnder {n : Nat} (mask a b : Fin n → BitVec 8) : Prop := ∀ i, a i &&& mask i = b i &&& mask i

theorem getMsbD_maskByte {ones j : Nat} (small : j < 8) :
    (maskByte ones).getMsbD j = decide (j < ones) := by
  rw [maskByte, BitVec.getMsbD_shiftLeft, BitVec.getMsbD_allOnes]
  simp only [decide_eq_decide]
  omega

theorem masked_byte_eq_iff (a b : BitVec 8) (ones : Nat) :
    a &&& maskByte ones = b &&& maskByte ones ↔ ∀ j < 8, j < ones → a.getMsbD j = b.getMsbD j := by
  constructor
  · intro same j small kept
    have bit := congrArg (BitVec.getMsbD · j) same
    simpa [getMsbD_maskByte small, kept] using bit
  · intro same
    apply BitVec.eq_of_getMsbD_eq
    intro j small
    rw [BitVec.getMsbD_and, BitVec.getMsbD_and, getMsbD_maskByte small]
    by_cases kept : j < ones
    · simp [same j small kept]
    · simp [kept]

/-- Equality under the mask of a prefix is equality of the first bits. -/
theorem equalUnder_prefixMask_iff {n : Nat} (k : Nat) (a b : Fin n → BitVec 8) :
    EqualUnder (prefixMask n k) a b ↔
      ∀ (i : Fin n), ∀ j < 8, 8 * (i : Nat) + j < k → (a i).getMsbD j = (b i).getMsbD j := by
  refine forall_congr' fun i => (masked_byte_eq_iff _ _ _).trans ?_
  refine forall₂_congr fun j _ => ?_
  rw [show j < k - 8 * (i : Nat) ↔ 8 * (i : Nat) + j < k by omega]

end GuardSarm
