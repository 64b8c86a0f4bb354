import Mathlib
import Playbook.Number.Double

/-! # Integers as doubles

The double nearest to an integer is made by rounding a mantissa of any length. When the magnitude is at least 2 the
rounding keeps an exponent above that of 1, whatever becomes of the last bits, so that no integer but 1 is a fraction
of a whole.

Main statements: `IsLarge.roundWithAccuracy` follows the rounding, `IsLarge.pack_cases` tells the bits of what is
rounded, and `isFraction_ofInt_iff` concludes for all integers.
-/

namespace Playbook.Double

open Float.Model (Format UnpackedFloat totalExponent)
open Float.Model.UnpackedFloat

variable {m : Nat} {e : Int} {s : Sign} {u : UnpackedFloat}

/-! ## Rounding -/

theorem mantissa_shiftRight (em : ExtendedMantissa) (k : Nat) : (em >>> k).mantissa = em.mantissa / 2 ^ k := by
  show (k.repeat ExtendedMantissa.shiftRightOne em).mantissa = em.mantissa / 2 ^ k
  induction k with
  | zero => simp [Nat.repeat]
  | succ k ih => rw [Nat.repeat, ExtendedMantissa.shiftRightOne, ih, Nat.div_div_eq_div_mul, Nat.pow_succ]

/-- Rounding never makes a mantissa smaller. -/
theorem le_roundedMantissa (em : ExtendedMantissa) : em.mantissa ≤ em.roundedMantissa := by
  unfold ExtendedMantissa.roundedMantissa Accuracy.roundToNearestEven
  split <;> omega

/-- From 2 on, the exponent is chosen such that 53 bits are kept. -/
theorem targetExponent_eq (he : 2 ≤ totalExponent m e) :
    Format.binary64.targetExponent (totalExponent m e) = m.log2 + e - 52 := by
  simp only [totalExponent, Format.targetExponent, Format.mantissaBits, Format.minExponent] at he ⊢
  omega

theorem log2_div_pow (h : 52 ≤ m.log2) : (m / 2 ^ (m.log2 - 52)).log2 = 52 := by
  simp only [Nat.log2_eq_log_two] at h ⊢
  rw [Nat.log_div_base_pow]
  omega

theorem log2_mul_pow (hm : m ≠ 0) (k : Nat) : (m * 2 ^ k).log2 = m.log2 + k := by
  refine (Nat.log2_eq_iff (Nat.mul_ne_zero hm (Nat.two_pow_pos k).ne')).2 ⟨?_, ?_⟩
  · rw [Nat.pow_add]
    exact Nat.mul_le_mul_right _ (Nat.log2_self_le hm)
  · rw [Nat.add_right_comm, Nat.pow_add]
    exact Nat.mul_lt_mul_of_pos_right Nat.lt_log2_self (Nat.two_pow_pos k)

/-- A mantissa with too many bits loses all but 53. -/
theorem shiftToTargetExponent_eq (a : Accuracy) (hm : 52 ≤ m.log2) (he : 2 ≤ totalExponent m e) :
    (shiftToTargetExponent Format.binary64 m e a).1.mantissa.log2 = 52 ∧
      (shiftToTargetExponent Format.binary64 m e a).2 = e + m.log2 - 52 := by
  have hshift : (Format.binary64.targetExponent (totalExponent m e) - e).toNat = m.log2 - 52 := by
    rw [targetExponent_eq he]
    omega
  have hmantissa : (ExtendedMantissa.ofMantissaAndAccuracy m a).mantissa = m := by
    unfold ExtendedMantissa.ofMantissaAndAccuracy
    split <;> rfl
  simp only [shiftToTargetExponent, shiftToExponent, hshift, mantissa_shiftRight, hmantissa]
  exact ⟨log2_div_pow hm, by omega⟩

/-- A number of this sign and a magnitude of at least 2 that has all the bits of its format, or the infinity. -/
inductive IsLarge (s : Sign) : UnpackedFloat → Prop
  | infinity : IsLarge s (.infinity s)
  | finite {m : Nat} {e : Int} (hpos : 0 < m) (hm : m.log2 = 52) (he : -51 ≤ e) : IsLarge s (.finite s m e hpos)

namespace IsLarge

protected theorem neg (h : IsLarge s u) : IsLarge (-s) u.neg := by
  cases h with
  | infinity => exact .infinity
  | finite hpos hm he => exact .finite hpos hm he

protected theorem roundWithAccuracy (s : Sign) (a : Accuracy) (hm : 52 ≤ m.log2) (he : 2 ≤ totalExponent m e) :
    IsLarge s (roundWithAccuracy Format.binary64 s m e a) := by
  obtain ⟨hlog, hexp⟩ := shiftToTargetExponent_eq a hm he
  generalize hfirst : shiftToTargetExponent Format.binary64 m e a = first at hlog hexp
  -- the rounded mantissa may have one bit more, and is shifted again
  have hround : 52 ≤ first.1.roundedMantissa.log2 := by
    rw [← hlog, Nat.log2_eq_log_two, Nat.log2_eq_log_two]
    exact Nat.log_mono_right (le_roundedMantissa first.1)
  have htotal : 2 ≤ totalExponent first.1.roundedMantissa first.2 := by
    simp only [totalExponent] at he ⊢
    omega
  obtain ⟨hlog', hexp'⟩ := shiftToTargetExponent_eq .exact hround htotal
  have hpos : (shiftToTargetExponent Format.binary64 first.1.roundedMantissa first.2 .exact).1.mantissa ≠ 0 := by
    intro hzero
    rw [hzero] at hlog'
    cases hlog'
  simp only [UnpackedFloat.roundWithAccuracy, hfirst, dif_neg hpos]
  refine .finite _ hlog' ?_
  rw [hexp']
  simp only [totalExponent] at htotal
  omega

/-- A mantissa with too few bits is filled up first. -/
protected theorem round (s : Sign) (hm : m ≠ 0) (he : 2 ≤ totalExponent m e) :
    IsLarge s (UnpackedFloat.round Format.binary64 s m e) := by
  have hlog := log2_mul_pow hm (e - (m.log2 + e - 52)).toNat
  simp only [UnpackedFloat.round, decreaseExponent, targetExponent_eq he, Nat.shiftLeft_eq]
  refine .roundWithAccuracy s .exact ?_ ?_
  · omega
  · simp only [totalExponent] at he ⊢
    omega

/-! ## Bits -/

/-- The bits of a large number have its sign in front and a large exponent behind it. -/
theorem pack_cases (h : IsLarge s u) :
    pack Format.binary64 u = packedInfinity Format.binary64 s ∨
      ∃ (field : BitVec 11) (fraction : BitVec 52), 1024 ≤ field.toNat ∧ field.toNat < 2047 ∧
        pack Format.binary64 u = packComponents Format.binary64 s field fraction := by
  cases h with
  | infinity => exact .inl rfl
  | @finite m e hpos hm he =>
    have hbias : (e + Format.binary64.exponentBias + Format.binary64.mantissaBitsWithoutImplicit).toNat =
        (e + 1075).toNat := by
      simp only [Format.exponentBias]
      omega
    simp only [pack, hm, hbias]
    split
    · exact .inl rfl
    · rename_i hsmall
      refine .inr ⟨BitVec.ofNat 11 (e + 1075).toNat, BitVec.ofNat 52 m, ?_, ?_, if_pos rfl⟩
      all_goals
        rw [BitVec.toNat_ofNat]
        omega

end IsLarge

/-- The components of a number lie side by side in its bits. -/
theorem toNat_packComponents (s : Sign) (e : BitVec 11) (m : BitVec 52) :
    (packComponents Format.binary64 s e m).toNat = s.toBitVec.toNat * 2 ^ 63 + e.toNat * 2 ^ 52 + m.toNat := by
  show (s.toBitVec ++ e ++ m).toNat = _
  rw [BitVec.toNat_append, BitVec.toNat_append, ← Nat.shiftLeft_add_eq_or_of_lt e.isLt,
    ← Nat.shiftLeft_add_eq_or_of_lt m.isLt, Nat.shiftLeft_eq, Nat.shiftLeft_eq]
  omega

namespace IsLarge

/-- A large number stays one when it is stored. -/
theorem unpack_pack (h : IsLarge s u) : IsLarge s (unpack Format.binary64 (pack Format.binary64 u)) := by
  rcases h.pack_cases with hpack | ⟨field, fraction, hlow, hhigh, hpack⟩
  · rw [hpack]
    cases s <;> exact .infinity
  · have hfield : field ≠ -1#11 ∧ field ≠ 0#11 := by
      constructor
      all_goals
        rintro rfl
        simp at hlow hhigh
    have hlog : (1#1 ++ fraction).toNat.log2 = 52 := by
      rw [BitVec.toNat_append, ← Nat.shiftLeft_add_eq_or_of_lt fraction.isLt, Nat.shiftLeft_eq]
      refine (Nat.log2_eq_iff (by simp)).2 ⟨?_, ?_⟩
      · simp
      · simp
        omega
    rw [hpack]
    simp only [unpack, unpackExponent_packComponents, unpackMantissa_packComponents, unpackSign_packComponents,
      Sign.ofBitVec_toBitVec]
    rw [if_neg hfield.1, if_neg hfield.2]
    refine .finite _ hlog ?_
    simp only [Format.exponentBias]
    omega

theorem toNat_pack (h : IsLarge s u) : ∃ magnitude, 0x4000000000000000 ≤ magnitude ∧ magnitude < 2 ^ 63 ∧
    (pack Format.binary64 u).toNat = s.toBitVec.toNat * 2 ^ 63 + magnitude := by
  rcases h.pack_cases with hpack | ⟨field, fraction, hlow, hhigh, hpack⟩
  · refine ⟨0x7FF0000000000000, by decide, by decide, ?_⟩
    rw [hpack]
    cases s <;> rfl
  · refine ⟨field.toNat * 2 ^ 52 + fraction.toNat, ?_, ?_, ?_⟩
    · omega
    · omega
    · rw [hpack, toNat_packComponents, Nat.add_assoc]

/-- The product with 1 is rounded once more. -/
theorem mul_one (h : IsLarge .positive u) :
    IsLarge .positive (mul Format.binary64 u (Float.Model.ofBits one.bits).unpack) := by
  have hone : (Float.Model.ofBits one.bits).unpack = .finite .positive (2 ^ 52) (-52) (by decide) := rfl
  rw [hone]
  cases h with
  | infinity => exact .infinity
  | @finite m e hpos hm he =>
    have hlog : (m * 2 ^ 52).log2 = m.log2 + 52 := log2_mul_pow hpos.ne' 52
    refine .roundWithAccuracy .positive .exact ?_ ?_
    · omega
    · simp only [totalExponent]
      omega

end IsLarge

/-! ## Integers -/

theorem le_totalExponent {n : Nat} (h : 2 ≤ n) : 2 ≤ totalExponent n 0 := by
  have hlog : 1 ≤ n.log2 := (Nat.le_log2 (by omega)).2 h
  simp only [totalExponent]
  omega

/-- A count below 2 ^ 53 is stored as it is and multiplied by 1; a larger one is rounded from more bits. -/
theorem exists_ofNat {n : Nat} (h : 2 ≤ n) :
    ∃ u, IsLarge .positive u ∧ Float.ofNat n = .ofModel (Float.Model.pack u) := by
  have hpos : n ≠ 0 := by omega
  by_cases hsmall : n < 2 ^ 53
  · -- a number below `2 ^ 53` goes through a word
    have hword : n.toUInt64.toNat = n := by
      rw [Nat.toUInt64, UInt64.toNat_ofNat']
      omega
    have hstored : IsLarge .positive (ofUInt64 Format.binary64 n.toUInt64) := by
      have hcompare : compare (n : Int) 0 = .gt := Int.compare_eq_gt.2 (by omega)
      simp only [ofUInt64, ofNat, UnpackedFloat.ofInt, UnpackedFloat.normalize, hword, hcompare, Int.toNat_natCast]
      exact .round .positive hpos (le_totalExponent h)
    refine ⟨_, hstored.unpack_pack.mul_one, ?_⟩
    show Float.ofScientific n false 0 = _
    rw [Float.ofScientific, dif_pos ⟨hsmall, Nat.zero_le 22⟩]
    rfl
  · -- a larger one is read as a decimal without fraction
    have hlog : (n <<< 53 * 1).log2 = n.log2 + 53 := by
      rw [Nat.mul_one, Nat.shiftLeft_eq]
      exact log2_mul_pow hpos 53
    have htotal := le_totalExponent h
    simp only [totalExponent] at htotal
    have hrounded : IsLarge .positive (ofScientific Format.binary64 n 0) := by
      have hlow : ¬(0 : Int) < -(2 ^ 11 + n.log2) := by omega
      rw [ofScientific, dif_neg hpos, if_neg (by decide), if_neg hlow, if_pos (Int.le_refl 0)]
      have hround : IsLarge .positive (roundWithAccuracy Format.binary64 .positive (n <<< 53 * 1) (-53) .exact) := by
        refine .roundWithAccuracy .positive .exact ?_ ?_
        · omega
        · simp only [totalExponent]
          omega
      exact hround
    refine ⟨_, hrounded, ?_⟩
    show Float.ofScientific n false 0 = _
    rw [Float.ofScientific, dif_neg (fun hfast => hsmall hfast.1)]
    rfl

theorem rank_of_isFraction {d : Double} (h : d.isFraction = true) : 0 < d.rank ∧ d.rank ≤ 0x3FF0000000000000 := by
  simp only [isFraction, lt, le, Bool.and_eq_true, decide_eq_true_eq] at h
  exact ⟨h.1.2, h.2.2⟩

/-- A large number is negative or beyond 1. -/
theorem IsLarge.isFraction_eq_false (h : IsLarge s u) :
    (ofFloat (.ofModel (Float.Model.pack u))).isFraction = false := by
  obtain ⟨magnitude, hlow, hhigh, hbits⟩ := h.toNat_pack
  generalize hd : ofFloat (.ofModel (Float.Model.pack u)) = d
  have hnat : d.bits.toNat = s.toBitVec.toNat * 2 ^ 63 + magnitude := by
    rw [← hd, ← hbits]
    rfl
  have hmagnitude : d.magnitude = magnitude := by
    rw [Double.magnitude, hnat]
    omega
  rw [Bool.eq_false_iff]
  intro hfraction
  obtain ⟨hpos, hle⟩ := rank_of_isFraction hfraction
  rw [rank, isNegative, hnat, hmagnitude] at hpos hle
  split at hpos <;> rename_i hnegative
  · omega
  · rw [if_neg hnegative] at hle
    omega

/-- Only 1 is a fraction among the integers. -/
theorem isFraction_ofInt_iff (n : Int) : (ofInt n).isFraction = true ↔ n = 1 := by
  constructor
  · intro h
    by_contra hne
    refine Bool.false_ne_true (Eq.trans (Eq.symm ?_) h)
    match n with
    | .ofNat 0 => decide
    | .ofNat 1 => exact absurd rfl hne
    | .ofNat (n + 2) =>
      obtain ⟨u, hu, hn⟩ := exists_ofNat (Nat.le_add_left 2 n)
      show (ofFloat (Float.ofNat (n + 2))).isFraction = false
      rw [hn]
      exact hu.isFraction_eq_false
    | .negSucc 0 => decide
    | .negSucc (n + 1) =>
      obtain ⟨u, hu, hn⟩ := exists_ofNat (Nat.le_add_left 2 n)
      show (ofFloat (Float.ofNat (n + 2)).neg).isFraction = false
      rw [hn]
      exact hu.unpack_pack.neg.isFraction_eq_false
  · rintro rfl
    decide

end Playbook.Double
