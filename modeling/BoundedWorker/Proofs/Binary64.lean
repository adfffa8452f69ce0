import BoundedWorker.Decimal.Nearest
import Mathlib

/-!
Positive binary64 numbers as natural numbers. Counted in units of the least positive number, every
finite one has a whole size, and the bits of larger numbers are larger numbers. A product is rounded
by one quotient of natural numbers whose divisor grows with the product, so that products of larger
numbers have larger bits.
-/

namespace BoundedWorker

namespace Decimal

theorem le_nearestEven {n num den : Nat} (hden : 0 < den) (h : n * den ≤ num) :
    n ≤ nearestEven num den := by
  have hq : n ≤ num / den := (Nat.le_div_iff_mul_le hden).2 h
  unfold nearestEven
  dsimp only
  split_ifs <;> omega

theorem nearestEven_le {n num den : Nat} (hden : 0 < den) (h : num ≤ n * den) :
    nearestEven num den ≤ n := by
  have hmod := Nat.div_add_mod num den
  rcases Nat.lt_or_ge (num / den) n with hlt | hge
  · unfold nearestEven
    dsimp only
    split_ifs <;> omega
  · have hmul : den * n ≤ den * (num / den) := Nat.mul_le_mul_left den hge
    have hzero : num % den = 0 := by
      rw [Nat.mul_comm n den] at h
      omega
    have hq : num / den ≤ n := Nat.div_le_of_le_mul (by rwa [Nat.mul_comm] at h)
    simpa [nearestEven, hzero, hden] using hq

theorem nearestEven_mono {num num' : Nat} (den : Nat) (h : num ≤ num') :
    nearestEven num den ≤ nearestEven num' den := by
  have hq : num / den ≤ num' / den := Nat.div_le_div_right h
  rcases Nat.lt_or_eq_of_le hq with hlt | heq
  · have hle : nearestEven num den ≤ num / den + 1 := by
      unfold nearestEven
      dsimp only
      split_ifs <;> omega
    have hge : num' / den ≤ nearestEven num' den := by
      unfold nearestEven
      dsimp only
      split_ifs <;> omega
    exact hle.trans (hlt.trans_le hge)
  -- the quotients agree, so the remainders decide
  · have hmod : num % den ≤ num' % den := by
      have h1 := Nat.div_add_mod num den
      have h2 := Nat.div_add_mod num' den
      rw [heq] at h1
      omega
    unfold nearestEven
    dsimp only
    rw [heq]
    split_ifs <;> omega

theorem nearestEven_mul_right (num den : Nat) {k : Nat} (hk : 0 < k) :
    nearestEven (num * k) (den * k) = nearestEven num den := by
  have hlt : ∀ a b : Nat, a * k < b * k ↔ a < b := fun a b => Nat.mul_lt_mul_right hk
  unfold nearestEven
  rw [Nat.mul_div_mul_right _ _ hk, Nat.mul_mod_mul_right, ← Nat.mul_assoc]
  simp only [hlt]

end Decimal

/-- The significand of a positive binary64 number, and the power of two that it counts, from that of
the least positive number on. -/
structure Binary64 where
  significand : Nat
  power : Nat
  pos : 0 < significand
  lt : significand < 2 ^ 53
  normal : power = 0 ∨ 2 ^ 52 ≤ significand

namespace Binary64

variable (b c : Binary64)

def size : Nat := b.significand * 2 ^ b.power

def bits : Nat := b.power * 2 ^ 52 + b.significand

theorem size_le_of_bits_le {b c : Binary64} (h : b.bits ≤ c.bits) : b.size ≤ c.size := by
  have hb := b.lt
  have hc := c.lt
  have hnormal := c.normal
  simp only [bits] at h
  rcases Nat.lt_trichotomy b.power c.power with hlt | heq | hgt
  · calc b.significand * 2 ^ b.power ≤ 2 ^ 53 * 2 ^ b.power := Nat.mul_le_mul_right _ hb.le
      _ = 2 ^ 52 * 2 ^ (b.power + 1) := by ring
      _ ≤ c.significand * 2 ^ c.power := by
        refine Nat.mul_le_mul ?_ (Nat.pow_le_pow_right (by decide) hlt)
        omega
  · rw [size, size, heq]
    exact Nat.mul_le_mul_right _ (by omega)
  · have hnormal' := b.normal
    omega

open Decimal (nearestEven nearestEven_mono nearestEven_le le_nearestEven nearestEven_mul_right)

/-- The power of the last bit that is kept of `v`, a number in units `2 ^ k` times smaller than the
least positive number. -/
def lastKept (k v : Nat) : Nat := max (v.log2 - 52) k

def roundedBits (k v : Nat) : Nat :=
  (lastKept k v - k) * 2 ^ 52 + nearestEven v (2 ^ lastKept k v)

theorem nearestEven_lastKept_le (k v : Nat) : nearestEven v (2 ^ lastKept k v) ≤ 2 ^ 53 := by
  refine nearestEven_le (Nat.two_pow_pos _) ?_
  calc v ≤ 2 ^ (v.log2 + 1) := Nat.lt_log2_self.le
    _ ≤ 2 ^ (53 + lastKept k v) := Nat.pow_le_pow_right (by decide) (by unfold lastKept; omega)
    _ = 2 ^ 53 * 2 ^ lastKept k v := Nat.pow_add ..

theorem le_nearestEven_lastKept {k v : Nat} (h : k < lastKept k v) :
    2 ^ 52 ≤ nearestEven v (2 ^ lastKept k v) := by
  have hv : v ≠ 0 := by
    rintro rfl
    simp [lastKept] at h
  refine le_nearestEven (Nat.two_pow_pos _) ?_
  calc 2 ^ 52 * 2 ^ lastKept k v = 2 ^ (52 + lastKept k v) := (Nat.pow_add ..).symm
    _ ≤ 2 ^ v.log2 := Nat.pow_le_pow_right (by decide) (by unfold lastKept at h ⊢; omega)
    _ ≤ v := Nat.log2_self_le hv

theorem roundedBits_mono (k : Nat) {v v' : Nat} (h : v ≤ v') :
    roundedBits k v ≤ roundedBits k v' := by
  have hkept : lastKept k v ≤ lastKept k v' := by
    have hlog : v.log2 ≤ v'.log2 := by
      rcases Nat.eq_zero_or_pos v with rfl | hv
      · simp
      · exact (Nat.le_log2 (by omega)).2 ((Nat.log2_self_le hv.ne').trans h)
    unfold lastKept
    omega
  rcases Nat.lt_or_eq_of_le hkept with hlt | heq
  · have hle := nearestEven_lastKept_le k v
    have hge := le_nearestEven_lastKept (k := k) (v := v') (by unfold lastKept at *; omega)
    have hk : k ≤ lastKept k v := Nat.le_max_right ..
    unfold roundedBits
    omega
  · unfold roundedBits
    rw [heq]
    exact Nat.add_le_add_left (nearestEven_mono _ h) _

open Float.Model (Format UnpackedFloat totalExponent)
open Float.Model.UnpackedFloat (ExtendedMantissa Accuracy roundWithAccuracy shiftToTargetExponent)

/-- Of the bits that are shifted out two things are kept: the last one, and whether any before it
was set. -/
theorem shiftRight_eq (m r : Nat) : ExtendedMantissa.ofMantissaAndAccuracy m .exact >>> r =
    ⟨m / 2 ^ r, decide (2 ^ r ≤ 2 * (m % 2 ^ r)), decide (2 * (m % 2 ^ r) % 2 ^ r ≠ 0)⟩ := by
  change Nat.repeat ExtendedMantissa.shiftRightOne r _ = _
  induction r with
  | zero => simp [Nat.repeat, ExtendedMantissa.ofMantissaAndAccuracy, Nat.mod_one]
  | succ r ih =>
    have hmod : m % 2 ^ (r + 1) = m % 2 ^ r + 2 ^ r * (m / 2 ^ r % 2) := Nat.mod_pow_succ
    have hlt : m % 2 ^ r < 2 ^ r := Nat.mod_lt _ (Nat.two_pow_pos r)
    have hbit : m / 2 ^ r % 2 = 0 ∨ m / 2 ^ r % 2 = 1 := Nat.mod_two_eq_zero_or_one _
    have hpow : 2 ^ (r + 1) = 2 * 2 ^ r := Nat.pow_succ'
    -- the bits below the last one are gone unless both of the two that are kept are unset
    have hgone : (2 ^ r ≤ 2 * (m % 2 ^ r) ∨ 2 * (m % 2 ^ r) % 2 ^ r ≠ 0) ↔ m % 2 ^ r ≠ 0 := by
      constructor
      · rintro h hzero
        simp [hzero] at h
      · intro hne
        by_cases hle : 2 ^ r ≤ 2 * (m % 2 ^ r)
        · exact .inl hle
        · rw [Nat.mod_eq_of_lt (Nat.lt_of_not_le hle)]
          exact .inr (by omega)
    have hbelow : 2 * (m % 2 ^ (r + 1)) % 2 ^ (r + 1) = 2 * (m % 2 ^ r) := by
      rw [hpow, Nat.mul_mod_mul_left, ← hpow, Nat.mod_mod_of_dvd _ (Nat.pow_dvd_pow 2 r.le_succ)]
    rw [Nat.repeat, ih]
    simp only [ExtendedMantissa.shiftRightOne, ExtendedMantissa.mk.injEq]
    refine ⟨?_, ?_, ?_⟩
    · rw [Nat.div_div_eq_div_mul, ← Nat.pow_succ]
    · rw [hmod, hpow, Bool.eq_iff_iff, decide_eq_true_iff, bne_iff_ne]
      rcases hbit with hbit | hbit <;> rw [hbit] <;> omega
    · rw [hbelow, Bool.eq_iff_iff, Bool.or_eq_true, decide_eq_true_iff, decide_eq_true_iff,
        decide_eq_true_iff, hgone]
      omega

theorem roundedMantissa_shiftRight (m r : Nat) :
    (ExtendedMantissa.ofMantissaAndAccuracy m .exact >>> r).roundedMantissa =
      nearestEven m (2 ^ r) := by
  have hlt : m % 2 ^ r < 2 ^ r := Nat.mod_lt _ (Nat.two_pow_pos r)
  rw [shiftRight_eq, ExtendedMantissa.roundedMantissa, nearestEven]
  dsimp only
  rcases Nat.lt_trichotomy (2 * (m % 2 ^ r)) (2 ^ r) with h | h | h
  · rw [Nat.mod_eq_of_lt h, if_pos h, decide_eq_false (Nat.not_le.2 h)]
    by_cases hzero : 2 * (m % 2 ^ r) = 0
    · simp [hzero, ExtendedMantissa.accuracy, Accuracy.roundToNearestEven]
    · simp [hzero, ExtendedMantissa.accuracy, Accuracy.roundToNearestEven]
  · rcases Nat.mod_two_eq_zero_or_one (m / 2 ^ r) with hbit | hbit
    · simp [h, hbit, ExtendedMantissa.accuracy, Accuracy.roundToNearestEven]
    · simp [h, hbit, ExtendedMantissa.accuracy, Accuracy.roundToNearestEven]
  · have hrest : 2 * (m % 2 ^ r) % 2 ^ r ≠ 0 := by
      rw [Nat.mod_eq_sub_mod h.le, Nat.mod_eq_of_lt (by omega)]
      omega
    rw [decide_eq_true h.le, decide_eq_true hrest, if_neg h.le.not_gt, if_pos h]
    rfl

theorem shiftToTargetExponent_eq (m : Nat) (e : Int) {r : Nat}
    (hr : (max ((m.log2 : Int) + 1 + e - 53) (-1074) - e).toNat = r) :
    shiftToTargetExponent Format.binary64 m e .exact =
      (ExtendedMantissa.ofMantissaAndAccuracy m .exact >>> r, e + r) := by
  subst hr
  rfl

theorem shiftToTargetExponent_long {e : Int} (h : -1074 ≤ e) :
    shiftToTargetExponent Format.binary64 (2 ^ 53) e .exact = (⟨2 ^ 52, false, false⟩, e + 1) := by
  rw [shiftToTargetExponent_eq (r := 1) _ _ (by rw [Nat.log2_two_pow]; omega), shiftRight_eq]
  rfl

theorem shiftToTargetExponent_short {n : Nat} {e : Int} (pos : 0 < n) (lt : n < 2 ^ 53)
    (h : -1074 ≤ e) :
    shiftToTargetExponent Format.binary64 n e .exact = (⟨n, false, false⟩, e) := by
  have hshort : n.log2 < 53 := (Nat.log2_lt pos.ne').2 lt
  rw [shiftToTargetExponent_eq (r := 0) _ _ (by omega), Int.natCast_zero, Int.add_zero]
  rfl

theorem roundWithAccuracy_of_shifts {m n : Nat} {e e₁ e₂ : Int} {em₁ em₂ : ExtendedMantissa}
    (first : shiftToTargetExponent Format.binary64 m e .exact = (em₁, e₁))
    (hn : em₁.roundedMantissa = n)
    (second : shiftToTargetExponent Format.binary64 n e₁ .exact = (em₂, e₂))
    (pos : 0 < em₂.mantissa) : roundWithAccuracy Format.binary64 .positive m e .exact =
      .finite .positive em₂.mantissa e₂ pos := by
  unfold roundWithAccuracy
  rw [first]
  dsimp only
  rw [hn, second]
  exact dif_neg pos.ne'

def unpacked : UnpackedFloat :=
  .finite .positive b.significand ((b.power : Int) - 1074) b.pos

/-- The significand may be one bit too long after rounding, and then loses its last bit, a zero. -/
def rounded (k v : Nat) (h : 2 ^ k ≤ v) : Binary64 :=
  if hlong : nearestEven v (2 ^ lastKept k v) = 2 ^ 53 then
    ⟨2 ^ 52, lastKept k v - k + 1, by decide, by decide, .inr le_rfl⟩
  else
    ⟨nearestEven v (2 ^ lastKept k v), lastKept k v - k, by
      rcases Nat.lt_or_eq_of_le (Nat.le_max_right (v.log2 - 52) k) with hlt | heq
      · exact (Nat.two_pow_pos 52).trans_le (le_nearestEven_lastKept hlt)
      · rw [lastKept, ← heq]
        exact le_nearestEven (Nat.two_pow_pos k) (by rwa [Nat.one_mul]),
    Nat.lt_of_le_of_ne (nearestEven_lastKept_le k v) hlong, by
      rcases Nat.lt_or_eq_of_le (Nat.le_max_right (v.log2 - 52) k) with hlt | heq
      · exact .inr (le_nearestEven_lastKept hlt)
      · exact .inl (by rw [lastKept, ← heq, Nat.sub_self])⟩

theorem rounded_bits {k v : Nat} (h : 2 ^ k ≤ v) : (rounded k v h).bits = roundedBits k v := by
  unfold rounded
  split
  · rename_i hlong
    rw [bits, roundedBits, hlong]
    ring
  · rfl

theorem lastKept_mul {m : Nat} (hm : 2 ^ 52 ≤ m) (k p : Nat) :
    lastKept k (m * 2 ^ p) = p + (max ((m.log2 : Int) - 52) (k - p)).toNat := by
  have hpos : 0 < m := (Nat.two_pow_pos 52).trans_le hm
  have hlog : (m * 2 ^ p).log2 = m.log2 + p := by
    refine (Nat.log2_eq_iff (Nat.mul_pos hpos (Nat.two_pow_pos p)).ne').2 ⟨?_, ?_⟩
    · rw [Nat.pow_add]
      exact Nat.mul_le_mul_right _ (Nat.log2_self_le hpos.ne')
    · rw [Nat.add_right_comm, Nat.pow_add]
      exact Nat.mul_lt_mul_of_pos_right Nat.lt_log2_self (Nat.two_pow_pos p)
  have hlong : 52 ≤ m.log2 := (Nat.le_log2 hpos.ne').2 hm
  unfold lastKept
  rw [hlog]
  omega

theorem roundWithAccuracy_eq {k m p : Nat} (hm : 2 ^ 52 ≤ m) (h : 2 ^ k ≤ m * 2 ^ p) :
    roundWithAccuracy Format.binary64 .positive m ((p : Int) - 1074 - k) .exact =
      (rounded k (m * 2 ^ p) h).unpacked := by
  have hkept := lastKept_mul hm k p
  have hk : k ≤ lastKept k (m * 2 ^ p) := Nat.le_max_right ..
  generalize hr : (max ((m.log2 : Int) - 52) (k - p)).toNat = r at hkept
  have hshift : (max ((m.log2 : Int) + 1 + ((p : Int) - 1074 - k) - 53) (-1074) -
      ((p : Int) - 1074 - k)).toNat = r := by omega
  have he : (p : Int) - 1074 - k + r = (lastKept k (m * 2 ^ p) - k : Nat) - 1074 := by omega
  have hfirst := shiftToTargetExponent_eq m ((p : Int) - 1074 - k) hshift
  rw [he] at hfirst
  have hmantissa : (ExtendedMantissa.ofMantissaAndAccuracy m .exact >>> r).roundedMantissa =
      nearestEven (m * 2 ^ p) (2 ^ lastKept k (m * 2 ^ p)) := by
    rw [roundedMantissa_shiftRight, hkept, Nat.add_comm, Nat.pow_add,
      nearestEven_mul_right _ _ (Nat.two_pow_pos p)]
  have hleast : -1074 ≤ ((lastKept k (m * 2 ^ p) - k : Nat) : Int) - 1074 := by omega
  by_cases hlong : nearestEven (m * 2 ^ p) (2 ^ lastKept k (m * 2 ^ p)) = 2 ^ 53
  · rw [roundWithAccuracy_of_shifts hfirst (hmantissa.trans hlong)
      (shiftToTargetExponent_long hleast) (Nat.two_pow_pos 52), rounded, dif_pos hlong, unpacked]
    simp only [UnpackedFloat.finite.injEq, true_and]
    omega
  · have hlt := Nat.lt_of_le_of_ne (nearestEven_lastKept_le k (m * 2 ^ p)) hlong
    have hpos := (rounded k (m * 2 ^ p) h).pos
    rw [rounded, dif_neg hlong] at hpos ⊢
    exact roundWithAccuracy_of_shifts hfirst hmantissa
      (shiftToTargetExponent_short hpos hlt hleast) hpos

open Float.Model.UnpackedFloat (Sign packComponents unpackSign unpackExponent unpackMantissa)

theorem packComponents_toNat (e : BitVec 11) (m : BitVec 52) :
    (packComponents Format.binary64 .positive e m).toNat = e.toNat * 2 ^ 52 + m.toNat := by
  have he : (Sign.positive.toBitVec ++ e).toNat = e.toNat := by
    rw [BitVec.toNat_append, ← Nat.shiftLeft_add_eq_or_of_lt e.isLt]
    simp [Sign.toBitVec]
  rw [packComponents, BitVec.toNat_append, ← Nat.shiftLeft_add_eq_or_of_lt m.isLt, he,
    Nat.shiftLeft_eq]

theorem pack_toNat : (UnpackedFloat.pack Format.binary64 b.unpacked).toNat =
    min b.bits Decimal.infinityBits := by
  have hlt := b.lt
  have hpos := b.pos
  have hnormal := b.normal
  have hinf : Decimal.infinityBits = 2047 * 2 ^ 52 := rfl
  have hbiased : ((b.power : Int) - 1074 + Format.binary64.exponentBias +
      Format.binary64.mantissaBitsWithoutImplicit).toNat = b.power + 1 := by
    have hbias : (Format.binary64.exponentBias : Int) = 1023 := rfl
    have hbits : (Format.binary64.mantissaBitsWithoutImplicit : Int) = 52 := rfl
    omega
  have hlog : b.significand.log2 + 1 = Format.binary64.mantissaBits ↔ 2 ^ 52 ≤ b.significand := by
    have hbits : Format.binary64.mantissaBits = 53 := rfl
    have hshort : b.significand.log2 < 53 := (Nat.log2_lt hpos.ne').2 hlt
    rw [← Nat.le_log2 hpos.ne']
    omega
  rw [unpacked, UnpackedFloat.pack]
  dsimp only
  rw [hbiased, bits, hinf]
  split
  · have hpacked : (UnpackedFloat.packedInfinity Format.binary64 .positive).toNat =
        2047 * 2 ^ 52 := rfl
    rw [hpacked]
    omega
  · split
    · rename_i hlong
      have hge := hlog.1 hlong
      rw [packComponents_toNat, BitVec.toNat_ofNat, BitVec.toNat_ofNat]
      omega
    · rename_i hshort
      have hsmall := Nat.lt_of_not_le (hlog.not.1 hshort)
      rw [packComponents_toNat, BitVec.toNat_ofNat, BitVec.toNat_ofNat]
      omega

section Unpack

variable {v : BitVec Format.binary64.numBits}

theorem unpackMantissa_toNat : (unpackMantissa v).toNat = v.toNat % 2 ^ 52 := by
  simp [Float.Model.UnpackedFloat.unpackMantissa_def]

theorem unpackExponent_toNat : (unpackExponent v).toNat = v.toNat / 2 ^ 52 % 2 ^ 11 := by
  simp [Float.Model.UnpackedFloat.unpackExponent_def, Nat.shiftRight_eq_div_pow]

theorem unpackSign_toNat : (unpackSign v).toNat = v.toNat / 2 ^ 63 % 2 := by
  simp [Float.Model.UnpackedFloat.unpackSign_def, Nat.shiftRight_eq_div_pow]

theorem unpackMantissa_eq_zero_iff : unpackMantissa v = 0#_ ↔ v.toNat % 2 ^ 52 = 0 := by
  rw [← unpackMantissa_toNat]
  exact BitVec.toNat_eq

theorem unpackExponent_eq_zero_iff : unpackExponent v = 0#_ ↔ v.toNat / 2 ^ 52 % 2 ^ 11 = 0 := by
  rw [← unpackExponent_toNat]
  exact BitVec.toNat_eq

theorem unpackExponent_eq_ones_iff :
    unpackExponent v = -1#_ ↔ v.toNat / 2 ^ 52 % 2 ^ 11 = 2047 := by
  rw [← unpackExponent_toNat]
  exact BitVec.toNat_eq

theorem sign_eq_positive_iff :
    Sign.ofBitVec (unpackSign v) = .positive ↔ v.toNat < 2 ^ 63 := by
  have hv : v.toNat < 2 ^ 64 := v.isLt
  have hzero : unpackSign v = 0#1 ↔ v.toNat / 2 ^ 63 % 2 = 0 := by
    rw [← unpackSign_toNat]
    exact BitVec.toNat_eq
  rw [Sign.ofBitVec]
  by_cases hsign : unpackSign v = 0#1
  · have hbit := hzero.1 hsign
    simp only [hsign, if_true, true_iff]
    omega
  · have hbit := hzero.not.1 hsign
    simp only [hsign, if_false, reduceCtorEq, false_iff]
    omega

def ofBits (n : Nat) (pos : 0 < n) : Binary64 :=
  if hsmall : n < 2 ^ 52 then ⟨n, 0, pos, by omega, .inl rfl⟩
  else ⟨2 ^ 52 + n % 2 ^ 52, n / 2 ^ 52 - 1, by omega, by omega, .inr (by omega)⟩

theorem ofBits_bits {n : Nat} (pos : 0 < n) : (ofBits n pos).bits = n := by
  unfold ofBits
  split
  · simp [bits]
  · simp only [bits]
    omega

theorem unpack_eq (pos : 0 < v.toNat) (lt : v.toNat < Decimal.infinityBits) :
    UnpackedFloat.unpack Format.binary64 v = (ofBits v.toNat pos).unpacked := by
  have hinf : Decimal.infinityBits = 2047 * 2 ^ 52 := rfl
  have hbias : (Format.binary64.exponentBias : Int) = 1023 := rfl
  have hbits : (Format.binary64.mantissaBitsWithoutImplicit : Int) = 52 := rfl
  have hexponent : (unpackExponent v).toNat = v.toNat / 2 ^ 52 := by
    rw [unpackExponent_toNat]
    omega
  rw [UnpackedFloat.unpack]
  dsimp only
  rw [sign_eq_positive_iff.2 (by omega), if_neg (unpackExponent_eq_ones_iff.not.2 (by omega)),
    hexponent]
  by_cases hsmall : v.toNat < 2 ^ 52
  · rw [if_pos (unpackExponent_eq_zero_iff.2 (by omega)),
      dif_neg (unpackMantissa_eq_zero_iff.not.2 (by omega)), ofBits, dif_pos hsmall, unpacked]
    simp only [UnpackedFloat.finite.injEq, true_and, unpackMantissa_toNat]
    omega
  · have hone : (1#1 ++ unpackMantissa v).toNat = 2 ^ 52 + v.toNat % 2 ^ 52 := by
      rw [BitVec.toNat_append, ← Nat.shiftLeft_add_eq_or_of_lt (unpackMantissa v).isLt,
        unpackMantissa_toNat]
      rfl
    rw [if_neg (unpackExponent_eq_zero_iff.not.2 (by omega)), ofBits, dif_neg hsmall, unpacked]
    simp only [UnpackedFloat.finite.injEq, true_and]
    omega

theorem unpack_infinity (h : v.toNat = Decimal.infinityBits) :
    UnpackedFloat.unpack Format.binary64 v = .infinity .positive := by
  have hv : v = BitVec.ofNat _ Decimal.infinityBits := BitVec.eq_of_toNat_eq h
  rw [hv]
  rfl

theorem toNat_of_zero_lt
    (h : (UnpackedFloat.zero .positive).lt (UnpackedFloat.unpack Format.binary64 v) = true) :
    0 < v.toNat ∧ v.toNat ≤ Decimal.infinityBits := by
  have hinf : Decimal.infinityBits = 2047 * 2 ^ 52 := rfl
  rw [UnpackedFloat.unpack] at h
  dsimp only at h
  generalize hs : Sign.ofBitVec (unpackSign v) = s at h
  cases s with
  | negative => split_ifs at h <;> cases h
  | positive =>
    have hlt := sign_eq_positive_iff.1 hs
    split_ifs at h with hones hzero hnone hzero
    · have hexponent := unpackExponent_eq_ones_iff.1 hones
      have hmantissa := unpackMantissa_eq_zero_iff.1 hzero
      omega
    · cases h
    · cases h
    · have hexponent := unpackExponent_eq_zero_iff.1 hnone
      have hmantissa := unpackMantissa_eq_zero_iff.not.1 hzero
      omega
    · have hexponent := unpackExponent_eq_zero_iff.not.1 hnone
      have hexponent' := unpackExponent_eq_ones_iff.not.1 hones
      omega

end Unpack

theorem bits_le_of_unpacked_le {b c : Binary64} (h : b.unpacked.le c.unpacked = true) :
    b.bits ≤ c.bits := by
  have hle : ((compare ((b.power : Int) - 1074) ((c.power : Int) - 1074)).then
      (compare b.significand c.significand)).isLE = true := h
  have hb := b.lt
  have hc := c.lt
  have hnormal := c.normal
  rw [Ordering.isLE_then_iff_or] at hle
  simp only [bits]
  rcases hle with hlt | ⟨heq, hle⟩
  · have hpower := compare_lt_iff_lt.1 hlt
    omega
  · have hpower := compare_eq_iff_eq.1 heq
    have hsignificand := Nat.isLE_compare.1 hle
    omega

end Binary64

theorem isFinite_eq_false_iff (x : Float) :
    x.isFinite = false ↔ x.isNaN = true ∨ x.isInf = true := by
  change x.toModel.unpack.isFinite = false ↔
    x.toModel.unpack.isNaN = true ∨ x.toModel.unpack.isInf = true
  cases x.toModel.unpack with
  | notANumber => exact iff_of_true rfl (.inl rfl)
  | infinity s => exact iff_of_true rfl (.inr rfl)
  | zero s => exact iff_of_false nofun (by rintro (h | h) <;> cases h)
  | finite s m e pos => exact iff_of_false nofun (by rintro (h | h) <;> cases h)

open Float.Model (Format UnpackedFloat)

theorem zero_lt_iff (x : Float) :
    0 < x ↔ (UnpackedFloat.zero .positive).lt x.toModel.unpack = true :=
  decide_eq_true_iff

theorem float_le_iff (x y : Float) :
    x ≤ y ↔ x.toModel.unpack.le y.toModel.unpack = true :=
  decide_eq_true_iff

theorem zero_lt_iff_toBits (x : Float) :
    0 < x ↔ 0 < x.toBits.toNat ∧ x.toBits.toNat ≤ Decimal.infinityBits := by
  rw [zero_lt_iff]
  constructor
  · exact Binary64.toNat_of_zero_lt
  · rintro ⟨hpos, hle⟩
    rcases Nat.lt_or_eq_of_le hle with hlt | heq
    · exact congrArg (UnpackedFloat.zero .positive).lt (Binary64.unpack_eq hpos hlt)
    · exact congrArg (UnpackedFloat.zero .positive).lt (Binary64.unpack_infinity heq)

theorem positive_cases {x : Float} (h : 0 < x) :
    x.toBits.toNat = Decimal.infinityBits ∧ x.toModel.unpack = .infinity .positive ∨
      ∃ b : Binary64, x.toBits.toNat = b.bits ∧ b.bits < Decimal.infinityBits ∧
        x.toModel.unpack = b.unpacked := by
  obtain ⟨hpos, hle⟩ := (zero_lt_iff_toBits x).1 h
  rcases Nat.lt_or_eq_of_le hle with hlt | heq
  · refine .inr ⟨.ofBits _ hpos, (Binary64.ofBits_bits hpos).symm, ?_, Binary64.unpack_eq hpos hlt⟩
    rwa [Binary64.ofBits_bits]
  · exact .inl ⟨heq, Binary64.unpack_infinity heq⟩

theorem zero_lt_of_le {x y : Float} (h : 0 < x) (le : x ≤ y) : 0 < y := by
  rw [float_le_iff] at le
  rw [zero_lt_iff]
  rcases positive_cases h with ⟨-, hx⟩ | ⟨b, -, -, hx⟩
  · rw [hx] at le
    generalize y.toModel.unpack = u at le
    cases u with
    | infinity s => cases s <;> first | rfl | cases le
    | _ => cases le
  · rw [hx] at le
    generalize y.toModel.unpack = u at le
    cases u with
    | infinity s => cases s <;> first | rfl | cases le
    | finite s => cases s <;> first | rfl | cases le
    | _ => cases le

theorem toBits_le_of_le {x y : Float} (h : 0 < x) (le : x ≤ y) :
    x.toBits.toNat ≤ y.toBits.toNat := by
  rcases positive_cases (zero_lt_of_le h le) with ⟨hy, -⟩ | ⟨c, hy, hlt, hc⟩
  · exact hy ▸ ((zero_lt_iff_toBits x).1 h).2
  · rw [float_le_iff, hc] at le
    rcases positive_cases h with ⟨-, hx⟩ | ⟨b, hx, -, hb⟩
    · rw [hx] at le
      cases le
    · rw [hx, hy]
      exact Binary64.bits_le_of_unpacked_le (hb ▸ le)

section Product

variable {x y factor : Float} {m k : Nat} {pos : 0 < m}

theorem mul_infinity (hx : x.toModel.unpack = .infinity .positive)
    (hfactor : factor.toModel.unpack = .finite .positive m (-k) pos) :
    (x * factor).toBits.toNat = Decimal.infinityBits := by
  change (UnpackedFloat.pack Format.binary64
    (UnpackedFloat.mul Format.binary64 x.toModel.unpack factor.toModel.unpack)).toNat = _
  rw [hx, hfactor]
  rfl

theorem mul_toBits {b : Binary64} (hx : x.toModel.unpack = b.unpacked)
    (hfactor : factor.toModel.unpack = .finite .positive m (-k) pos) (long : 2 ^ 52 ≤ m)
    (whole : 2 ^ k ≤ m) : (x * factor).toBits.toNat =
      min (Binary64.roundedBits k (b.size * m)) Decimal.infinityBits := by
  have hsize : b.significand * m * 2 ^ b.power = b.size * m := by
    rw [Binary64.size, Nat.mul_right_comm]
  have hlong : 2 ^ 52 ≤ b.significand * m := long.trans (Nat.le_mul_of_pos_left m b.pos)
  have hwhole : 2 ^ k ≤ b.significand * m * 2 ^ b.power :=
    (whole.trans (Nat.le_mul_of_pos_left m b.pos)).trans
      (Nat.le_mul_of_pos_right _ (Nat.two_pow_pos _))
  change (UnpackedFloat.pack Format.binary64
    (UnpackedFloat.mul Format.binary64 x.toModel.unpack factor.toModel.unpack)).toNat = _
  rw [hx, hfactor]
  change (UnpackedFloat.pack Format.binary64 (UnpackedFloat.roundWithAccuracy Format.binary64
    .positive (b.significand * m) ((b.power : Int) - 1074 - k) .exact)).toNat = _
  rw [Binary64.roundWithAccuracy_eq hlong hwhole, Binary64.pack_toNat, Binary64.rounded_bits, hsize]

theorem mul_positive (hfactor : factor.toModel.unpack = .finite .positive m (-k) pos)
    (long : 2 ^ 52 ≤ m) (whole : 2 ^ k ≤ m) (h : 0 < x) : 0 < x * factor := by
  rw [zero_lt_iff_toBits]
  rcases positive_cases h with ⟨-, hx⟩ | ⟨b, -, -, hb⟩
  · rw [mul_infinity hx hfactor]
    exact ⟨by decide, le_rfl⟩
  · have hwhole : 2 ^ k ≤ b.size * m :=
      whole.trans (Nat.le_mul_of_pos_left m (Nat.mul_pos b.pos (Nat.two_pow_pos _)))
    have hrounded : 0 < Binary64.roundedBits k (b.size * m) := by
      rw [← Binary64.rounded_bits hwhole, Binary64.bits]
      exact Nat.add_pos_right _ (Binary64.rounded k _ hwhole).pos
    rw [mul_toBits hb hfactor long whole]
    exact ⟨lt_min hrounded (by decide), Nat.min_le_right _ _⟩

theorem mul_toBits_mono (hfactor : factor.toModel.unpack = .finite .positive m (-k) pos)
    (long : 2 ^ 52 ≤ m) (whole : 2 ^ k ≤ m) (h : 0 < x) (le : x ≤ y) :
    (x * factor).toBits.toNat ≤ (y * factor).toBits.toNat := by
  have hbits := toBits_le_of_le h le
  rcases positive_cases (zero_lt_of_le h le) with ⟨-, hy⟩ | ⟨c, hy, hlt, hc⟩
  · rw [mul_infinity hy hfactor]
    rcases positive_cases h with ⟨-, hx⟩ | ⟨b, -, -, hb⟩
    · rw [mul_infinity hx hfactor]
    · rw [mul_toBits hb hfactor long whole]
      exact Nat.min_le_right _ _
  · rcases positive_cases h with ⟨hx, -⟩ | ⟨b, hx, -, hb⟩
    · omega
    · rw [mul_toBits hb hfactor long whole, mul_toBits hc hfactor long whole]
      have hsize : b.size ≤ c.size := Binary64.size_le_of_bits_le (by omega)
      exact min_le_min_right _ (Binary64.roundedBits_mono k (Nat.mul_le_mul_right m hsize))

end Product

end BoundedWorker
