import BoundedWorker.Resources.Meter
import BoundedWorker.Proofs.Binary64

/-!
A meter is monotone where a larger amount never counts fewer units. The millionths of an amount are:
the product with a million rounds monotonely, the bits of a positive number are split into its
significand and its power, and what is left to round is a quotient of its size.
-/

namespace BoundedWorker

def Meter.Monotone (meter : Meter) : Prop := ∀ x y : Float, x ≤ y → meter.units x ≤ meter.units y

theorem split_eq {bits : UInt64} {b : Binary64} (h : bits.toNat = b.bits)
    (lt : b.bits < Decimal.infinityBits) :
    Decimal.split bits = (b.significand, (b.power : Int) - 1074) := by
  have hinf : Decimal.infinityBits = 2047 * 2 ^ 52 := rfl
  have hexponent : ((bits >>> 52) &&& 0x7FF).toNat = bits.toNat / 2 ^ 52 := by
    have hmod := Nat.and_two_pow_sub_one_eq_mod (bits.toNat / 2 ^ 52) 11
    rw [UInt64.toNat_and, UInt64.toNat_shiftRight, Nat.shiftRight_eq_div_pow]
    refine hmod.trans ?_
    omega
  have hfraction : (bits &&& 0xFFFFFFFFFFFFF).toNat = bits.toNat % 2 ^ 52 := by
    rw [UInt64.toNat_and]
    exact Nat.and_two_pow_sub_one_eq_mod bits.toNat 52
  have hlt := b.lt
  have hpos := b.pos
  have hnormal := b.normal
  have hpow : Nat.pow 2 52 = 2 ^ 52 := rfl
  rw [hinf] at lt
  rw [Decimal.split, hexponent, hfraction, h, hpow]
  unfold Binary64.bits at *
  split
  · refine Prod.ext ?_ ?_ <;> dsimp only <;> omega
  · refine Prod.ext ?_ ?_ <;> dsimp only <;> omega

theorem nearestNatural_sub (m p k : Nat) :
    nearestNatural m ((p : Int) - k) = (2 * (m * 2 ^ p) + 2 ^ k) / 2 ^ (k + 1) := by
  have hpow : ∀ n, Nat.pow 2 n = 2 ^ n := fun _ => rfl
  rw [nearestNatural]
  simp only [hpow]
  split
  · obtain ⟨d, rfl⟩ : ∃ d, p = k + d := ⟨p - k, by omega⟩
    have hd : (((k + d : Nat) : Int) - k).toNat = d := by omega
    have hlt : 2 ^ k < 2 ^ (k + 1) := Nat.pow_lt_pow_succ (by decide)
    have hnum : 2 * (m * 2 ^ (k + d)) + 2 ^ k = 2 ^ k + 2 ^ (k + 1) * (m * 2 ^ d) := by ring
    rw [hd, hnum, Nat.add_mul_div_left _ _ (Nat.two_pow_pos _), Nat.div_eq_of_lt hlt, Nat.zero_add]
  · obtain ⟨d, rfl⟩ : ∃ d, k = p + d := ⟨k - p, by omega⟩
    have hd : (-((p : Int) - (p + d : Nat))).toNat = d := by omega
    have hnum : 2 * (m * 2 ^ p) + 2 ^ (p + d) = (2 * m + 2 ^ d) * 2 ^ p := by ring
    have hden : 2 ^ (p + d + 1) = 2 ^ (d + 1) * 2 ^ p := by ring
    rw [hd, hnum, hden, Nat.mul_div_mul_right _ _ (Nat.two_pow_pos p)]

theorem nearestNatural_mono {b c : Binary64} (h : b.bits ≤ c.bits) :
    nearestNatural b.significand ((b.power : Int) - 1074) ≤
      nearestNatural c.significand ((c.power : Int) - 1074) := by
  have hb := nearestNatural_sub b.significand b.power 1074
  have hc := nearestNatural_sub c.significand c.power 1074
  refine (hb.trans_le (Nat.div_le_div_right ?_)).trans hc.ge
  exact Nat.add_le_add_right (Nat.mul_le_mul_left 2 (Binary64.size_le_of_bits_le h)) _

theorem million_unpack : (1000000 : Float).toModel.unpack =
    .finite .positive (1000000 * 2 ^ 33) (-(33 : Nat)) (by decide) := rfl

theorem millionths_infinity {x : Float} (h : 0 < x)
    (hscaled : (x * 1000000).toModel.unpack = .infinity .positive) : millionths x = unitsMax := by
  have hinf : (x * 1000000).isInf = (x * 1000000).toModel.unpack.isInf := rfl
  rw [millionths, if_pos h]
  dsimp only
  rw [hinf, hscaled]
  rfl

theorem millionths_finite {x : Float} {b : Binary64} (h : 0 < x)
    (hbits : (x * 1000000).toBits.toNat = b.bits) (lt : b.bits < Decimal.infinityBits)
    (hscaled : (x * 1000000).toModel.unpack = b.unpacked) :
    millionths x = min (nearestNatural b.significand ((b.power : Int) - 1074)) unitsMax := by
  have hinf : (x * 1000000).isInf = (x * 1000000).toModel.unpack.isInf := rfl
  rw [millionths, if_pos h]
  dsimp only
  rw [hinf, hscaled, split_eq hbits lt]
  rfl

theorem millionths_monotone : Meter.millionths.Monotone := by
  intro x y le
  change millionths x ≤ millionths y
  by_cases hx : 0 < x
  · have hy := zero_lt_of_le hx le
    have hbits := mul_toBits_mono million_unpack (by decide) (by decide) hx le
    rcases positive_cases (mul_positive million_unpack (by decide) (by decide) hy) with
      ⟨-, hunpack⟩ | ⟨c, hc, hlt, hunpack⟩
    · rw [millionths_infinity hy hunpack]
      exact millionths_le x
    · rcases positive_cases (mul_positive million_unpack (by decide) (by decide) hx) with
        ⟨hb, -⟩ | ⟨b, hb, hlt', hunpack'⟩
      · omega
      · rw [millionths_finite hx hb hlt' hunpack', millionths_finite hy hc hlt hunpack]
        exact min_le_min_right _ (nearestNatural_mono (by omega))
  · rw [millionths, if_neg hx]
    exact Nat.zero_le _

end BoundedWorker
