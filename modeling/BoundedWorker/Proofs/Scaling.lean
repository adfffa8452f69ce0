import BoundedWorker.Json.Numeral
import BoundedWorker.Duration
import BoundedWorker.Proofs.Magnitudes
import BoundedWorker.Proofs.Shortest

/-!
The digits of a finite float and their power of ten are taken back to a finite float. Dividing by
powers of ten only makes a number smaller. Multiplying might leave the range, and does not: the
product is monotone in the digits, so for each power of ten the largest digits decide.
-/

namespace BoundedWorker

open Float.Model (Format UnpackedFloat totalExponent)
open Float.Model.UnpackedFloat (roundWithAccuracy decreaseExponent)

theorem isFinite_ofNat {n : Nat} (h : n < 2 ^ 64) : (Float.ofNat n).isFinite = true := by
  change (Float.ofScientific n false 0).isFinite = true
  unfold Float.ofScientific
  split
  · have hone : AtMost 0 (Float.ofBits 0x3FF0000000000000) := ⟨52, by decide, by decide, by decide⟩
    exact ((atMost_toFloat n.toUInt64).mul (by decide) (by decide) hone).isFinite
  · suffices hwithin : Within 116 (UnpackedFloat.ofScientific Format.binary64 n 0) from
      (atMost_ofUnpacked (by decide) (by decide) hwithin).isFinite
    unfold UnpackedFloat.ofScientific
    by_cases hzero : n = 0
    · rw [dif_pos hzero]
      trivial
    · have hhuge : ¬(0 : Int) > 2 ^ Format.binary64.exponentBits := by decide
      have htiny : ¬(0 : Int) < -((2 ^ Format.binary64.exponentBits : Int) + n.log2) := by
        have hbits : (2 ^ Format.binary64.exponentBits : Int) = 2048 := rfl
        omega
      have hlong : n <<< 53 ≤ 2 ^ 117 := by
        rw [Nat.shiftLeft_eq]
        omega
      have hleft : UpTo 64 (n <<< 53) (-53) := ⟨117, by decide, rfl, hlong⟩
      have hright : UpTo 52 1 0 := ⟨52, by decide, rfl, by decide⟩
      rw [dif_neg hzero, if_neg hhuge, if_neg htiny, if_pos le_rfl,
        show (116 : Int) = 64 + 52 from rfl]
      refine mul_within (by decide) ?_ ?_
      · exact hleft
      · exact hright

theorem isDivisor_billion : IsDivisor 1000000000 :=
  ⟨1000000000 * 2 ^ 23, -23, by decide, rfl, by decide, by decide⟩

theorem isFinite_toSeconds (d : Duration) : d.toSeconds.isFinite = true :=
  ((atMost_toFloat _).add (by decide) (by decide)
    ((atMost_toFloat _).div (by decide) (by decide) isDivisor_billion)).isFinite

namespace Binary64

def sizeOf (n : Nat) : Nat :=
  if n < 2 ^ 52 then n else (2 ^ 52 + n % 2 ^ 52) * 2 ^ (n / 2 ^ 52 - 1)

theorem sizeOf_bits (b : Binary64) : sizeOf b.bits = b.size := by
  have hlt := b.lt
  have hnormal := b.normal
  rw [sizeOf, bits]
  by_cases hsmall : b.power * 2 ^ 52 + b.significand < 2 ^ 52
  · have hpower : b.power = 0 := by omega
    rw [if_pos hsmall, size, hpower]
    omega
  · have hlow : 2 ^ 52 + (b.power * 2 ^ 52 + b.significand) % 2 ^ 52 = b.significand := by omega
    have hhigh : (b.power * 2 ^ 52 + b.significand) / 2 ^ 52 - 1 = b.power := by omega
    rw [if_neg hsmall, hhigh, hlow, size]

end Binary64

theorem isFinite_of_toBits {x : Float} (pos : 0 < x.toBits.toNat)
    (lt : x.toBits.toNat < Decimal.infinityBits) : x.isFinite = true := by
  have hx : x.toModel.unpack = _ := Binary64.unpack_eq pos lt
  change x.toModel.unpack.isFinite = true
  rw [hx]
  rfl

theorem exists_binary64 {x : Float} (pos : 0 < x.toBits.toNat)
    (lt : x.toBits.toNat < Decimal.infinityBits) :
    ∃ b : Binary64, x.toBits.toNat = b.bits ∧ x.toModel.unpack = b.unpacked :=
  ⟨.ofBits _ pos, (Binary64.ofBits_bits pos).symm, Binary64.unpack_eq pos lt⟩

theorem toFloat_toBits {n : UInt64} (pos : 0 < n.toNat) :
    n.toFloat.toBits.toNat = min (Binary64.roundedBits 0 (n.toNat * 2 ^ 1074))
      Decimal.infinityBits := by
  have hlt := n.toNat_lt
  have hlog : n.toNat.log2 < 64 := (Nat.log2_lt pos.ne').2 hlt
  have htarget : Format.binary64.targetExponent (totalExponent n.toNat 0) =
      max ((n.toNat.log2 : Int) + 1 + 0 - 53) (-1074) := rfl
  generalize hr : (0 - max ((n.toNat.log2 : Int) + 1 + 0 - 53) (-1074)).toNat = r
  have hlong : 2 ^ 52 ≤ n.toNat * 2 ^ r :=
    calc 2 ^ 52 ≤ 2 ^ (n.toNat.log2 + r) := Nat.pow_le_pow_right two_pos (by omega)
      _ = 2 ^ n.toNat.log2 * 2 ^ r := pow_add 2 _ r
      _ ≤ n.toNat * 2 ^ r := Nat.mul_le_mul_right _ (Nat.log2_self_le pos.ne')
  have hsize : n.toNat * 2 ^ r * 2 ^ (1074 - r) = n.toNat * 2 ^ 1074 := by
    rw [mul_assoc, ← pow_add]
    congr 2
    omega
  have hwhole : 2 ^ 0 ≤ n.toNat * 2 ^ r * 2 ^ (1074 - r) := by
    rw [hsize]
    exact Nat.mul_pos pos (Nat.two_pow_pos _)
  change (UnpackedFloat.pack Format.binary64 (UnpackedFloat.normalize Format.binary64
    (n.toNat : Int) 0 .positive)).toNat = _
  unfold UnpackedFloat.normalize
  rw [compare_gt_iff_gt.2 (by exact_mod_cast pos)]
  simp only [UnpackedFloat.round, decreaseExponent, Int.toNat_natCast]
  rw [htarget, hr, Nat.shiftLeft_eq]
  have hround := Binary64.roundWithAccuracy_eq hlong hwhole
  have hexponent : ((1074 - r : Nat) : Int) - 1074 - (0 : Nat) = 0 - (r : Int) := by omega
  rw [hexponent] at hround
  rw [hround, Binary64.pack_toNat, Binary64.rounded_bits, hsize]

theorem product_toBits {x y : Float} {b c : Binary64} (hx : x.toModel.unpack = b.unpacked)
    (hy : y.toModel.unpack = c.unpacked) (long : 2 ^ 52 ≤ c.significand)
    (whole : 2 ^ 1074 ≤ b.size * c.size) :
    (x * y).toBits.toNat =
      min (Binary64.roundedBits 1074 (b.size * c.size)) Decimal.infinityBits := by
  have hsize : b.significand * c.significand * 2 ^ (b.power + c.power) = b.size * c.size := by
    rw [Binary64.size, Binary64.size, pow_add]
    ring
  have hlong : 2 ^ 52 ≤ b.significand * c.significand :=
    long.trans (Nat.le_mul_of_pos_left _ b.pos)
  have hround := Binary64.roundWithAccuracy_eq hlong (hsize ▸ whole)
  have hexponent : ((b.power + c.power : Nat) : Int) - 1074 - (1074 : Nat) =
      (b.power : Int) - 1074 + ((c.power : Int) - 1074) := by omega
  rw [hexponent] at hround
  change (UnpackedFloat.pack Format.binary64
    (UnpackedFloat.mul Format.binary64 x.toModel.unpack y.toModel.unpack)).toNat = _
  rw [hx, hy]
  change (UnpackedFloat.pack Format.binary64 (roundWithAccuracy Format.binary64 .positive
    (b.significand * c.significand) ((b.power : Int) - 1074 + ((c.power : Int) - 1074))
    .exact)).toNat = _
  rw [hround, Binary64.pack_toNat, Binary64.rounded_bits, hsize]

theorem product_toBits_le {x y : Float} {b c : Binary64} (b' c' : Binary64)
    (hx : x.toModel.unpack = b.unpacked) (hy : y.toModel.unpack = c.unpacked)
    (long : 2 ^ 52 ≤ c.significand) (whole : 2 ^ 1074 ≤ b.size * c.size)
    (hb : b.bits ≤ b'.bits) (hc : c.bits ≤ c'.bits) :
    0 < (x * y).toBits.toNat ∧
      (x * y).toBits.toNat ≤ Binary64.roundedBits 1074 (b'.size * c'.size) := by
  have hpos : 0 < Binary64.roundedBits 1074 (b.size * c.size) := by
    rw [← Binary64.rounded_bits whole, Binary64.bits]
    exact Nat.add_pos_right _ (Binary64.rounded 1074 _ whole).pos
  have hgrow := Nat.mul_le_mul (Binary64.size_le_of_bits_le hb) (Binary64.size_le_of_bits_le hc)
  rw [product_toBits hx hy long whole]
  exact ⟨lt_min hpos (by decide),
    (min_le_left _ _).trans (Binary64.roundedBits_mono _ hgrow)⟩

namespace Numeral

/-- Below this power of ten no eighteen digits come near the end of the range. -/
def nearPower : Nat := 289

/-- The most that the digits of a float may be where they count `10 ^ e`. -/
def mostDigits (e : Nat) : Nat := min ((2 ^ 54 - 3) * 2 ^ 970 / 10 ^ e) (10 ^ 18)

theorem nearestBits_bounds : ∀ e < 309, 1023 * 2 ^ 52 ≤ Decimal.nearestBits (10 ^ e) 1 ∧
    Decimal.nearestBits (10 ^ e) 1 < Decimal.infinityBits ∧
    (e ≤ nearPower → Decimal.nearestBits (10 ^ e) 1 ≤ Decimal.nearestBits (10 ^ nearPower) 1) := by
  decide +kernel

theorem mostDigits_product : ∀ e < 309, nearPower ≤ e → 0 < mostDigits e ∧
    Binary64.roundedBits 0 (mostDigits e * 2 ^ 1074) < Decimal.infinityBits ∧
    Binary64.roundedBits 1074
      (Binary64.sizeOf (Binary64.roundedBits 0 (mostDigits e * 2 ^ 1074)) *
        Binary64.sizeOf (Decimal.nearestBits (10 ^ e) 1)) < Decimal.infinityBits := by
  decide +kernel

theorem powerOfTen_toBits {e : Nat} (he : e < 309) :
    (powerOfTen e).toBits.toNat = Decimal.nearestBits (10 ^ e) 1 := by
  obtain ⟨hge, hlt, -⟩ := nearestBits_bounds e he
  have hmagnitude : ((1 : Nat).repr.length : Int) + e = 1 + e := rfl
  have hpower : powerOfTen e = Float.ofBits (UInt64.ofNat (Decimal.nearestBits (10 ^ e) 1)) := by
    have hnum : 1 * Nat.pow 10 (e : Int).toNat = 10 ^ e := Nat.one_mul _
    have hden : Nat.pow 10 (-(e : Int)).toNat = 1 := by
      rw [show (-(e : Int)).toNat = 0 by omega]
    rw [powerOfTen, Decimal.nearest, if_neg Nat.one_ne_zero]
    dsimp only
    rw [hmagnitude, if_neg (by omega), if_neg (by omega), hnum, hden]
  have hword : Decimal.infinityBits < 2 ^ 64 := by decide
  have hbits : (UInt64.ofNat (Decimal.nearestBits (10 ^ e) 1)).toBitVec.toNat =
      Decimal.nearestBits (10 ^ e) 1 := Nat.mod_eq_of_lt (hlt.trans hword)
  have hpos : 0 < (UInt64.ofNat (Decimal.nearestBits (10 ^ e) 1)).toBitVec.toNat := by omega
  have hlt' := hbits.trans_lt hlt
  rw [hpower]
  change (UnpackedFloat.pack Format.binary64 (UnpackedFloat.unpack Format.binary64
    (UInt64.ofNat (Decimal.nearestBits (10 ^ e) 1)).toBitVec)).toNat = _
  rw [Binary64.unpack_eq hpos hlt', Binary64.pack_toNat, Binary64.ofBits_bits, hbits,
    min_eq_left hlt.le]

theorem exists_power {e : Nat} (he : e < 309) : ∃ c : Binary64,
    (powerOfTen e).toModel.unpack = c.unpacked ∧ c.bits = Decimal.nearestBits (10 ^ e) 1 ∧
      2 ^ 52 ≤ c.significand ∧ 1022 ≤ c.power := by
  obtain ⟨hge, hlt, -⟩ := nearestBits_bounds e he
  have hbits := powerOfTen_toBits he
  obtain ⟨c, hc, hunpack⟩ := exists_binary64 (x := powerOfTen e) (by omega) (by omega)
  have hlt' := c.lt
  have hnormal := c.normal
  have heq : c.power * 2 ^ 52 + c.significand = Decimal.nearestBits (10 ^ e) 1 :=
    hc.symm.trans hbits
  exact ⟨c, hunpack, heq, by omega, by omega⟩

theorem isDivisor_powerOfTen {e : Nat} (he : e < 309) : IsDivisor (powerOfTen e) := by
  obtain ⟨c, hunpack, -, hlong, hpower⟩ := exists_power he
  exact ⟨c.significand, (c.power : Int) - 1074, c.pos, hunpack, hlong, by omega⟩

theorem scaleDown_atMost {x : Float} (h : AtMost 64 x) (e steps : Nat) :
    AtMost 64 (scaleDown x e steps) := by
  have hdiv : ∀ {x : Float} {e : Nat}, AtMost 64 x → e < 309 → AtMost 64 (x / powerOfTen e) :=
    fun hx he => hx.div (by decide) (by decide) (isDivisor_powerOfTen he)
  induction steps generalizing x e with
  | zero => exact h
  | succ steps ih =>
    rw [scaleDown]
    split
    · rename_i hle
      exact hdiv h (Nat.lt_succ_of_le hle)
    · split
      · exact h
      · exact ih (hdiv h (by decide)) (e - 308)

theorem scale_of_neg (m : Nat) {e : Int} (he : e < 0) :
    ∃ x, scale m e = some x ∧ x.isFinite = true :=
  ⟨_, if_pos he, (scaleDown_atMost (atMost_toFloat _) _ _).isFinite⟩

theorem product_isFinite {m e top : Nat} (pos : 0 < m) (le : m ≤ mostDigits top)
    (he : e < 309) (htop : top < 309) (near : nearPower ≤ top)
    (hpower : Decimal.nearestBits (10 ^ e) 1 ≤ Decimal.nearestBits (10 ^ top) 1) :
    ((UInt64.ofNat m).toFloat * powerOfTen e).isFinite = true := by
  obtain ⟨hmost, hrange, hproduct⟩ := mostDigits_product top htop near
  have hword : mostDigits top ≤ 10 ^ 18 := min_le_right _ _
  have hm : (UInt64.ofNat m).toNat = m := Nat.mod_eq_of_lt (by omega)
  have hunit : ∀ {n : Nat}, 0 < n → 2 ^ 0 ≤ n * 2 ^ 1074 := fun hn =>
    Nat.mul_pos hn (Nat.two_pow_pos _)
  have hgrow := Binary64.roundedBits_mono 0 (Nat.mul_le_mul_right (2 ^ 1074) le)
  have hbits := toFloat_toBits (n := UInt64.ofNat m) (by omega)
  rw [hm, min_eq_left (hgrow.trans hrange.le), ← Binary64.rounded_bits (hunit pos)] at hbits
  have hpositive : 0 < (Binary64.rounded 0 _ (hunit pos)).bits :=
    Nat.add_pos_right _ (Binary64.rounded 0 _ (hunit pos)).pos
  rw [← Binary64.rounded_bits (hunit pos), ← Binary64.rounded_bits (hunit hmost)] at hgrow
  rw [← Binary64.rounded_bits (hunit hmost)] at hrange hproduct
  obtain ⟨b, hb, hunpack⟩ := exists_binary64 (x := (UInt64.ofNat m).toFloat) (by omega) (by omega)
  obtain ⟨c, hunpack', hc, hlong, hwhole⟩ := exists_power he
  obtain ⟨c', -, hc', -, -⟩ := exists_power htop
  rw [Binary64.sizeOf_bits, ← hc', Binary64.sizeOf_bits] at hproduct
  have hsize : 2 ^ 1074 ≤ b.size * c.size := by
    have hone : 0 < b.size := Nat.mul_pos b.pos (Nat.two_pow_pos _)
    refine le_trans ?_ (Nat.le_mul_of_pos_left _ hone)
    calc 2 ^ 1074 = 2 ^ 52 * 2 ^ 1022 := pow_add 2 52 1022
      _ ≤ c.significand * 2 ^ c.power :=
        Nat.mul_le_mul hlong (Nat.pow_le_pow_right two_pos hwhole)
  obtain ⟨hpos, hle⟩ := product_toBits_le (.rounded 0 _ (hunit hmost)) c' hunpack hunpack' hlong
    hsize (by omega) (by omega)
  exact isFinite_of_toBits hpos (hle.trans_lt hproduct)

theorem scale_of_isFinite {m e : Nat} (he : e < 309)
    (h : ((UInt64.ofNat m).toFloat * powerOfTen e).isFinite = true) :
    ∃ x, scale m e = some x ∧ x.isFinite = true := by
  refine ⟨_, ?_, h⟩
  rw [scale]
  dsimp only
  rw [if_neg (by omega), if_pos (by omega), Int.natAbs_natCast, if_neg]
  rw [isInf_of_isFinite h]
  exact Bool.false_ne_true

theorem scale_of_nonneg {m e : Nat} (pos : 0 < m) (few : m ≤ 10 ^ 18)
    (le : m * 10 ^ e ≤ (2 ^ 54 - 3) * 2 ^ 970) :
    ∃ x, scale m e = some x ∧ x.isFinite = true := by
  have he : e < 309 := by
    refine (Nat.pow_lt_pow_iff_right (a := 10) (by decide)).1 (lt_of_le_of_lt ?_
      (show (2 ^ 54 - 3) * 2 ^ 970 < 10 ^ 309 by decide +kernel))
    exact (Nat.le_mul_of_pos_left _ pos).trans le
  refine scale_of_isFinite he ?_
  -- Far below the end of the range the power counts for more than the digits can make up.
  rcases Nat.le_total nearPower e with hnear | hfar
  · have hmost : m ≤ mostDigits e := le_min ((Nat.le_div_iff_mul_le (by positivity)).2 le) few
    exact product_isFinite pos hmost he he hnear le_rfl
  · have hmost : m ≤ mostDigits nearPower := few.trans (by decide +kernel)
    exact product_isFinite pos hmost he (by decide) le_rfl ((nearestBits_bounds e he).2.2 hfar)

theorem scale_largest : ∃ x, scale 17976931348623157 292 = some x ∧ x.isFinite = true := by
  have hpower : (292 : Int) = (292 : Nat) := rfl
  rw [hpower]
  exact scale_of_isFinite (by decide) (by decide +kernel)

end Numeral

end BoundedWorker
