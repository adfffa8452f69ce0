import BoundedWorker.Proofs.Binary64

/-!
Floats that are at most a power of two. The bound passes through every rounding, since a power of
two is itself a float: what is rounded is brought to whole numbers by doubling, and no rounding goes
past a whole number that was not exceeded before.
-/

namespace BoundedWorker

open Float.Model (Format UnpackedFloat totalExponent)
open Float.Model.UnpackedFloat (ExtendedMantissa Accuracy Sign shiftToTargetExponent
  roundWithAccuracy decreaseExponent packComponents unpackSign unpackExponent unpackMantissa)

def ceiling (em : ExtendedMantissa) : Nat :=
  em.mantissa + if em.roundBit || em.stickyBit then 1 else 0

theorem roundedMantissa_le (em : ExtendedMantissa) : em.roundedMantissa ≤ ceiling em := by
  obtain ⟨m, round, sticky⟩ := em
  cases round <;> cases sticky <;>
    simp [ExtendedMantissa.roundedMantissa, ExtendedMantissa.accuracy,
      Accuracy.roundToNearestEven, ceiling]
  omega

theorem ceiling_shiftRightOne_le {em : ExtendedMantissa} {n : Nat} (h : ceiling em ≤ 2 * n) :
    ceiling em.shiftRightOne ≤ n := by
  obtain ⟨m, round, sticky⟩ := em
  simp only [ceiling, ExtendedMantissa.shiftRightOne] at h ⊢
  rcases Nat.mod_two_eq_zero_or_one m with hbit | hbit <;> cases round <;> cases sticky <;>
    simp [hbit] at h ⊢ <;> omega

theorem ceiling_shiftRight_le {em : ExtendedMantissa} {r n : Nat} (h : ceiling em ≤ 2 ^ r * n) :
    ceiling (em >>> r) ≤ n := by
  change ceiling (Nat.repeat ExtendedMantissa.shiftRightOne r em) ≤ n
  induction r generalizing n with
  | zero => simpa [Nat.repeat] using h
  | succ r ih => exact ceiling_shiftRightOne_le (ih (by rwa [pow_succ, mul_assoc] at h))

/-- The number `a * 2 ^ e` is at most `2 ^ t`, and `2 ^ t` has 53 bits from `2 ^ e` on. -/
def UpTo (t : Int) (a : Nat) (e : Int) : Prop := ∃ j : Nat, 52 ≤ j ∧ e + j = t ∧ a ≤ 2 ^ j

theorem log2_le_of_le_two_pow {m j : Nat} (h : m ≤ 2 ^ j) : m.log2 ≤ j := by
  rcases Nat.eq_zero_or_pos m with rfl | hpos
  · simp
  · refine Nat.le_of_not_lt fun hlt => ?_
    have hle := (Nat.pow_le_pow_right two_pos hlt).trans (Nat.log2_self_le hpos.ne')
    have hgrow : 2 ^ j < 2 ^ (j + 1) := Nat.pow_lt_pow_succ (by decide)
    omega

section Round

variable {t : Int} (least : -1022 ≤ t)

include least

theorem shift_upTo {m : Nat} {e : Int} {acc : Accuracy}
    (h : UpTo t (ceiling (.ofMantissaAndAccuracy m acc)) e) :
    UpTo t (ceiling (shiftToTargetExponent Format.binary64 m e acc).1)
      (shiftToTargetExponent Format.binary64 m e acc).2 := by
  obtain ⟨j, hj, heq, hle⟩ := h
  have hm : m ≤ ceiling (.ofMantissaAndAccuracy m acc) := by
    cases acc with
    | exact => exact Nat.le_add_right _ _
    | inexact order => cases order <;> exact Nat.le_add_right _ _
  have hlog := log2_le_of_le_two_pow (hm.trans hle)
  generalize hr : (max ((m.log2 : Int) + 1 + e - 53) (-1074) - e).toNat = r
  have hshift : shiftToTargetExponent Format.binary64 m e acc =
      (ExtendedMantissa.ofMantissaAndAccuracy m acc >>> r, e + r) := by
    subst hr
    rfl
  rw [hshift]
  refine ⟨j - r, by omega, by omega, ceiling_shiftRight_le (hle.trans_eq ?_)⟩
  rw [← pow_add]
  congr 1
  omega

def Within (t : Int) : UnpackedFloat → Prop
  | .zero _ => True
  | .finite _ m e _ => UpTo t m e
  | _ => False

theorem roundWithAccuracy_within (s : Sign) {m : Nat} {e : Int} {acc : Accuracy}
    (h : UpTo t (ceiling (.ofMantissaAndAccuracy m acc)) e) :
    Within t (roundWithAccuracy Format.binary64 s m e acc) := by
  have hfirst := shift_upTo least h
  generalize hshift : shiftToTargetExponent Format.binary64 m e acc = first at hfirst
  have hexact : UpTo t (ceiling (.ofMantissaAndAccuracy first.1.roundedMantissa .exact))
      first.2 := by
    obtain ⟨j, hj, heq, hle⟩ := hfirst
    exact ⟨j, hj, heq, (roundedMantissa_le first.1).trans hle⟩
  have hsecond := shift_upTo least hexact
  generalize hshift' :
    shiftToTargetExponent Format.binary64 first.1.roundedMantissa first.2 .exact =
    second at hsecond
  unfold roundWithAccuracy
  rw [hshift]
  dsimp only
  rw [hshift']
  split
  · trivial
  · obtain ⟨j, hj, heq, hle⟩ := hsecond
    exact ⟨j, hj, heq, (Nat.le_add_right _ _).trans hle⟩

theorem round_within (s : Sign) {m : Nat} {e : Int} (h : UpTo t m e) :
    Within t (UnpackedFloat.round Format.binary64 s m e) := by
  obtain ⟨j, hj, heq, hle⟩ := h
  unfold UnpackedFloat.round decreaseExponent
  dsimp only
  generalize (e - Format.binary64.targetExponent (totalExponent m e)).toNat = r
  refine roundWithAccuracy_within least s ⟨j + r, by omega, by omega, ?_⟩
  change m <<< r + 0 ≤ 2 ^ (j + r)
  rw [Nat.shiftLeft_eq, pow_add, Nat.add_zero]
  exact Nat.mul_le_mul_right _ hle

theorem normalize_within {m : Int} {e : Int} (s : Sign) (h : UpTo t m.natAbs e) :
    Within t (UnpackedFloat.normalize Format.binary64 m e s) := by
  unfold UnpackedFloat.normalize
  rcases lt_trichotomy m 0 with hlt | rfl | hgt
  · rw [compare_lt_iff_lt.2 hlt]
    exact round_within least _ (by rwa [show (-m).toNat = m.natAbs by omega])
  · trivial
  · rw [compare_gt_iff_gt.2 hgt]
    exact round_within least _ (by rwa [show m.toNat = m.natAbs by omega])

end Round

section Pack

variable {t : Int} (least : -1022 ≤ t)

include least

theorem unpack_packComponents_within (s : Sign) {biased m : Nat} (hb : biased < 2047)
    (hsmall : 0 < biased → UpTo t (2 ^ 52 + m % 2 ^ 52) (biased - 1075)) :
    Within t (UnpackedFloat.unpack Format.binary64
      (packComponents Format.binary64 s (BitVec.ofNat _ biased) (BitVec.ofNat _ m))) := by
  have hbias : (Format.binary64.exponentBias : Int) = 1023 := rfl
  have hbits : (Format.binary64.mantissaBitsWithoutImplicit : Int) = 52 := rfl
  have hexponent : (BitVec.ofNat Format.binary64.exponentBits biased).toNat = biased :=
    Nat.mod_eq_of_lt (by change biased < 2 ^ 11; omega)
  have hmantissa : (BitVec.ofNat Format.binary64.mantissaBitsWithoutImplicit m).toNat =
      m % 2 ^ 52 := rfl
  have hones : BitVec.ofNat Format.binary64.exponentBits biased ≠ -1#_ := by
    intro heq
    have hnat : biased = 2047 := hexponent.symm.trans (congrArg BitVec.toNat heq)
    omega
  unfold UnpackedFloat.unpack
  simp only [Float.Model.UnpackedFloat.unpackMantissa_packComponents,
    Float.Model.UnpackedFloat.unpackExponent_packComponents, if_neg hones]
  split
  · rename_i hzero
    split
    · trivial
    · have hnat : biased = 0 := hexponent.symm.trans (congrArg BitVec.toNat hzero)
      have hlt : m % 2 ^ 52 < 2 ^ 52 := Nat.mod_lt _ (by decide)
      refine ⟨(t + 1074).toNat, by omega, ?_, ?_⟩
      · rw [hexponent]
        omega
      · rw [hmantissa]
        exact hlt.le.trans (Nat.pow_le_pow_right (by decide) (by omega))
  · rename_i hpos
    have hnat : biased ≠ 0 := by
      rintro rfl
      exact hpos rfl
    have hone : (1#1 ++ BitVec.ofNat Format.binary64.mantissaBitsWithoutImplicit m).toNat =
        2 ^ 52 + m % 2 ^ 52 := by
      rw [BitVec.toNat_append, ← Nat.shiftLeft_add_eq_or_of_lt (BitVec.isLt _), hmantissa]
      rfl
    change UpTo t _ _
    rw [hone, hexponent]
    simpa [hbias, hbits] using hsmall (by omega)

theorem unpack_pack_within {u : UnpackedFloat} (h : Within t u)
    (fits : ∀ s m e pos, u = .finite s m e pos → e ≤ 971) :
    Within t (UnpackedFloat.unpack Format.binary64 (UnpackedFloat.pack Format.binary64 u)) := by
  cases u with
  | notANumber => exact h.elim
  | infinity s => exact h.elim
  | zero s => cases s <;> trivial
  | finite s m e pos =>
    have hfits := fits s m e pos rfl
    obtain ⟨j, hj, heq, hle⟩ := h
    have hbias : (Format.binary64.exponentBias : Int) = 1023 := rfl
    have hbits : (Format.binary64.mantissaBitsWithoutImplicit : Int) = 52 := rfl
    generalize hbiased : (e + Format.binary64.exponentBias +
      Format.binary64.mantissaBitsWithoutImplicit).toNat = biased
    unfold UnpackedFloat.pack
    dsimp only
    rw [hbiased, if_neg (show ¬2 ^ 11 ≤ biased + 1 by omega)]
    split
    · rename_i hlong
      have hlog : m.log2 = 52 := Nat.succ.inj (hlong.trans rfl)
      obtain ⟨hge, hlt'⟩ := (Nat.log2_eq_iff pos.ne').1 hlog
      have hm : 2 ^ 52 + m % 2 ^ 52 = m := by omega
      refine unpack_packComponents_within least s (by omega) fun hpos => ?_
      rw [hm]
      exact ⟨j, hj, by omega, hle⟩
    · exact unpack_packComponents_within least s (show 0 < 2047 by decide) fun hpos =>
        absurd hpos (lt_irrefl 0)

end Pack

theorem Within.le_971 {t : Int} (most : t ≤ 1023) {u : UnpackedFloat} (h : Within t u) :
    ∀ s m e pos, u = .finite s m e pos → e ≤ 971 := by
  rintro s m e pos rfl
  obtain ⟨j, hj, heq, -⟩ := h
  omega

theorem Within.zero_or_finite {t : Int} {u : UnpackedFloat} (h : Within t u) :
    (∃ s, u = .zero s) ∨ ∃ s m e pos, u = .finite s m e pos ∧ UpTo t m e := by
  cases u with
  | zero s => exact .inl ⟨s, rfl⟩
  | finite s m e pos => exact .inr ⟨s, m, e, pos, rfl, h⟩
  | infinity => exact h.elim
  | notANumber => exact h.elim

def AtMost (t : Int) (x : Float) : Prop := Within t x.toModel.unpack

theorem AtMost.isFinite {t : Int} {x : Float} (h : AtMost t x) : x.isFinite = true := by
  change x.toModel.unpack.isFinite = true
  rcases Within.zero_or_finite h with ⟨s, hx⟩ | ⟨s, m, e, pos, hx, -⟩ <;> rw [hx] <;> rfl

theorem atMost_ofUnpacked {t : Int} (least : -1022 ≤ t) (most : t ≤ 1023) {u : UnpackedFloat}
    (h : Within t u) : AtMost t (.ofModel (.pack u)) :=
  unpack_pack_within least h (h.le_971 most)

theorem atMost_toFloat (n : UInt64) : AtMost 64 n.toFloat := by
  refine atMost_ofUnpacked (by decide) (by decide) ?_
  refine normalize_within (by decide) _ ⟨64, by decide, rfl, ?_⟩
  exact n.toNat_lt.le

def IsDivisor (y : Float) : Prop :=
  ∃ m e pos, y.toModel.unpack = .finite .positive m e pos ∧ 2 ^ 52 ≤ m ∧ -52 ≤ e

section Operations

variable {t s : Int} {x y : Float}

theorem AtMost.add (least : -1022 ≤ t) (most : t ≤ 1022) (hx : AtMost t x) (hy : AtMost t y) :
    AtMost (t + 1) (x + y) := by
  refine atMost_ofUnpacked (by omega) (by omega) ?_
  have hgrow : ∀ {m e}, UpTo t m e → UpTo (t + 1) m e := by
    rintro m e ⟨j, hj, heq, hle⟩
    exact ⟨j + 1, by omega, by omega, hle.trans (Nat.pow_le_pow_right (by decide) j.le_succ)⟩
  rcases Within.zero_or_finite hx with ⟨sx, hux⟩ | ⟨sx, m, e, pos, hux, hm⟩ <;>
    rcases Within.zero_or_finite hy with ⟨sy, huy⟩ | ⟨sy, m', e', pos', huy, hm'⟩ <;>
    rw [hux, huy]
  · cases sx <;> cases sy <;> trivial
  · exact hgrow hm'
  · exact hgrow hm
  · obtain ⟨j, hj, heq, hle⟩ := hm
    obtain ⟨j', hj', heq', hle'⟩ := hm'
    simp only [UnpackedFloat.add, decreaseExponent]
    generalize hr : (e - min e e').toNat = r
    generalize hr' : (e' - min e e').toNat = r'
    have hsum : ∀ a b : Nat, (sx.apply a + sy.apply b).natAbs ≤ a + b := by
      intro a b
      cases sx <;> cases sy <;> simp only [Sign.apply] <;> omega
    refine normalize_within (by omega) _ ⟨j + r + 1, by omega, by omega, (hsum _ _).trans ?_⟩
    have hleft : m <<< r ≤ 2 ^ (j + r) := by
      rw [Nat.shiftLeft_eq, pow_add]
      exact Nat.mul_le_mul_right _ hle
    have hright : m' <<< r' ≤ 2 ^ (j + r) := by
      rw [Nat.shiftLeft_eq, show j + r = j' + r' by omega, pow_add]
      exact Nat.mul_le_mul_right _ hle'
    rw [pow_succ]
    omega

theorem mul_within (least : -1022 ≤ t + s) {u v : UnpackedFloat} (hu : Within t u)
    (hv : Within s v) : Within (t + s) (UnpackedFloat.mul Format.binary64 u v) := by
  rcases hu.zero_or_finite with ⟨su, rfl⟩ | ⟨su, m, e, pos, rfl, hm⟩ <;>
    rcases hv.zero_or_finite with ⟨sv, rfl⟩ | ⟨sv, m', e', pos', rfl, hm'⟩
  · trivial
  · trivial
  · trivial
  · obtain ⟨j, hj, heq, hle⟩ := hm
    obtain ⟨j', hj', heq', hle'⟩ := hm'
    refine roundWithAccuracy_within least _ ⟨j + j', by omega, by omega, ?_⟩
    rw [pow_add]
    exact Nat.mul_le_mul hle hle'

theorem AtMost.mul (least : -1022 ≤ t + s) (most : t + s ≤ 1023) (hx : AtMost t x)
    (hy : AtMost s y) : AtMost (t + s) (x * y) :=
  atMost_ofUnpacked least most (mul_within least hx hy)

theorem ceiling_quotient (num : Nat) {den n : Nat} (hden : 0 < den) (h : num ≤ n * den) :
    ceiling (.ofMantissaAndAccuracy (num / den)
      (UnpackedFloat.accuracyOfFraction (num % den) den)) ≤ n := by
  have hmod := Nat.div_add_mod num den
  unfold UnpackedFloat.accuracyOfFraction
  split
  · exact Nat.div_le_of_le_mul (by rwa [mul_comm])
  · have hlt : num / den < n := by
      rw [Nat.div_lt_iff_lt_mul hden]
      refine lt_of_le_of_ne h ?_
      rintro rfl
      rename_i hrest
      exact hrest (Nat.mul_mod_left n den)
    cases compare (2 * (num % den)) den <;> exact hlt

theorem AtMost.div (least : -1022 ≤ t) (most : t ≤ 1023) (hx : AtMost t x) (hy : IsDivisor y) :
    AtMost t (x / y) := by
  refine atMost_ofUnpacked least most ?_
  obtain ⟨d, f, pos', huy, hd, hf⟩ := hy
  rcases Within.zero_or_finite hx with ⟨sx, hux⟩ | ⟨sx, m, e, pos, hux, hm⟩ <;> rw [hux, huy]
  · trivial
  · obtain ⟨j, hj, heq, hle⟩ := hm
    have hlog := log2_le_of_le_two_pow hle
    have hlog' : 52 ≤ d.log2 := (Nat.le_log2 pos'.ne').2 hd
    have htarget : Format.binary64.targetExponent (totalExponent m e - totalExponent d f) =
        max ((m.log2 : Int) + 1 + e - (d.log2 + 1 + f) - 53) (-1074) := rfl
    simp only [UnpackedFloat.div, UnpackedFloat.divCore]
    rw [htarget]
    generalize htop : min (e - f) (max ((m.log2 : Int) + 1 + e - (d.log2 + 1 + f) - 53) (-1074)) =
      top
    generalize hr : (e - f - top).toNat = r
    refine roundWithAccuracy_within least _ ⟨(t - top).toNat, by omega, by omega, ?_⟩
    refine ceiling_quotient _ pos' ?_
    calc m <<< r = m * 2 ^ r := Nat.shiftLeft_eq m r
      _ ≤ 2 ^ j * 2 ^ r := Nat.mul_le_mul_right _ hle
      _ = 2 ^ (j + r) := (pow_add 2 j r).symm
      _ ≤ 2 ^ ((t - top).toNat + 52) := Nat.pow_le_pow_right two_pos (by omega)
      _ = 2 ^ (t - top).toNat * 2 ^ 52 := pow_add 2 _ 52
      _ ≤ 2 ^ (t - top).toNat * d := Nat.mul_le_mul_left _ hd

end Operations

theorem unpack_exponent_le {v : BitVec Format.binary64.numBits} {s : Sign} {m : Nat} {e : Int}
    {pos : 0 < m} (h : UnpackedFloat.unpack Format.binary64 v = .finite s m e pos) :
    m < 2 ^ 53 ∧ e ≤ 971 := by
  have hbias : (Format.binary64.exponentBias : Int) = 1023 := rfl
  have hbits : (Format.binary64.mantissaBitsWithoutImplicit : Int) = 52 := rfl
  have hexponent : (unpackExponent v).toNat < 2 ^ 11 := (unpackExponent v).isLt
  have hmantissa : (unpackMantissa v).toNat < 2 ^ 52 := (unpackMantissa v).isLt
  unfold UnpackedFloat.unpack at h
  dsimp only at h
  split_ifs at h with hones _ hnone
  · cases h
    have hzero : (unpackExponent v).toNat = 0 := congrArg BitVec.toNat hnone
    omega
  · have hne : (unpackExponent v).toNat ≠ 2047 := fun heq => hones (BitVec.eq_of_toNat_eq heq)
    have hone : (1#1 ++ unpackMantissa v).toNat = 2 ^ 52 + (unpackMantissa v).toNat := by
      rw [BitVec.toNat_append, ← Nat.shiftLeft_add_eq_or_of_lt (unpackMantissa v).isLt]
      rfl
    cases h
    omega

theorem isInf_of_isFinite {x : Float} (h : x.isFinite = true) : x.isInf = false := by
  apply Bool.eq_false_iff.2
  intro infinite
  simp [(isFinite_eq_false_iff x).2 (.inr infinite)] at h

theorem isNaN_of_isFinite {x : Float} (h : x.isFinite = true) : x.isNaN = false := by
  apply Bool.eq_false_iff.2
  intro undefined
  simp [(isFinite_eq_false_iff x).2 (.inl undefined)] at h

theorem isFinite_neg {x : Float} (h : x.isFinite = true) : (-x).isFinite = true := by
  change x.toModel.unpack.isFinite = true at h
  suffices hneg : AtMost 1100 (-x) from hneg.isFinite
  change Within 1100 (UnpackedFloat.unpack Format.binary64 (UnpackedFloat.pack Format.binary64
    x.toModel.unpack.neg))
  cases hx : x.toModel.unpack with
  | notANumber => rw [hx] at h; cases h
  | infinity s => rw [hx] at h; cases h
  | zero s => cases s <;> trivial
  | finite s m e pos =>
    obtain ⟨hm, he⟩ := unpack_exponent_le hx
    refine unpack_pack_within (by decide) ⟨(1100 - e).toNat, by omega, by omega, ?_⟩ ?_
    · exact hm.le.trans (Nat.pow_le_pow_right (by decide) (by omega))
    · rintro _ _ _ _ ⟨⟩
      exact he

end BoundedWorker
