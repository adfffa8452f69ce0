import BoundedWorker.Decimal.Shortest
import BoundedWorker.Proofs.Numerals

/-!
The shortest decimal of a binary number: at most eighteen digits, the first of them no zero, within
the reals that round to the number. That the search finds one is a comparison of two gaps: a grid of
eighteen digits is finer than the distance from the value to the ends of its interval.
-/

namespace BoundedWorker.Decimal

theorem stripZeros_eq (n : Nat) {d : Nat} (e : Int) (hd : 0 < d) :
    ∃ j d' : Nat, stripZeros n (d, e) = (d', e + j) ∧ d' * 10 ^ j = d ∧ j ≤ n := by
  induction n generalizing d e with
  | zero => exact ⟨0, d, by simp [stripZeros], by simp, le_rfl⟩
  | succ n ih =>
    by_cases hzero : d ≠ 0 ∧ d % 10 = 0
    · obtain ⟨j, d', heq, hmul, hj⟩ := ih (d := d / 10) (e + 1) (by omega)
      refine ⟨j + 1, d', ?_, ?_, by omega⟩
      · rw [stripZeros, if_pos hzero, heq, Nat.cast_add, Nat.cast_one]
        congr 1
        omega
      · rw [pow_succ, ← mul_assoc, hmul]
        omega
    · exact ⟨0, d, by rw [stripZeros, if_neg hzero]; simp, by simp, Nat.zero_le _⟩

namespace Interval

variable (i : Interval)

/-- A multiple of `10 ^ e` is compared with the interval after both are brought to whole numbers:
the interval is stretched by `up`, and `step` is the gap of the grid. -/
def up (e : Int) : Nat := 10 ^ (-e).toNat

def step (e : Int) : Nat := i.den * 10 ^ e.toNat

def span : Nat := 400

/-- Either end is at least a `2 ^ 55`th part of the value away from it. -/
structure Wide : Prop where
  lo_pos : 0 < i.lo
  den_pos : 0 < i.den
  below : i.lo * 2 ^ 55 + i.mid ≤ i.mid * 2 ^ 55
  above : i.mid * 2 ^ 55 + i.mid ≤ i.hi * 2 ^ 55
  least : i.den ≤ i.mid * 10 ^ span
  most : i.mid * 10 ^ span < 10 ^ (2 * span)

variable {i}

theorem step_pos (h : i.Wide) (e : Int) : 0 < i.step e :=
  Nat.mul_pos h.den_pos (Nat.pow_pos (by decide))

theorem up_pos (e : Int) : 0 < up e := Nat.pow_pos (by decide)

theorem bounds_of_holds (h : i.Wide) {u point : Nat} (hp : i.holds u point = true) :
    i.lo * u ≤ point ∧ point ≤ i.hi * u := by
  have hle : i.lo ≤ i.hi := by
    have hbelow := h.below
    have habove := h.above
    omega
  have hends : i.lo * u ≤ i.hi * u := Nat.mul_le_mul_right u hle
  simp only [holds, Bool.or_eq_true, Bool.and_eq_true, decide_eq_true_iff, beq_iff_eq] at hp
  omega

theorem onGrid_eq (tie : Tie) (e : Int) {below : Nat}
    (hbelow : i.mid * up e / i.step e = below) : ∃ first second : Nat,
    (first = below ∧ second = below + 1 ∧
        2 * (i.mid * up e) ≤ (2 * below + 1) * i.step e ∨
      first = below + 1 ∧ second = below ∧
        (2 * below + 1) * i.step e ≤ 2 * (i.mid * up e)) ∧
    i.onGrid tie e = if i.holds (up e) (first * i.step e) then some first
      else if i.holds (up e) (second * i.step e) then some second else none := by
  have hpow : ∀ n, Nat.pow 10 n = 10 ^ n := fun _ => rfl
  have hup : 10 ^ (-e).toNat = up e := rfl
  have hstep : i.den * 10 ^ e.toNat = i.step e := rfl
  unfold onGrid
  simp only [hpow, hup, hstep, hbelow]
  rcases Nat.lt_trichotomy (2 * (i.mid * up e)) ((2 * below + 1) * i.step e) with hlt | heq | hgt
  · refine ⟨below, below + 1, .inl ⟨rfl, rfl, hlt.le⟩, ?_⟩
    simp only [hlt, if_true]
  · by_cases htie : tie = .even ∧ below % 2 = 0
    · refine ⟨below, below + 1, .inl ⟨rfl, rfl, heq.le⟩, ?_⟩
      simp only [heq, lt_irrefl, if_false, htie.1, htie.2, if_true]
    · refine ⟨below + 1, below, .inr ⟨rfl, rfl, heq.ge⟩, ?_⟩
      have hne : below + 1 ≠ below := Nat.succ_ne_self below
      cases tie with
      | up => simp only [heq, lt_irrefl, if_false, hne]
      | even =>
        have hodd : ¬below % 2 = 0 := fun h => htie ⟨rfl, h⟩
        simp only [heq, lt_irrefl, if_false, hodd, hne]
  · refine ⟨below + 1, below, .inr ⟨rfl, rfl, hgt.le⟩, ?_⟩
    have hne : below + 1 ≠ below := Nat.succ_ne_self below
    simp only [hgt, hgt.not_gt, if_false, if_true, hne]

theorem onGrid_eq_some {tie : Tie} {e : Int} {d : Nat} (h : i.onGrid tie e = some d) :
    i.holds (up e) (d * i.step e) = true ∧ d ≤ i.mid * up e / i.step e + 1 := by
  obtain ⟨first, second, hpoints, heq⟩ := onGrid_eq (i := i) tie e rfl
  rw [heq] at h
  split_ifs at h with hfirst hsecond
  · obtain rfl := Option.some.inj h
    exact ⟨hfirst, by omega⟩
  · obtain rfl := Option.some.inj h
    exact ⟨hsecond, by omega⟩

theorem onGrid_isSome (h : i.Wide) (tie : Tie) (e : Int)
    (hlo : 2 * (i.lo * up e) + i.step e < 2 * (i.mid * up e))
    (hhi : 2 * (i.mid * up e) + i.step e < 2 * (i.hi * up e)) :
    ∃ d, i.onGrid tie e = some d := by
  have hstep := step_pos h e
  have hle := Nat.div_mul_le_self (i.mid * up e) (i.step e)
  have hlt := Nat.lt_div_mul_add hstep (a := i.mid * up e)
  generalize hbelow : i.mid * up e / i.step e = below at hle hlt
  obtain ⟨first, second, hpoints, heq⟩ := onGrid_eq tie e hbelow
  have hinside : i.lo * up e < first * i.step e ∧ first * i.step e < i.hi * up e := by
    rcases hpoints with ⟨rfl, -, hnear⟩ | ⟨rfl, -, hnear⟩
    · rw [add_mul, mul_assoc] at hnear
      omega
    · rw [add_mul, mul_assoc] at hnear
      rw [add_mul]
      omega
  have hholds : i.holds (up e) (first * i.step e) = true := by
    simp [holds, hinside.1, hinside.2]
  exact ⟨first, by rw [heq, if_pos hholds]⟩

theorem scale_spec (h : i.Wide) : ∃ length : Nat, 0 < length ∧ length ≤ 2 * span ∧
    i.scale = (length : Int) - span ∧
    i.den * 10 ^ (length - 1) ≤ i.mid * 10 ^ span ∧ i.mid * 10 ^ span < i.den * 10 ^ length := by
  have hscale : i.scale = ((i.mid * 10 ^ span / i.den).repr.length : Int) - span := rfl
  generalize hwhole : i.mid * 10 ^ span / i.den = whole at hscale
  have hpos : 0 < whole := hwhole ▸ Nat.div_pos h.least h.den_pos
  have hlength : whole.repr.length = whole.repr.toList.length := String.length_toList.symm
  have hlength_pos : 0 < whole.repr.toList.length := List.length_pos_iff.2 (repr_ne_nil whole)
  refine ⟨whole.repr.toList.length, hlength_pos, ?_, ?_, ?_, ?_⟩
  · rw [length_repr_le_iff (by decide), ← hwhole]
    exact (Nat.div_le_self _ _).trans_lt h.most
  · rw [hscale, hlength]
  · have hle : 10 ^ (whole.repr.toList.length - 1) ≤ whole := by
      rcases Nat.eq_or_lt_of_le (show 1 ≤ whole.repr.toList.length from hlength_pos) with h1 | h1
      · rw [← h1]
        exact hpos
      · refine Nat.le_of_not_lt fun hlt => ?_
        have hshort := (length_repr_le_iff (by omega)).2 hlt
        omega
    rw [mul_comm i.den]
    exact (Nat.le_div_iff_mul_le h.den_pos).1 (hwhole ▸ hle)
  · have hlt := (length_repr_le_iff hlength_pos).1 (le_refl whole.repr.toList.length)
    rw [mul_comm i.den]
    exact (Nat.div_lt_iff_lt_mul h.den_pos).1 (hwhole.trans_lt hlt)

theorem scale_eq (h : i.Wide) {k : Nat} (lower : i.den * 10 ^ k ≤ i.mid)
    (upper : i.mid < i.den * 10 ^ (k + 1)) : i.scale = (k : Int) + 1 := by
  obtain ⟨length, hlength, -, hscale, hlower, hupper⟩ := scale_spec h
  have hten : 0 < 10 ^ span := Nat.pow_pos (by decide)
  have hfew : length - 1 < k + 1 + span := by
    refine (Nat.pow_lt_pow_iff_right (a := 10) (by decide)).1
      (Nat.lt_of_mul_lt_mul_left (a := i.den) ?_)
    calc i.den * 10 ^ (length - 1) ≤ i.mid * 10 ^ span := hlower
      _ < i.den * 10 ^ (k + 1) * 10 ^ span := Nat.mul_lt_mul_of_pos_right upper hten
      _ = i.den * 10 ^ (k + 1 + span) := by rw [pow_add 10 (k + 1), mul_assoc]
  have hmany : k + span < length := by
    refine (Nat.pow_lt_pow_iff_right (a := 10) (by decide)).1
      (Nat.lt_of_mul_lt_mul_left (a := i.den) ?_)
    calc i.den * 10 ^ (k + span) = i.den * 10 ^ k * 10 ^ span := by rw [pow_add, mul_assoc]
      _ ≤ i.mid * 10 ^ span := Nat.mul_le_mul_right _ lower
      _ < i.den * 10 ^ length := hupper
  omega

theorem grid_bounds (h : i.Wide) {n : Nat} (hn : 0 < n) :
    i.step (i.scale - n) * 10 ^ (n - 1) ≤ i.mid * up (i.scale - n) ∧
      i.mid * up (i.scale - n) < i.step (i.scale - n) * 10 ^ n := by
  obtain ⟨length, hlength, -, hscale, hlower, hupper⟩ := scale_spec h
  generalize he : i.scale - n = e
  have hbalance : e.toNat + span + n = length + (-e).toNat := by omega
  have hten : 0 < 10 ^ span := Nat.pow_pos (by decide)
  constructor
  · refine Nat.le_of_mul_le_mul_right ?_ hten
    calc i.step e * 10 ^ (n - 1) * 10 ^ span
        = i.den * 10 ^ (e.toNat + (n - 1) + span) := by rw [step, pow_add, pow_add]; ring
      _ = i.den * 10 ^ (length - 1 + (-e).toNat) := by congr 2; omega
      _ = i.den * 10 ^ (length - 1) * up e := by rw [pow_add, up, mul_assoc]
      _ ≤ i.mid * 10 ^ span * up e := Nat.mul_le_mul_right _ hlower
      _ = i.mid * up e * 10 ^ span := by ring
  · refine Nat.lt_of_mul_lt_mul_right (a := 10 ^ span) ?_
    calc i.mid * up e * 10 ^ span = i.mid * 10 ^ span * up e := by ring
      _ < i.den * 10 ^ length * up e := Nat.mul_lt_mul_of_pos_right hupper (up_pos e)
      _ = i.den * 10 ^ (length + (-e).toNat) := by rw [pow_add, up, mul_assoc]
      _ = i.den * 10 ^ (e.toNat + n + span) := by congr 2; omega
      _ = i.step e * 10 ^ n * 10 ^ span := by rw [step, pow_add, pow_add]; ring

theorem onGrid_last (h : i.Wide) (tie : Tie) {n : Nat} (hn : n = 18) :
    ∃ d, i.onGrid tie (i.scale - n) = some d := by
  have hbounds := (grid_bounds h (n := n) (by omega)).1
  have hstep := step_pos h (i.scale - n)
  generalize i.scale - n = e at hbounds hstep ⊢
  subst hn
  have hbelow := Nat.mul_le_mul_right (up e) h.below
  have habove := Nat.mul_le_mul_right (up e) h.above
  have hpull : ∀ n, n * 2 ^ 55 * up e = 2 ^ 55 * (n * up e) := fun n => by ring
  rw [add_mul, hpull, hpull] at hbelow habove
  refine onGrid_isSome h tie _ ?_ ?_ <;> omega

structure Fits (i : Interval) (d : Nat) (e : Int) : Prop where
  holds : i.holds (up e) (d * i.step e) = true
  le : d ≤ 10 ^ 18
  exponent_ge : -418 ≤ e
  exponent_le : e ≤ 400

theorem search_fits (h : i.Wide) (tie : Tie) {n more : Nat} (hn : 0 < n) (hsum : n + more = 18) :
    ∃ d e, i.search tie i.scale n more = (d, e) ∧ i.Fits d e := by
  have hfound : ∀ {m d : Nat}, 0 < m → m ≤ 18 → i.onGrid tie (i.scale - m) = some d →
      i.Fits d (i.scale - m) := by
    intro m d hm hle hd
    obtain ⟨hholds, hnext⟩ := onGrid_eq_some hd
    obtain ⟨length, hlength, hshort, hscale, -, -⟩ := scale_spec h
    have hlt := (Nat.div_lt_iff_lt_mul (step_pos h _)).2
      (((grid_bounds h hm).2).trans_eq (mul_comm _ _))
    have hpow : 10 ^ m ≤ 10 ^ 18 := Nat.pow_le_pow_right (by decide) hle
    have hspan : span = 400 := rfl
    exact ⟨hholds, by omega, by omega, by omega⟩
  have hlast : ∀ {m : Nat}, m = 18 → ∃ d, i.onGrid tie (i.scale - m) = some d := onGrid_last h tie
  -- The scale stays as the number of digits grows, and the last grid always has a point.
  generalize i.scale = k at hfound hlast ⊢
  induction more generalizing n with
  | zero =>
    obtain ⟨d, hd⟩ := hlast (m := n) hsum
    exact ⟨d, k - n, by rw [search, hd]; rfl, hfound hn hsum.le hd⟩
  | succ more ih =>
    cases hd : i.onGrid tie (k - n) with
    | none =>
      obtain ⟨d, e, heq, hfits⟩ := ih (n := n + 1) n.succ_pos (by omega)
      exact ⟨d, e, by rw [search, hd]; exact heq, hfits⟩
    | some d => exact ⟨d, k - n, by rw [search, hd], hfound hn (by omega) hd⟩

end Interval

theorem split_eq_fields (bits : UInt64) : split bits =
    if bits.toNat / 2 ^ 52 % 2 ^ 11 = 0 then (bits.toNat % 2 ^ 52, (-1074 : Int))
    else (2 ^ 52 + bits.toNat % 2 ^ 52, ((bits.toNat / 2 ^ 52 % 2 ^ 11 : Nat) : Int) - 1075) := by
  have hexponent : ((bits >>> 52) &&& 0x7FF).toNat = bits.toNat / 2 ^ 52 % 2 ^ 11 := by
    rw [UInt64.toNat_and, UInt64.toNat_shiftRight, Nat.shiftRight_eq_div_pow]
    exact Nat.and_two_pow_sub_one_eq_mod (bits.toNat / 2 ^ 52) 11
  have hfraction : (bits &&& 0xFFFFFFFFFFFFF).toNat = bits.toNat % 2 ^ 52 := by
    rw [UInt64.toNat_and]
    exact Nat.and_two_pow_sub_one_eq_mod bits.toNat 52
  have hpow : Nat.pow 2 52 = 2 ^ 52 := rfl
  simp only [split, hexponent, hfraction, hpow]

/-- The bits of a finite number other than zero. -/
structure Ordinary (bits : UInt64) : Prop where
  finite : bits.toNat / 2 ^ 52 % 2 ^ 11 ≠ 2047
  nonzero : bits.toNat % 2 ^ 63 ≠ 0

theorem split_bounds {bits : UInt64} (h : Ordinary bits) : 0 < (split bits).1 ∧
    (split bits).1 < 2 ^ 53 ∧ -1074 ≤ (split bits).2 ∧ (split bits).2 ≤ 971 := by
  have hfinite := h.finite
  have hnonzero := h.nonzero
  rw [split_eq_fields]
  split <;> refine ⟨?_, ?_, ?_, ?_⟩ <;> dsimp only <;> omega

theorem exists_gap {bits : UInt64} {m : Nat} {q : Int} (h : split bits = (m, q)) :
    ∃ g, 0 < g ∧ g ≤ 2 ∧ interval bits =
      ⟨(4 * m - g) * 2 ^ (q - 2).toNat, 4 * m * 2 ^ (q - 2).toNat,
        (4 * m + 2) * 2 ^ (q - 2).toNat, 2 ^ (2 - q).toNat, m % 2 = 0⟩ := by
  have hpow : ∀ n, Nat.pow 2 n = 2 ^ n := fun _ => rfl
  refine ⟨if gapBelowIsHalf bits then 1 else 2, ?_, ?_, ?_⟩
  · split <;> decide
  · split <;> decide
  · simp only [interval, h, hpow]

theorem interval_wide {bits : UInt64} (h : Ordinary bits) : (interval bits).Wide := by
  obtain ⟨hm, hlt, hge, hle⟩ := split_bounds h
  generalize hsplit : split bits = s at hm hlt hge hle
  obtain ⟨m, q⟩ := s
  dsimp only at hm hlt hge hle
  obtain ⟨g, hg, hg2, heq⟩ := exists_gap hsplit
  have hup : 0 < 2 ^ (q - 2).toNat := Nat.two_pow_pos _
  have hden : 2 ^ (2 - q).toNat ≤ 10 ^ Interval.span :=
    (Nat.pow_le_pow_right (by decide) (show (2 - q).toNat ≤ 1076 by omega)).trans
      (by decide +kernel)
  have hmid : 4 * m * 2 ^ (q - 2).toNat < 10 ^ Interval.span := by
    have hshift := Nat.pow_le_pow_right two_pos (show (q - 2).toNat ≤ 969 by omega)
    exact (Nat.mul_le_mul (show 4 * m ≤ 2 ^ 55 by omega) hshift).trans_lt (by decide +kernel)
  rw [heq]
  refine ⟨Nat.mul_pos (by omega) hup, Nat.two_pow_pos _, ?_, ?_, ?_, ?_⟩
  · calc (4 * m - g) * 2 ^ (q - 2).toNat * 2 ^ 55 + 4 * m * 2 ^ (q - 2).toNat
        = ((4 * m - g) * 2 ^ 55 + 4 * m) * 2 ^ (q - 2).toNat := by ring
      _ ≤ (4 * m * 2 ^ 55) * 2 ^ (q - 2).toNat := Nat.mul_le_mul_right _ (by omega)
      _ = 4 * m * 2 ^ (q - 2).toNat * 2 ^ 55 := by ring
  · calc 4 * m * 2 ^ (q - 2).toNat * 2 ^ 55 + 4 * m * 2 ^ (q - 2).toNat
        = (4 * m * 2 ^ 55 + 4 * m) * 2 ^ (q - 2).toNat := by ring
      _ ≤ ((4 * m + 2) * 2 ^ 55) * 2 ^ (q - 2).toNat := Nat.mul_le_mul_right _ (by omega)
      _ = (4 * m + 2) * 2 ^ (q - 2).toNat * 2 ^ 55 := by ring
  · exact hden.trans (Nat.le_mul_of_pos_left _ (Nat.mul_pos (by omega) hup))
  · rw [two_mul, pow_add]
    exact Nat.mul_lt_mul_of_pos_right hmid (Nat.pow_pos (by decide))

/-- Found in the interval, the decimal keeps to the upper end when its trailing zeros are moved into
the exponent. -/
theorem shortest_spec (tie : Tie) {x : Float} (h : Ordinary x.toBits) :
    ∃ d e, shortest tie x = (d, e) ∧ 0 < d ∧ d ≤ 10 ^ 18 ∧ -418 ≤ e ∧ e ≤ 420 ∧
      (0 ≤ e → d * 10 ^ e.toNat * (interval x.toBits).den ≤ (interval x.toBits).hi) := by
  have hwide := interval_wide h
  obtain ⟨d, e, hsearch, hfits⟩ :=
    Interval.search_fits hwide tie Nat.one_pos (rfl : 1 + 17 = 18)
  obtain ⟨hlo, hhi⟩ := Interval.bounds_of_holds hwide hfits.holds
  have hd : 0 < d := by
    have hpos := Nat.mul_pos hwide.lo_pos (Interval.up_pos e)
    exact Nat.pos_of_mul_pos_right (hpos.trans_le hlo)
  obtain ⟨j, d', hstrip, hmul, hj⟩ := stripZeros_eq 20 e hd
  have hd' : 0 < d' := Nat.pos_of_mul_pos_right (hmul ▸ hd)
  have hle : d' ≤ d := hmul ▸ Nat.le_mul_of_pos_right d' (Nat.pow_pos (by decide))
  have hge := hfits.exponent_ge
  have hle' := hfits.exponent_le
  refine ⟨d', e + j, ?_, hd', hle.trans hfits.le, by omega, by omega, fun hnonneg => ?_⟩
  · simp only [shortest, hsearch, hstrip]
  · have hbalance : j + e.toNat = (e + j).toNat + (-e).toNat := by omega
    refine Nat.le_of_mul_le_mul_right ?_ (Interval.up_pos e)
    calc d' * 10 ^ (e + j).toNat * (interval x.toBits).den * Interval.up e
        = d' * 10 ^ ((e + j).toNat + (-e).toNat) * (interval x.toBits).den := by
          rw [Interval.up, pow_add]; ring
      _ = d' * 10 ^ j * ((interval x.toBits).den * 10 ^ e.toNat) := by
          rw [← hbalance, pow_add]; ring
      _ ≤ (interval x.toBits).hi * Interval.up e := by rw [hmul]; exact hhi

theorem shortest_le {bits : UInt64} (h : Ordinary bits) (hmax : split bits ≠ (2 ^ 53 - 1, 971))
    {n : Nat} (hn : n * (interval bits).den ≤ (interval bits).hi) :
    n ≤ (2 ^ 54 - 3) * 2 ^ 970 := by
  obtain ⟨-, hlt, -, hle⟩ := split_bounds h
  have hpow : ∀ n, Nat.pow 2 n = 2 ^ n := fun _ => rfl
  generalize hsplit : split bits = s at hmax hlt hle
  obtain ⟨m, q⟩ := s
  dsimp only at hlt hle
  have hsmall : q = 971 → m < 2 ^ 53 - 1 := by
    rintro rfl
    refine Nat.lt_of_le_of_ne (by omega) ?_
    rintro rfl
    exact hmax rfl
  simp only [interval, hsplit, hpow] at hn
  obtain ⟨c, hc⟩ : ∃ c, 970 + (2 - q).toNat = (q - 2).toNat + c :=
    ⟨970 + (2 - q).toNat - (q - 2).toNat, by omega⟩
  have hfactor : 4 * m + 2 ≤ (2 ^ 54 - 3) * 2 ^ c := by
    rcases Nat.lt_or_ge 1 c with hlong | hshort
    · have hfour : 2 ^ 2 ≤ 2 ^ c := Nat.pow_le_pow_right (by decide) hlong
      omega
    · obtain rfl : c = 1 := by omega
      have hm := hsmall (by omega)
      omega
  refine Nat.le_of_mul_le_mul_right (hn.trans ?_) (Nat.two_pow_pos (2 - q).toNat)
  calc (4 * m + 2) * 2 ^ (q - 2).toNat ≤ (2 ^ 54 - 3) * 2 ^ c * 2 ^ (q - 2).toNat :=
        Nat.mul_le_mul_right _ hfactor
    _ = (2 ^ 54 - 3) * 2 ^ (970 + (2 - q).toNat) := by rw [hc, pow_add]; ring
    _ = (2 ^ 54 - 3) * 2 ^ 970 * 2 ^ (2 - q).toNat := by rw [pow_add 2 970, mul_assoc]

theorem shortest_largest {x : Float} (h : split x.toBits = (2 ^ 53 - 1, 971)) :
    shortest .even x = (17976931348623157, 292) := by
  have hfields := split_eq_fields x.toBits
  rw [h] at hfields
  have hordinary : Ordinary x.toBits := by
    split at hfields <;> simp only [Prod.mk.injEq] at hfields <;> constructor <;> omega
  have hfraction : (x.toBits &&& 0xFFFFFFFFFFFFF == 0) = false := by
    rw [beq_eq_false_iff_ne]
    intro hzero
    have hmod := congrArg UInt64.toNat hzero
    rw [UInt64.toNat_and] at hmod
    have hfraction : x.toBits.toNat % 2 ^ 52 = 0 :=
      (Nat.and_two_pow_sub_one_eq_mod x.toBits.toNat 52).symm.trans hmod
    split at hfields <;> simp only [Prod.mk.injEq] at hfields <;> omega
  have hinterval : interval x.toBits = ⟨(4 * (2 ^ 53 - 1) - 2) * Nat.pow 2 969,
      4 * (2 ^ 53 - 1) * Nat.pow 2 969, (4 * (2 ^ 53 - 1) + 2) * Nat.pow 2 969, 1, false⟩ := by
    rw [interval, h, gapBelowIsHalf, hfraction, Bool.false_and]
    decide +kernel
  have hscale : (interval x.toBits).scale = 309 := by
    refine Interval.scale_eq (interval_wide hordinary) (k := 308) ?_ ?_ <;> rw [hinterval] <;>
      decide +kernel
  rw [shortest, hscale, hinterval]
  decide +kernel

end BoundedWorker.Decimal
