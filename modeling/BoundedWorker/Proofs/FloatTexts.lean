import BoundedWorker.Json.Printer
import BoundedWorker.Proofs.Scaling

/-!
The texts of numbers. Every number is written as a numeral, and the numeral of a finite float is
read as a finite float: its digits are few enough for one word, and scaling them stays in range.
-/

namespace BoundedWorker

open Float.Model (Format UnpackedFloat)
open Float.Model.UnpackedFloat (unpackExponent unpackMantissa)
open Decimal (digitsValue digitsValue_append digitsValue_repr digitsValue_zeros isDigit_repr
  repr_ne_nil repr_lead length_repr_le_iff Ordinary)

theorem ordinary_of_unpack {v : BitVec Format.binary64.numBits}
    (finite : (UnpackedFloat.unpack Format.binary64 v).isFinite = true)
    (nonzero : (UnpackedFloat.unpack Format.binary64 v).beq (.zero .positive) = false) :
    v.toNat / 2 ^ 52 % 2 ^ 11 ≠ 2047 ∧ v.toNat % 2 ^ 63 ≠ 0 := by
  rw [UnpackedFloat.unpack] at finite nonzero
  dsimp only at finite nonzero
  have hones : ¬unpackExponent v = -1#_ := by
    intro hones
    rw [if_pos hones] at finite
    split at finite <;> cases finite
  refine ⟨fun h => hones (Binary64.unpackExponent_eq_ones_iff.2 h), fun hzero => ?_⟩
  have hexponent : unpackExponent v = 0#_ :=
    Binary64.unpackExponent_eq_zero_iff.2 (by omega)
  have hmantissa : unpackMantissa v = 0#_ :=
    Binary64.unpackMantissa_eq_zero_iff.2 (by omega)
  rw [if_neg hones, if_pos hexponent, dif_pos hmantissa] at nonzero
  cases nonzero

theorem ordinary_toBits {x : Float} (finite : x.isFinite = true) (nonzero : (x == 0) = false) :
    Ordinary x.toBits :=
  have h := ordinary_of_unpack (v := x.toBits.toBitVec) finite nonzero
  ⟨h.1, h.2⟩

namespace Numeral.Form

theorem lead_repr (n : Nat) :
    n.repr.toList = ['0'] ∨ ∃ c cs, n.repr.toList = c :: cs ∧ c ≠ '0' := by
  rcases Nat.eq_zero_or_pos n with rfl | hpos
  · exact .inl (by decide)
  · exact .inr (repr_lead hpos.ne')

def ofNat (negative : Bool) (n : Nat) : Form where
  negative := negative
  whole := n.repr.toList
  fraction := []
  power := none
  whole_digits := isDigit_repr n
  lead := lead_repr n
  fraction_digits := rfl
  power_digits := by simp

theorem ofNat_chars (negative : Bool) (n : Nat) :
    (ofNat negative n).chars = if negative then '-' :: n.repr.toList else n.repr.toList := by
  cases negative <;> simp [ofNat, chars, magnitude, fractionChars, powerChars]

theorem ofNat_significand (negative : Bool) (n : Nat) : (ofNat negative n).significand = n := by
  rw [significand, ofNat, List.append_nil, digitsValue_repr]

theorem ofNat_isWhole (negative : Bool) (n : Nat) : (ofNat negative n).IsWhole := ⟨rfl, rfl⟩

structure Finite (f : Form) : Prop where
  notWhole : ¬f.IsWhole
  fits : f.PowerFits
  small : f.significand < wordBound
  scaled : ∃ x, scale f.significand f.exponent = some x ∧ x.isFinite = true

theorem Finite.ofChars? {f : Form} (h : f.Finite) :
    ∃ x hx, Numeral.ofChars? f.chars = some (.binary x hx) := by
  obtain ⟨x, hscale, hx⟩ := h.scaled
  have hneg : (Decimal.negateIf f.negative x).isFinite = true := by
    rw [Decimal.negateIf]
    split
    · exact isFinite_neg hx
    · exact hx
  refine ⟨_, hneg, ?_⟩
  rw [ofChars?_chars h.small h.fits h.notWhole, hscale, Option.bind_some, binary?, dif_pos hneg]

theorem all_zeros (n : Nat) : (List.replicate n '0').all Char.isDigit = true := by
  rw [List.all_eq_true]
  intro c hc
  rw [List.eq_of_mem_replicate hc]
  rfl

theorem all_take_repr (d k : Nat) : (d.repr.toList.take k).all Char.isDigit = true := by
  have h := isDigit_repr d
  rw [List.all_eq_true] at h ⊢
  exact fun c hc => h c (List.mem_of_mem_take hc)

theorem all_drop_repr (d k : Nat) : (d.repr.toList.drop k).all Char.isDigit = true := by
  have h := isDigit_repr d
  rw [List.all_eq_true] at h ⊢
  exact fun c hc => h c (List.mem_of_mem_drop hc)

def ofFraction (negative : Bool) (d zeros : Nat) : Form where
  negative := negative
  whole := ['0']
  fraction := List.replicate zeros '0' ++ d.repr.toList
  power := none
  whole_digits := rfl
  lead := .inl rfl
  fraction_digits := by rw [List.all_append, all_zeros, isDigit_repr, Bool.and_self]
  power_digits := by simp

def ofWhole (negative : Bool) (d zeros : Nat) (pos : 0 < d) : Form where
  negative := negative
  whole := d.repr.toList ++ List.replicate zeros '0'
  fraction := ['0']
  power := none
  whole_digits := by rw [List.all_append, all_zeros, isDigit_repr, Bool.and_self]
  lead := by
    obtain ⟨c, ds, heq, hc⟩ := repr_lead pos.ne'
    exact .inr ⟨c, ds ++ List.replicate zeros '0', by rw [heq, List.cons_append], hc⟩
  fraction_digits := rfl
  power_digits := by simp

def ofSplit (negative : Bool) (d k : Nat) (e : Option Int) (pos : 0 < d) (hk : 0 < k) : Form where
  negative := negative
  whole := d.repr.toList.take k
  fraction := d.repr.toList.drop k
  power := e.map fun e => (decide (e < 0), e.natAbs.repr.toList)
  whole_digits := all_take_repr d k
  lead := by
    obtain ⟨c, ds, heq, hc⟩ := repr_lead pos.ne'
    obtain ⟨k, rfl⟩ := Nat.exists_eq_succ_of_ne_zero hk.ne'
    exact .inr ⟨c, ds.take k, by rw [heq, List.take_succ_cons], hc⟩
  fraction_digits := all_drop_repr d k
  power_digits := by
    simp only [Option.mem_def, Option.map_eq_some_iff]
    rintro p ⟨e, -, rfl⟩
    exact ⟨repr_ne_nil _, isDigit_repr _⟩

theorem ofFraction_significand (negative : Bool) (d zeros : Nat) :
    (ofFraction negative d zeros).significand = d := by
  have hzeros : digitsValue ('0' :: List.replicate zeros '0') = 0 := digitsValue_zeros (zeros + 1)
  change digitsValue ('0' :: List.replicate zeros '0' ++ d.repr.toList) = d
  rw [digitsValue_append, hzeros, digitsValue_repr, Nat.zero_mul, Nat.zero_add]

theorem ofWhole_significand (negative : Bool) (d zeros : Nat) (pos : 0 < d) :
    (ofWhole negative d zeros pos).significand = d * 10 ^ (zeros + 1) := by
  have hzeros : digitsValue (List.replicate zeros '0' ++ ['0']) = 0 := by
    rw [← List.replicate_succ']
    exact digitsValue_zeros (zeros + 1)
  change digitsValue (d.repr.toList ++ List.replicate zeros '0' ++ ['0']) = _
  rw [List.append_assoc, digitsValue_append, hzeros, digitsValue_repr, List.length_append,
    List.length_replicate, List.length_singleton, Nat.add_zero]

theorem ofSplit_significand (negative : Bool) {d k : Nat} {e : Option Int} (pos : 0 < d)
    (hk : 0 < k) : (ofSplit negative d k e pos hk).significand = d := by
  change digitsValue (d.repr.toList.take k ++ d.repr.toList.drop k) = d
  rw [List.take_append_drop, digitsValue_repr]

theorem ofFraction_exponent (negative : Bool) (d zeros : Nat) :
    (ofFraction negative d zeros).exponent = -(zeros + d.repr.toList.length : Int) := by
  simp only [exponent, ofFraction, List.length_append, List.length_replicate]
  omega

theorem ofWhole_exponent (negative : Bool) (d zeros : Nat) (pos : 0 < d) :
    (ofWhole negative d zeros pos).exponent = -1 := rfl

theorem ofSplit_exponent (negative : Bool) {d k : Nat} {e : Option Int} (pos : 0 < d)
    (hk : 0 < k) : (ofSplit negative d k e pos hk).exponent =
      e.getD 0 - ((d.repr.toList.length - k : Nat) : Int) := by
  cases e with
  | none => simp only [exponent, ofSplit, Option.map_none, List.length_drop, Option.getD_none]
  | some e =>
    simp only [exponent, ofSplit, Option.map_some, List.length_drop, Option.getD_some,
      digitsValue_repr, decide_eq_true_iff]
    split <;> omega

theorem fractionChars_of_ne_nil {cs : List Char} (h : cs ≠ []) : fractionChars cs = '.' :: cs :=
  if_neg h

theorem positionalText_fraction (negative : Bool) (d : Nat) {k : Int} (hk : k ≤ 0) :
    (Decimal.positionalText ".0" d.repr.toList k).toList =
      (ofFraction negative d (-k).toNat).magnitude := by
  have hne : List.replicate (-k).toNat '0' ++ d.repr.toList ≠ [] :=
    List.append_ne_nil_of_right_ne_nil _ (repr_ne_nil d)
  rw [Decimal.positionalText, if_pos hk, magnitude]
  simp only [ofFraction, fractionChars_of_ne_nil hne, powerChars, Decimal.zeros,
    String.toList_append, String.toList_ofList]
  simp

theorem positionalText_whole (negative : Bool) {d : Nat} (pos : 0 < d) {k : Nat} (hk : 0 < k)
    (hlong : d.repr.toList.length ≤ k) :
    (Decimal.positionalText ".0" d.repr.toList k).toList =
      (ofWhole negative d (k - d.repr.toList.length) pos).magnitude := by
  rw [Decimal.positionalText, if_neg (by omega), if_pos (by simpa using hlong), magnitude]
  simp only [ofWhole, powerChars, Decimal.zeros, String.toList_append, String.toList_ofList,
    Int.toNat_natCast]
  rfl

theorem positionalText_split (negative : Bool) {d : Nat} (pos : 0 < d) {k : Nat} (hk : 0 < k)
    (hshort : k < d.repr.toList.length) :
    (Decimal.positionalText ".0" d.repr.toList k).toList =
      (ofSplit negative d k none pos hk).magnitude := by
  have hne : d.repr.toList.drop k ≠ [] := by
    rw [Ne, List.drop_eq_nil_iff]
    omega
  rw [Decimal.positionalText, if_neg (by omega), if_neg (by simpa using hshort), magnitude]
  simp only [ofSplit, fractionChars_of_ne_nil hne, Option.map_none, powerChars,
    String.toList_append, String.toList_ofList, Int.toNat_natCast]
  simp

theorem exponentText_split (negative : Bool) {d : Nat} (pos : 0 < d) (e : Int) :
    (Decimal.exponentText true d.repr.toList e).toList =
      (ofSplit negative d 1 (some e) pos Nat.one_pos).magnitude := by
  have hpoint : (if d.repr.toList.length ≤ 1 then "" else ".").toList ++ d.repr.toList.drop 1 =
      fractionChars (d.repr.toList.drop 1) := by
    by_cases hshort : d.repr.toList.length ≤ 1
    · rw [if_pos hshort, List.drop_eq_nil_of_le hshort]
      rfl
    · rw [if_neg hshort, fractionChars_of_ne_nil (by rwa [Ne, List.drop_eq_nil_iff])]
      rfl
  have hsign : (if e < 0 then "-" else "+").toList = [if e < 0 then '-' else '+'] := by
    by_cases he : e < 0 <;> simp [he]
  rw [Decimal.exponentText, magnitude]
  simp only [ofSplit, Option.map_some, powerChars, ← hpoint, String.toList_append,
    String.toList_ofList, if_true, decide_eq_true_iff, hsign]
  simp [toString]

section Finite

variable (negative : Bool) {d : Nat} (pos : 0 < d) (few : d ≤ 10 ^ 18)

include few

theorem length_digits : d.repr.toList.length ≤ 19 :=
  (length_repr_le_iff (by decide)).2 (few.trans_lt (by decide))

theorem ofFraction_finite (zeros : Nat) : (ofFraction negative d zeros).Finite where
  notWhole h := List.append_ne_nil_of_right_ne_nil _ (repr_ne_nil d) h.1
  fits := by simp [PowerFits, ofFraction]
  small := by
    rw [ofFraction_significand]
    exact few.trans_lt (by decide)
  scaled := by
    have hlength : 0 < d.repr.toList.length := List.length_pos_iff.2 (repr_ne_nil d)
    refine scale_of_neg _ ?_
    rw [ofFraction_exponent]
    omega

omit few in
theorem ofWhole_finite {zeros : Nat} (hshort : d.repr.toList.length + zeros ≤ 17) :
    (ofWhole negative d zeros pos).Finite where
  notWhole h := List.cons_ne_nil _ _ h.1
  fits := by simp [PowerFits, ofWhole]
  small := by
    have hlength : 0 < d.repr.toList.length := List.length_pos_iff.2 (repr_ne_nil d)
    have hd := (length_repr_le_iff hlength).1 (le_refl d.repr.toList.length)
    rw [ofWhole_significand]
    calc d * 10 ^ (zeros + 1) < 10 ^ d.repr.toList.length * 10 ^ (zeros + 1) :=
          Nat.mul_lt_mul_of_pos_right hd (Nat.pow_pos (by decide))
      _ = 10 ^ (d.repr.toList.length + (zeros + 1)) := (pow_add _ _ _).symm
      _ ≤ 10 ^ 18 := Nat.pow_le_pow_right (by decide) (by omega)
      _ ≤ wordBound := by decide
  scaled := scale_of_neg _ (by rw [ofWhole_exponent]; decide)

theorem ofSplit_finite {k : Nat} (hk : 0 < k) {e : Option Int} (hfits : ∀ p ∈ e, p.natAbs < 1000)
    (notWhole : e = none → k < d.repr.toList.length)
    (scaled : ∃ x, scale d (e.getD 0 - ((d.repr.toList.length - k : Nat) : Int)) = some x ∧
      x.isFinite = true) : (ofSplit negative d k e pos hk).Finite where
  notWhole h := by
    have hnone : e = none := Option.map_eq_none_iff.1 h.2
    have hshort := notWhole hnone
    have hlong := List.drop_eq_nil_iff.1 h.1
    omega
  fits := by
    intro p hp
    obtain ⟨e', he', rfl⟩ := Option.map_eq_some_iff.1 hp
    rw [digitsValue_repr]
    exact (hfits e' he').trans (by decide)
  small := by
    rw [ofSplit_significand]
    exact few.trans_lt (by decide)
  scaled := by rwa [ofSplit_significand, ofSplit_exponent]

end Finite

/-- The digits of a finite float can be scaled back. -/
theorem scale_shortest {x : Float} (h : Ordinary x.toBits) :
    ∃ d e, Decimal.shortest .even x = (d, e) ∧ 0 < d ∧ d ≤ 10 ^ 18 ∧ -418 ≤ e ∧ e ≤ 420 ∧
      ∃ y, scale d e = some y ∧ y.isFinite = true := by
  by_cases hmax : Decimal.split x.toBits = (2 ^ 53 - 1, 971)
  · exact ⟨_, _, Decimal.shortest_largest hmax, by decide, by decide, by decide, by decide,
      scale_largest⟩
  · obtain ⟨d, e, heq, pos, few, hge, hle, hhi⟩ := Decimal.shortest_spec .even h
    refine ⟨d, e, heq, pos, few, hge, hle, ?_⟩
    rcases Int.lt_or_le e 0 with hneg | hnonneg
    · exact scale_of_neg d hneg
    · have hscale := scale_of_nonneg pos few (Decimal.shortest_le h hmax (hhi hnonneg))
      rwa [Int.toNat_of_nonneg hnonneg] at hscale

section Written

variable (negative : Bool) {d : Nat} (pos : 0 < d) (few : d ≤ 10 ^ 18) {e : Int}
  (scaled : ∃ y, scale d e = some y ∧ y.isFinite = true)

include pos few scaled

theorem exists_positional (hk : e + d.repr.toList.length ≤ 16) :
    ∃ f : Form, f.negative = negative ∧
      (Decimal.positionalText ".0" d.repr.toList (e + d.repr.toList.length)).toList =
        f.magnitude ∧ f.Finite := by
  have hlength : 0 < d.repr.toList.length := List.length_pos_iff.2 (repr_ne_nil d)
  rcases le_or_gt (e + (d.repr.toList.length : Int)) 0 with hlow | hhigh
  · exact ⟨_, rfl, positionalText_fraction negative d hlow, ofFraction_finite negative few _⟩
  · obtain ⟨k, hk'⟩ := Int.eq_ofNat_of_zero_le hhigh.le
    rw [hk']
    rcases Nat.lt_or_ge k d.repr.toList.length with hsplit | hwhole
    · refine ⟨_, rfl, positionalText_split negative pos (by omega) hsplit,
        ofSplit_finite negative pos few _ (by simp) (fun _ => hsplit) ?_⟩
      rwa [Option.getD_none, show (0 : Int) - ((d.repr.toList.length - k : Nat) : Int) = e by
        omega]
    · exact ⟨_, rfl, positionalText_whole negative pos (by omega) hwhole,
        ofWhole_finite negative pos (by omega)⟩

theorem exists_exponent (hge : -418 ≤ e) (hle : e ≤ 420) :
    ∃ f : Form, f.negative = negative ∧
      (Decimal.exponentText true d.repr.toList (e + d.repr.toList.length - 1)).toList =
        f.magnitude ∧ f.Finite := by
  have hlength : 0 < d.repr.toList.length := List.length_pos_iff.2 (repr_ne_nil d)
  have hlong := length_digits few
  refine ⟨_, rfl, exponentText_split negative pos _,
    ofSplit_finite negative pos few _ ?_ (fun h => by cases h) ?_⟩
  · simp only [Option.mem_some_iff]
    rintro p rfl
    omega
  · rwa [Option.getD_some, show e + (d.repr.toList.length : Int) - 1 -
      ((d.repr.toList.length - 1 : Nat) : Int) = e by omega]

end Written

theorem exists_magnitude (negative : Bool) {x : Float} (finite : x.isFinite = true) :
    ∃ f : Form, f.negative = negative ∧
      (Decimal.Layout.json.magnitude x).toList = f.magnitude ∧ f.Finite := by
  rw [Decimal.Layout.magnitude]
  by_cases hzero : (x == 0) = true
  · rw [if_pos hzero]
    exact ⟨ofFraction negative 0 0, rfl, rfl, ofFraction_finite negative (by decide) 0⟩
  · obtain ⟨d, e, heq, pos, few, hge, hle, hscale⟩ :=
      scale_shortest (ordinary_toBits finite (Bool.not_eq_true _ ▸ hzero))
    have htie : Decimal.Layout.json.tie = .even := rfl
    rw [if_neg hzero, htie, heq]
    dsimp only
    split
    · rename_i hpositional
      have hrange : -5 ≤ e + (d.repr.toList.length : Int) - 1 ∧
          e + (d.repr.toList.length : Int) - 1 < 16 := by
        simpa [Decimal.Layout.json] using hpositional
      exact exists_positional negative pos few hscale (by omega)
    · exact exists_exponent negative pos few hscale hge hle

theorem exists_finite {x : Float} (finite : x.isFinite = true) :
    ∃ f : Form, (Decimal.Layout.json.write x).toList = f.chars ∧ f.Finite := by
  obtain ⟨f, hneg, hmagnitude, hfinite⟩ := exists_magnitude (Decimal.isNegative x) finite
  refine ⟨f, ?_, hfinite⟩
  rw [Decimal.Layout.write, isNaN_of_isFinite finite, isInf_of_isFinite finite, chars, hneg]
  cases Decimal.isNegative x with
  | false => simpa using hmagnitude
  | true => simpa using hmagnitude

end Numeral.Form

open Numeral (Form)

theorem Number.exists_form (n : Number) : ∃ f : Form, n.text = f.chars := by
  cases n with
  | natural n => exact ⟨.ofNat false n, (Form.ofNat_chars false n).symm⟩
  | negative n => exact ⟨.ofNat true (n + 1), (Form.ofNat_chars true (n + 1)).symm⟩
  | binary x finite =>
    obtain ⟨f, hf, -⟩ := Form.exists_finite finite
    exact ⟨f, hf⟩

end BoundedWorker
