import BoundedWorker.Json.Reader
import Mathlib

/-!
Decimal numerals in parts. A form lists the digits before and after the point and those of the
exponent; the reader takes the characters of a form for one numeral, and what the numeral stands for
follows from its parts.
-/

namespace BoundedWorker

namespace Decimal

theorem isDigit_repr (n : Nat) : n.repr.toList.all Char.isDigit = true := by
  rw [List.all_eq_true, Nat.toList_repr]
  intro c hc
  exact Nat.isDigit_of_mem_toDigits (by decide) (by decide) hc

theorem repr_ne_nil (n : Nat) : n.repr.toList ≠ [] := by
  rw [Nat.toList_repr]
  exact Nat.toDigits_ne_nil

theorem length_repr_le_iff {n k : Nat} (hk : 0 < k) : n.repr.toList.length ≤ k ↔ n < 10 ^ k := by
  rw [Nat.toList_repr]
  exact Nat.length_toDigits_le_iff (by decide) hk

theorem digitsValue_append (cs ds : List Char) :
    digitsValue (cs ++ ds) = digitsValue cs * 10 ^ ds.length + digitsValue ds := by
  induction ds using List.reverseRecOn with
  | nil => simp [digitsValue]
  | append_singleton ds c ih =>
    have hstep : ∀ es : List Char, digitsValue (es ++ [c]) = 10 * digitsValue es + digitOf c :=
      fun es => by simp [digitsValue]
    rw [← List.append_assoc, hstep, hstep, ih, List.length_append, List.length_singleton, pow_succ]
    ring

theorem digitsValue_repr (n : Nat) : digitsValue n.repr.toList = n := by
  induction n using Nat.strong_induction_on with
  | _ n ih =>
    have hlast : n % 10 < 10 := Nat.mod_lt _ (by decide)
    rw [Nat.toList_repr, Nat.toDigits_eq_if (by decide)]
    split
    · rename_i hlt
      simp [digitsValue, digitOf, Nat.toNat_digitChar_sub_48_of_lt_ten hlt]
    · rename_i hle
      have hih := ih (n / 10) (by omega)
      rw [Nat.toList_repr] at hih
      rw [digitsValue_append, hih]
      simp only [digitsValue, digitOf, List.foldl_cons, List.foldl_nil, List.length_singleton,
        Nat.toNat_digitChar_sub_48_of_lt_ten hlast]
      omega

theorem digitsValue_zeros (n : Nat) : digitsValue (List.replicate n '0') = 0 := by
  induction n with
  | zero => rfl
  | succ n ih =>
    rw [List.replicate_succ', digitsValue_append, ih]
    rfl

theorem repr_lead {n : Nat} (hn : n ≠ 0) : ∃ c cs, n.repr.toList = c :: cs ∧ c ≠ '0' := by
  induction n using Nat.strong_induction_on with
  | _ n ih =>
    rw [Nat.toList_repr, Nat.toDigits_eq_if (by decide)]
    split
    · exact ⟨_, _, rfl, by simpa using hn⟩
    · obtain ⟨c, cs, heq, hc⟩ := ih (n / 10) (by omega) (by omega)
      rw [Nat.toList_repr] at heq
      exact ⟨c, cs ++ [(n % 10).digitChar], by rw [heq, List.cons_append], hc⟩

end Decimal

namespace Numeral

open Decimal (digitsValue digitOf)

theorem le_foldl_digits (m : Nat) (cs : List Char) :
    m ≤ cs.foldl (fun n c => 10 * n + digitOf c) m := by
  induction cs generalizing m with
  | nil => exact le_rfl
  | cons c cs ih =>
    have hstep : m ≤ 10 * m + digitOf c := by omega
    exact hstep.trans (ih _)

theorem takeWord_lt {m : Nat} (hm : m < wordBound) (cs : List Char) :
    (takeWord m cs).1 < wordBound := by
  induction cs generalizing m with
  | nil => exact hm
  | cons c cs ih =>
    rw [takeWord]
    split
    · exact hm
    · exact ih (by omega)

theorem takeWord_eq {m : Nat} {cs : List Char}
    (h : cs.foldl (fun n c => 10 * n + digitOf c) m < wordBound) :
    takeWord m cs = (cs.foldl (fun n c => 10 * n + digitOf c) m, []) := by
  induction cs generalizing m with
  | nil => rfl
  | cons c cs ih =>
    have hstep := (le_foldl_digits (10 * m + digitOf c) cs).trans_lt h
    rw [takeWord, if_neg hstep.not_ge]
    exact ih h

theorem exponentValue_eq {n : Nat} {cs : List Char}
    (h : cs.foldl (fun n c => 10 * n + digitOf c) n < exponentBound) :
    exponentValue n cs = some (cs.foldl (fun n c => 10 * n + digitOf c) n) := by
  induction cs generalizing n with
  | nil => rfl
  | cons c cs ih =>
    have hstep := (le_foldl_digits (10 * n + digitOf c) cs).trans_lt h
    rw [exponentValue, if_neg hstep.not_ge]
    exact ih h

/-- A decimal numeral in parts. Leading zeros are left out. -/
structure Form where
  negative : Bool
  whole : List Char
  fraction : List Char
  /-- Whether the exponent is negative, and its digits. -/
  power : Option (Bool × List Char)
  whole_digits : whole.all Char.isDigit = true
  lead : whole = ['0'] ∨ ∃ c cs, whole = c :: cs ∧ c ≠ '0'
  fraction_digits : fraction.all Char.isDigit = true
  power_digits : ∀ p ∈ power, p.2 ≠ [] ∧ p.2.all Char.isDigit = true

namespace Form

def fractionChars (cs : List Char) : List Char := if cs = [] then [] else '.' :: cs

def powerChars : Option (Bool × List Char) → List Char
  | none => []
  | some (negative, cs) => 'e' :: (if negative then '-' else '+') :: cs

variable (f : Form)

def magnitude : List Char := f.whole ++ (fractionChars f.fraction ++ powerChars f.power)

def chars : List Char := if f.negative then '-' :: f.magnitude else f.magnitude

def significand : Nat := digitsValue (f.whole ++ f.fraction)

def exponent : Int :=
  let written : Int := match f.power with
    | none => 0
    | some (negative, cs) => if negative then -(digitsValue cs : Int) else digitsValue cs
  written - f.fraction.length

def IsWhole : Prop := f.fraction = [] ∧ f.power = none

end Form

end Numeral

namespace NumeralPlace

def reach (p : NumeralPlace) (cs : List Char) : Option NumeralPlace := cs.foldlM next p

theorem reach_append {p q : NumeralPlace} {cs ds : List Char} (h : p.reach cs = some q) :
    p.reach (cs ++ ds) = q.reach ds := by
  simp only [reach] at h
  simp only [reach, List.foldlM_append, h]
  rfl

theorem reach_cons {p q : NumeralPlace} {c : Char} {cs : List Char} (h : p.next c = some q) :
    p.reach (c :: cs) = q.reach cs := by
  simp only [reach, List.foldlM_cons, h]
  rfl

theorem reach_digits {p : NumeralPlace} (hp : ∀ c, c.isDigit = true → p.next c = some p)
    {cs : List Char} (h : cs.all Char.isDigit = true) : p.reach cs = some p := by
  induction cs with
  | nil => rfl
  | cons c cs ih =>
    rw [List.all_cons, Bool.and_eq_true] at h
    rw [reach_cons (hp c h.1), ih h.2]

theorem whole_next {c : Char} (h : c.isDigit = true) : whole.next c = some whole := by
  simp [next, h]

theorem fraction_next {c : Char} (h : c.isDigit = true) : fraction.next c = some fraction := by
  simp [next, h]

theorem power_next {c : Char} (h : c.isDigit = true) : power.next c = some power := by
  simp [next, h]

theorem reach_whole (f : Numeral.Form) :
    ∃ p, (p = zero ∨ p = whole) ∧ minus.reach f.whole = some p := by
  rcases f.lead with hzero | ⟨c, cs, heq, hc⟩
  · exact ⟨zero, .inl rfl, by rw [hzero]; rfl⟩
  · have hall := f.whole_digits
    rw [heq, List.all_cons, Bool.and_eq_true] at hall
    have hfirst : minus.next c = some whole := by simp [next, hc, hall.1]
    refine ⟨whole, .inr rfl, ?_⟩
    rw [heq, reach_cons hfirst]
    exact reach_digits (fun _ => whole_next) hall.2

theorem reach_fraction (f : Numeral.Form) {p : NumeralPlace} (hp : p = zero ∨ p = whole) :
    ∃ q, (q = zero ∨ q = whole ∨ q = fraction) ∧
      p.reach (Numeral.Form.fractionChars f.fraction) = some q := by
  have hall := f.fraction_digits
  cases hf : f.fraction with
  | nil => exact ⟨p, hp.imp_right .inl, rfl⟩
  | cons c cs =>
    rw [hf, List.all_cons, Bool.and_eq_true] at hall
    have hpoint : p.next '.' = some point := by rcases hp with rfl | rfl <;> rfl
    have hfirst : point.next c = some fraction := by simp [next, hall.1]
    refine ⟨fraction, .inr (.inr rfl), ?_⟩
    rw [Numeral.Form.fractionChars, if_neg (List.cons_ne_nil c cs), reach_cons hpoint,
      reach_cons hfirst]
    exact reach_digits (fun _ => fraction_next) hall.2

theorem reach_power (f : Numeral.Form) {p : NumeralPlace}
    (hp : p = zero ∨ p = whole ∨ p = fraction) :
    ∃ q, q.final = true ∧ p.reach (Numeral.Form.powerChars f.power) = some q := by
  have hall := f.power_digits
  cases hf : f.power with
  | none => exact ⟨p, by rcases hp with rfl | rfl | rfl <;> rfl, rfl⟩
  | some e =>
    obtain ⟨negative, cs⟩ := e
    obtain ⟨hne, hdigits⟩ := hall (negative, cs) (by simp [hf])
    obtain ⟨c, cs, rfl⟩ := List.exists_cons_of_ne_nil hne
    rw [List.all_cons, Bool.and_eq_true] at hdigits
    have hmark : p.next 'e' = some mark := by rcases hp with rfl | rfl | rfl <;> rfl
    have hsign : mark.next (if negative then '-' else '+') = some markSign := by
      cases negative <;> rfl
    have hfirst : markSign.next c = some power := by simp [next, hdigits.1]
    refine ⟨power, rfl, ?_⟩
    rw [Numeral.Form.powerChars, reach_cons hmark, reach_cons hsign, reach_cons hfirst]
    exact reach_digits (fun _ => power_next) hdigits.2

theorem reach_magnitude (f : Numeral.Form) :
    ∃ q, q.final = true ∧ minus.reach f.magnitude = some q := by
  obtain ⟨p, hp, hwhole⟩ := reach_whole f
  obtain ⟨p', hp', hfraction⟩ := reach_fraction f hp
  obtain ⟨q, hq, hpower⟩ := reach_power f hp'
  refine ⟨q, hq, ?_⟩
  rw [Numeral.Form.magnitude, reach_append hwhole, reach_append hfraction, hpower]

end NumeralPlace

namespace Numeral.Form

open Decimal (digitsValue)

variable (f : Form)

theorem first_isDigit : ∃ c cs, f.whole = c :: cs ∧ c.isDigit = true := by
  have hall := f.whole_digits
  rcases f.lead with hzero | ⟨c, cs, heq, -⟩
  · exact ⟨'0', [], hzero, rfl⟩
  · rw [heq, List.all_cons, Bool.and_eq_true] at hall
    exact ⟨c, cs, heq, hall.1⟩

theorem head?_chars : f.chars.head? = some '-' ↔ f.negative = true := by
  obtain ⟨c, cs, heq, hc⟩ := f.first_isDigit
  cases hneg : f.negative with
  | true => simp [chars, hneg]
  | false =>
    have hne : c ≠ '-' := by
      rintro rfl
      exact absurd hc (by decide)
    simp [chars, hneg, magnitude, heq, hne]

theorem span_digits {cs ds : List Char} (h : cs.all Char.isDigit = true)
    (hd : ∀ c ∈ ds.head?, c.isDigit = false) :
    (cs ++ ds).takeWhile Char.isDigit = cs ∧ (cs ++ ds).dropWhile Char.isDigit = ds := by
  rw [List.all_eq_true] at h
  rw [List.takeWhile_append_of_pos h, List.dropWhile_append_of_pos h]
  cases ds with
  | nil => simp
  | cons d ds =>
    have hd' : d.isDigit = false := hd d (by simp)
    simp [hd']

theorem head_powerChars : ∀ c ∈ (powerChars f.power).head?, c.isDigit = false := by
  cases f.power with
  | none => simp [powerChars]
  | some e =>
    simp only [powerChars, List.head?_cons, Option.mem_some_iff]
    rintro c rfl
    rfl

theorem head_tail :
    ∀ c ∈ (fractionChars f.fraction ++ powerChars f.power).head?, c.isDigit = false := by
  cases hf : f.fraction with
  | nil => simpa [fractionChars] using f.head_powerChars
  | cons d ds =>
    simp only [fractionChars, if_neg (List.cons_ne_nil d ds), List.cons_append, List.head?_cons,
      Option.mem_some_iff]
    rintro c rfl
    rfl

def PowerFits : Prop := ∀ p ∈ f.power, digitsValue p.2 < exponentBound

theorem withExponent_eq (h : f.PowerFits) (m : Nat) (e : Int) :
    withExponent m (e - f.fraction.length) (powerChars f.power) = scale m (e + f.exponent) := by
  cases hp : f.power with
  | none =>
    simp only [powerChars, withExponent, exponent, hp]
    congr 1
    omega
  | some p =>
    obtain ⟨negative, cs⟩ := p
    have hvalue := exponentValue_eq (n := 0) (h (negative, cs) (by simp [hp]))
    cases negative with
    | false =>
      simp only [powerChars, withExponent, Decimal.takeSign, exponent, hp, hvalue, digitsValue,
        Bool.false_eq_true, if_false]
      congr 1
      omega
    | true =>
      simp only [powerChars, withExponent, Decimal.takeSign, exponent, hp, hvalue, digitsValue,
        if_true]
      congr 1
      omega

theorem withFraction_eq (hm : f.significand < wordBound) (h : f.PowerFits) (hw : ¬f.IsWhole) :
    withFraction (digitsValue f.whole) 0 (fractionChars f.fraction ++ powerChars f.power) =
      scale f.significand f.exponent := by
  have hexponent := f.withExponent_eq h f.significand 0
  cases hf : f.fraction with
  | nil =>
    cases hp : f.power with
    | none => exact absurd ⟨hf, hp⟩ hw
    | some p =>
      obtain ⟨negative, cs⟩ := p
      have hsignificand : f.significand = digitsValue f.whole := by
        rw [significand, hf, List.append_nil]
      rw [hf, hp, hsignificand] at hexponent
      rw [hsignificand]
      simpa [fractionChars, powerChars, withFraction] using hexponent
  | cons c cs =>
    have hspan := span_digits f.fraction_digits f.head_powerChars
    have hfold : f.fraction.foldl (fun n c => 10 * n + Decimal.digitOf c) (digitsValue f.whole) =
        f.significand := by
      rw [significand, digitsValue, digitsValue, List.foldl_append]
    have hword : takeWord (digitsValue f.whole) f.fraction = (f.significand, []) := by
      rw [takeWord_eq (by rwa [hfold]), hfold]
    rw [fractionChars, if_neg (List.cons_ne_nil c cs), List.cons_append, ← hf]
    simp only [withFraction, hspan.1, hspan.2, hword]
    simpa using hexponent

section Value

variable {f}

theorem body_chars : (if f.chars.head? = some '-' then f.chars.drop 1 else f.chars) =
    f.magnitude := by
  have hhead := f.head?_chars
  cases hneg : f.negative with
  | true => rw [if_pos (hhead.2 hneg), chars, if_pos hneg, List.drop_one, List.tail_cons]
  | false =>
    rw [if_neg (by rw [hhead, hneg]; exact Bool.false_ne_true), chars, hneg]
    rfl

theorem takeWord_whole (hm : f.significand < wordBound) :
    takeWord 0 f.whole = (digitsValue f.whole, []) := by
  refine takeWord_eq (lt_of_le_of_lt ?_ hm)
  rw [significand, digitsValue, List.foldl_append]
  exact le_foldl_digits _ _

def tail (f : Form) : List Char := fractionChars f.fraction ++ powerChars f.power

theorem tail_eq_nil_iff : f.tail = [] ↔ f.IsWhole := by
  rw [tail, List.append_eq_nil_iff, IsWhole]
  refine and_congr ?_ ?_
  · cases f.fraction <;> simp [fractionChars]
  · cases f.power <;> simp [powerChars]

theorem ofChars?_eq (hm : f.significand < wordBound) :
    ofChars? f.chars =
      if f.tail = [] ∧ f.negative = false then some (.natural (digitsValue f.whole))
      else if f.tail = [] ∧ 0 < digitsValue f.whole ∧ digitsValue f.whole ≤ 2 ^ 63 then
        some (.negative (digitsValue f.whole - 1))
      else (withFraction (digitsValue f.whole) 0 f.tail).bind fun x =>
        binary? (Decimal.negateIf f.negative x) := by
  obtain ⟨htake, hdrop⟩ := span_digits f.whole_digits f.head_tail
  have hnegative : decide (f.chars.head? = some '-') = f.negative := by
    rw [Bool.eq_iff_iff, decide_eq_true_iff, f.head?_chars]
  have hsign : ((f.chars.head? = some '-') = (false = true)) = (f.negative = false) := by
    rw [f.head?_chars]
    cases f.negative <;> simp
  unfold ofChars?
  simp only [body_chars, hnegative, hsign]
  rw [magnitude, htake, hdrop, takeWord_whole hm, ← tail]
  simp only [List.isEmpty_nil, List.isEmpty_iff, true_and, List.length_nil, Int.natCast_zero]
  rfl

theorem ofChars?_chars (hm : f.significand < wordBound) (h : f.PowerFits) (hw : ¬f.IsWhole) :
    ofChars? f.chars = (scale f.significand f.exponent).bind fun x =>
      binary? (Decimal.negateIf f.negative x) := by
  have htail : ¬f.tail = [] := tail_eq_nil_iff.not.2 hw
  rw [ofChars?_eq hm, if_neg (fun hc => htail hc.1), if_neg (fun hc => htail hc.1), tail,
    f.withFraction_eq hm h hw]

section Whole

variable (hw : f.IsWhole)

include hw

theorem significand_of_isWhole : digitsValue f.whole = f.significand := by
  rw [significand, hw.1, List.append_nil]

theorem ofChars?_natural (hm : f.significand < wordBound) (hneg : f.negative = false) :
    ofChars? f.chars = some (.natural f.significand) := by
  rw [ofChars?_eq hm, if_pos ⟨tail_eq_nil_iff.2 hw, hneg⟩, significand_of_isWhole hw]

theorem ofChars?_negative (hpos : 0 < f.significand) (hle : f.significand ≤ 2 ^ 63)
    (hneg : f.negative = true) : ofChars? f.chars = some (.negative (f.significand - 1)) := by
  have hbound : (2 : Nat) ^ 63 < wordBound := by decide
  rw [ofChars?_eq (hle.trans_lt hbound), if_neg (by simp [hneg]), significand_of_isWhole hw,
    if_pos ⟨tail_eq_nil_iff.2 hw, hpos, hle⟩]

end Whole

end Value

end Numeral.Form

end BoundedWorker
