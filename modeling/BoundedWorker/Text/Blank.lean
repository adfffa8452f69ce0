/-!
White space in texts that people type: the 25 characters of the Unicode property White_Space.

Identifiers that hold nothing else count as empty, and settings are trimmed before they are read.
-/

namespace BoundedWorker

/-- The Unicode property White_Space, in code point order. -/
def blankRanges : List (Nat × Nat) :=
  [(0x9, 0xD), (0x20, 0x20), (0x85, 0x85), (0xA0, 0xA0), (0x1680, 0x1680), (0x2000, 0x200A),
   (0x2028, 0x2029), (0x202F, 0x202F), (0x205F, 0x205F), (0x3000, 0x3000)]

def isBlank (c : Char) : Bool :=
  blankRanges.any fun r => r.1 ≤ c.toNat && c.toNat ≤ r.2

example : (blankRanges.map fun r => r.2 - r.1 + 1).sum = 25 := by decide

def trimBlank (cs : List Char) : List Char :=
  ((cs.dropWhile isBlank).reverse.dropWhile isBlank).reverse

def trimText (s : String) : String := String.ofList (trimBlank s.toList)

theorem dropBlank_eq_nil_iff (cs : List Char) :
    cs.dropWhile isBlank = [] ↔ ∀ c ∈ cs, isBlank c = true := by
  induction cs with
  | nil => simp
  | cons c cs ih =>
    cases h : isBlank c with
    | true => simp [h, ih]
    | false => simp [h]

theorem trimBlank_eq_nil_iff (cs : List Char) :
    trimBlank cs = [] ↔ ∀ c ∈ cs, isBlank c = true := by
  rw [trimBlank, List.reverse_eq_nil_iff, dropBlank_eq_nil_iff, ← dropBlank_eq_nil_iff cs]
  constructor
  · intro h
    cases hd : cs.dropWhile isBlank with
    | nil => rfl
    | cons x xs =>
      have hx : isBlank x = true := h x (by simp [hd])
      have hne := List.head_dropWhile_not isBlank (l := cs) (by simp [hd])
      simp [hd, hx] at hne
  · intro h
    simp [h]

end BoundedWorker
