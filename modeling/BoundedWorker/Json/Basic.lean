import BoundedWorker.Table

/-!
JSON values. Numbers have three forms: natural numbers, negative whole numbers, and binary numbers
for everything else.

A `Json` lists the members of an object as they come. A `Value` is a tree as reading leaves it:
the names of each object increase strictly, and whole numbers fit 64 bits.
-/

namespace BoundedWorker

inductive Number where
  | natural (n : Nat)
  /-- Stands for `-(n + 1)`. -/
  | negative (n : Nat)
  | binary (x : Float) (finite : x.isFinite = true)

namespace Number

def toFloat : Number → Float
  | natural n => Float.ofNat n
  | negative n => -Float.ofNat (n + 1)
  | binary x _ => x

def Fits : Number → Prop
  | natural n => n < Nat.pow 2 64
  | negative n => n < Nat.pow 2 63
  | binary _ _ => True

def rounded (x : Float) : Number :=
  if h : x.isFinite = true then binary x h else natural 0

def fit : Number → Number
  | natural n => if n < Nat.pow 2 64 then natural n else rounded (Float.ofNat n)
  | negative n => if n < Nat.pow 2 63 then negative n else rounded (-Float.ofNat (n + 1))
  | binary x h => binary x h

theorem fits_rounded (x : Float) : (rounded x).Fits := by
  unfold rounded
  split <;> simp [Fits]

theorem fits_fit (n : Number) : n.fit.Fits := by
  cases n with
  | natural n =>
    simp only [fit]
    split
    · assumption
    · exact fits_rounded _
  | negative n =>
    simp only [fit]
    split
    · assumption
    · exact fits_rounded _
  | binary x h => simp [fit, Fits]

end Number

inductive Json where
  | null
  | bool (b : Bool)
  | number (n : Number)
  | string (s : String)
  | array (items : List Json)
  | object (members : List (String × Json))

namespace Json

instance : Inhabited Json := ⟨null⟩

def ofFloat (x : Float) : Json :=
  if h : x.isFinite = true then .number (.binary x h) else .null

def ofNat (n : Nat) : Json := .number (.natural n)

def ofInt : Int → Json
  | .ofNat n => .number (.natural n)
  | .negSucc n => .number (.negative n)

mutual

def Arranged : Json → Prop
  | number n => n.Fits
  | array items => AllArranged items
  | object members => NamesIncrease members ∧ MembersArranged members
  | _ => True

def AllArranged : List Json → Prop
  | [] => True
  | j :: rest => j.Arranged ∧ AllArranged rest

def MembersArranged : List (String × Json) → Prop
  | [] => True
  | (_, j) :: rest => j.Arranged ∧ MembersArranged rest

end

mutual

/-- Puts every object in order; of two members of one name the later one stays. Whole numbers
beyond 64 bits become binary ones. -/
def arrange : Json → Json
  | array items => array (arrangeAll items)
  | object members => object (arrangeMembers [] members)
  | null => null
  | bool b => bool b
  | number n => number n.fit
  | string s => string s

def arrangeAll : List Json → List Json
  | [] => []
  | j :: rest => j.arrange :: arrangeAll rest

def arrangeMembers (done : List (String × Json)) : List (String × Json) → List (String × Json)
  | [] => done
  | (name, j) :: rest => arrangeMembers (Table.place name j.arrange done) rest

end

theorem membersArranged_iff {members : List (String × Json)} :
    MembersArranged members ↔ ∀ m ∈ members, m.2.Arranged := by
  induction members with
  | nil => simp [MembersArranged]
  | cons m rest ih => simp [MembersArranged, ih]

theorem membersArranged_place {name : String} {j : Json} {members : List (String × Json)}
    (hj : j.Arranged) (h : MembersArranged members) :
    MembersArranged (Table.place name j members) := by
  rw [membersArranged_iff] at h ⊢
  intro m hm
  rcases Table.mem_place hm with rfl | hm
  · exact hj
  · exact h m hm

mutual

theorem arranged_arrange : ∀ j : Json, j.arrange.Arranged
  | array items => by
    simpa [arrange, Arranged] using allArranged_arrangeAll items
  | object members => by
    have h := arranged_arrangeMembers members [] List.Pairwise.nil (by simp [MembersArranged])
    simpa [arrange, Arranged] using h
  | null => by simp [arrange, Arranged]
  | bool b => by simp [arrange, Arranged]
  | number n => by simpa [arrange, Arranged] using n.fits_fit
  | string s => by simp [arrange, Arranged]

theorem allArranged_arrangeAll : ∀ items : List Json, AllArranged (arrangeAll items)
  | [] => by simp [arrangeAll, AllArranged]
  | j :: rest => by
    simpa [arrangeAll, AllArranged] using ⟨arranged_arrange j, allArranged_arrangeAll rest⟩

theorem arranged_arrangeMembers : ∀ members done : List (String × Json),
    NamesIncrease done → MembersArranged done →
      NamesIncrease (arrangeMembers done members) ∧
        MembersArranged (arrangeMembers done members)
  | [], done, hinc, hall => by simpa [arrangeMembers] using ⟨hinc, hall⟩
  | (name, j) :: rest, done, hinc, hall => by
    simp only [arrangeMembers]
    exact arranged_arrangeMembers rest _ (Table.place_increasing name j.arrange hinc)
      (membersArranged_place (arranged_arrange j) hall)

end

end Json

/-- A tree that is arranged, and so determined by what it holds. -/
structure Value where
  json : Json
  arranged : json.Arranged

def Value.ofJson (j : Json) : Value := ⟨j.arrange, j.arranged_arrange⟩

def Value.null : Value := ⟨.null, by simp [Json.Arranged]⟩

instance : Inhabited Value := ⟨Value.null⟩

end BoundedWorker
