/-!
Finite maps from names to values, held as a list in strictly increasing name order.

The order is the order of code points, which is also the order of the UTF-8 bytes, so listing a
table and writing it out agree on what comes first. Two tables with the same lookups are equal.
-/

namespace BoundedWorker

abbrev NamesIncrease {α : Type} (entries : List (String × α)) : Prop :=
  entries.Pairwise fun a b => a.1 < b.1

structure Table (α : Type) where
  entries : List (String × α)
  increasing : NamesIncrease entries

namespace Table

variable {α β : Type}

def lookup (name : String) : List (String × α) → Option α
  | [] => none
  | (n, a) :: rest => if n = name then some a else lookup name rest

def place (name : String) (a : α) : List (String × α) → List (String × α)
  | [] => [(name, a)]
  | (n, b) :: rest =>
    if name < n then (name, a) :: (n, b) :: rest
    else if n = name then (name, a) :: rest
    else (n, b) :: place name a rest

def strike (name : String) (entries : List (String × α)) : List (String × α) :=
  entries.filter fun e => e.1 ≠ name

theorem mem_place {name : String} {a : α} {entries : List (String × α)} {e : String × α}
    (h : e ∈ place name a entries) : e = (name, a) ∨ e ∈ entries := by
  induction entries with
  | nil => simpa [place] using h
  | cons x rest ih =>
    obtain ⟨n, b⟩ := x
    simp only [place] at h
    split at h
    · simpa using h
    · split at h
      · rcases List.mem_cons.1 h with h | h
        · exact .inl h
        · exact .inr (List.mem_cons_of_mem _ h)
      · rcases List.mem_cons.1 h with h | h
        · exact .inr (by simp [h])
        · rcases ih h with h | h
          · exact .inl h
          · exact .inr (List.mem_cons_of_mem _ h)

theorem lt_of_not_lt_of_ne {a b : String} (h : ¬ a < b) (hne : b ≠ a) : b < a := by
  by_cases hb : b < a
  · exact hb
  · exact absurd (String.le_antisymm (String.not_lt.1 h) (String.not_lt.1 hb)) hne

theorem place_increasing (name : String) (a : α) {entries : List (String × α)}
    (h : NamesIncrease entries) : NamesIncrease (place name a entries) := by
  induction entries with
  | nil => simp [place, NamesIncrease]
  | cons x rest ih =>
    obtain ⟨n, b⟩ := x
    have hx := List.pairwise_cons.1 h
    simp only [place]
    split
    · rename_i hlt
      refine List.pairwise_cons.2 ⟨fun e he => ?_, h⟩
      rcases List.mem_cons.1 he with he | he
      · simpa [he] using hlt
      · exact String.lt_trans hlt (hx.1 e he)
    · rename_i hnlt
      split
      · rename_i heq
        subst heq
        exact List.pairwise_cons.2 hx
      · rename_i hne
        refine List.pairwise_cons.2 ⟨fun e he => ?_, ih hx.2⟩
        rcases mem_place he with he | he
        · simpa [he] using lt_of_not_lt_of_ne hnlt hne
        · exact hx.1 e he

theorem strike_increasing (name : String) {entries : List (String × α)}
    (h : NamesIncrease entries) : NamesIncrease (strike name entries) :=
  List.Pairwise.filter _ h

theorem lookup_eq_none_of_lt {name : String} (entries : List (String × α))
    (h : ∀ e ∈ entries, name < e.1) : lookup name entries = none := by
  induction entries with
  | nil => rfl
  | cons x rest ih =>
    have hx : name < x.1 := h x (by simp)
    have hne : x.1 ≠ name := fun he => String.lt_irrefl _ (he ▸ hx)
    simp [lookup, hne, ih fun e he => h e (List.mem_cons_of_mem _ he)]

theorem lookup_tail {name : String} {a : α} {rest : List (String × α)}
    (h : NamesIncrease ((name, a) :: rest)) : lookup name rest = none :=
  lookup_eq_none_of_lt rest (List.pairwise_cons.1 h).1

theorem lookup_place (name other : String) (a : α) (entries : List (String × α)) :
    lookup other (place name a entries) =
      if name = other then some a else lookup other entries := by
  induction entries with
  | nil => simp [place, lookup]
  | cons x rest ih =>
    obtain ⟨n, b⟩ := x
    simp only [place]
    split
    · simp [lookup]
    · split
      · rename_i heq
        subst heq
        simp only [lookup]
        split <;> rfl
      · rename_i hne
        simp only [lookup, ih]
        by_cases h1 : n = other <;> by_cases h2 : name = other <;> simp_all

theorem lookup_strike (name other : String) (entries : List (String × α)) :
    lookup other (strike name entries) =
      if name = other then none else lookup other entries := by
  induction entries with
  | nil => simp [strike, lookup]
  | cons x rest ih =>
    obtain ⟨n, b⟩ := x
    simp only [strike] at ih ⊢
    by_cases h : n = name
    · rw [List.filter_cons_of_neg (by simp [h]), ih]
      by_cases h2 : name = other <;> simp_all [lookup]
    · rw [List.filter_cons_of_pos (by simp [h])]
      simp only [lookup, ih]
      by_cases h1 : n = other <;> by_cases h2 : name = other <;> simp_all

theorem mem_of_lookup {name : String} {a : α} {entries : List (String × α)}
    (h : lookup name entries = some a) : (name, a) ∈ entries := by
  induction entries with
  | nil => simp [lookup] at h
  | cons x rest ih =>
    obtain ⟨n, b⟩ := x
    simp only [lookup] at h
    split at h
    · simp_all
    · exact List.mem_cons_of_mem _ (ih h)

theorem lookup_of_mem {name : String} {a : α} {entries : List (String × α)}
    (hinc : NamesIncrease entries) (h : (name, a) ∈ entries) :
    lookup name entries = some a := by
  induction entries with
  | nil => simp at h
  | cons x rest ih =>
    obtain ⟨n, b⟩ := x
    have hx := List.pairwise_cons.1 hinc
    rcases List.mem_cons.1 h with h | h
    · simp_all [lookup]
    · have hne : n ≠ name := fun he => String.lt_irrefl n (by simpa [he] using hx.1 _ h)
      simp [lookup, hne, ih hx.2 h]

theorem eq_of_lookup_eq {xs ys : List (String × α)} (hx : NamesIncrease xs)
    (hy : NamesIncrease ys) (h : ∀ name, lookup name xs = lookup name ys) : xs = ys := by
  induction xs generalizing ys with
  | nil =>
    cases ys with
    | nil => rfl
    | cons y ys => simpa [lookup] using h y.1
  | cons x xs ih =>
    cases ys with
    | nil => simpa [lookup] using h x.1
    | cons y ys =>
      have hx' := List.pairwise_cons.1 hx
      have hy' := List.pairwise_cons.1 hy
      obtain ⟨n, a⟩ := x
      obtain ⟨m, b⟩ := y
      have hnm : n = m := by
        by_cases hlt : n < m
        · have := h n
          rw [lookup_eq_none_of_lt ((m, b) :: ys) (by
            intro e he
            rcases List.mem_cons.1 he with he | he
            · simpa [he] using hlt
            · exact String.lt_trans hlt (hy'.1 e he))] at this
          simp [lookup] at this
        · by_cases hne : m = n
          · exact hne.symm
          · have hlt' := lt_of_not_lt_of_ne hlt hne
            have := h m
            rw [lookup_eq_none_of_lt ((n, a) :: xs) (by
              intro e he
              rcases List.mem_cons.1 he with he | he
              · simpa [he] using hlt'
              · exact String.lt_trans hlt' (hx'.1 e he))] at this
            simp [lookup] at this
      subst hnm
      have hab : a = b := by simpa [lookup] using h n
      subst hab
      have hrest : ∀ name, lookup name xs = lookup name ys := by
        intro name
        by_cases hn : n = name
        · subst hn
          rw [lookup_eq_none_of_lt _ hx'.1, lookup_eq_none_of_lt _ hy'.1]
        · simpa [lookup, hn] using h name
      rw [ih hx'.2 hy'.2 hrest]

def empty : Table α := ⟨[], List.Pairwise.nil⟩

instance : EmptyCollection (Table α) := ⟨empty⟩

instance : Inhabited (Table α) := ⟨empty⟩

def get? (t : Table α) (name : String) : Option α := lookup name t.entries

def contains (t : Table α) (name : String) : Bool := (t.get? name).isSome

def insert (t : Table α) (name : String) (a : α) : Table α :=
  ⟨place name a t.entries, place_increasing name a t.increasing⟩

def erase (t : Table α) (name : String) : Table α :=
  ⟨strike name t.entries, strike_increasing name t.increasing⟩

/-- Reads a list of entries from left to right: of two entries of one name the later one stays. -/
def ofList (entries : List (String × α)) : Table α :=
  entries.foldl (fun t e => t.insert e.1 e.2) empty

def names (t : Table α) : List String := t.entries.map (·.1)

def size (t : Table α) : Nat := t.entries.length

def isEmpty (t : Table α) : Bool := t.entries.isEmpty

def map (f : α → β) (t : Table α) : Table β :=
  ⟨t.entries.map fun e => (e.1, f e.2), by
    simpa [NamesIncrease, List.pairwise_map] using t.increasing⟩

theorem ext_get? {s t : Table α} (h : ∀ name, s.get? name = t.get? name) : s = t := by
  cases s with
  | mk xs hx =>
    cases t with
    | mk ys hy =>
      have := eq_of_lookup_eq hx hy h
      subst this
      rfl

@[simp] theorem get?_empty (name : String) : (empty : Table α).get? name = none := rfl

theorem get?_insert (t : Table α) (name other : String) (a : α) :
    (t.insert name a).get? other = if name = other then some a else t.get? other :=
  lookup_place name other a t.entries

theorem get?_erase (t : Table α) (name other : String) :
    (t.erase name).get? other = if name = other then none else t.get? other :=
  lookup_strike name other t.entries

theorem mem_entries_iff {t : Table α} {name : String} {a : α} :
    (name, a) ∈ t.entries ↔ t.get? name = some a :=
  ⟨lookup_of_mem t.increasing, mem_of_lookup⟩

theorem mem_names_iff {t : Table α} {name : String} :
    name ∈ t.names ↔ t.contains name = true := by
  rw [names, contains, Option.isSome_iff_exists, List.mem_map]
  constructor
  · rintro ⟨e, he, rfl⟩
    exact ⟨e.2, mem_entries_iff.1 he⟩
  · rintro ⟨a, ha⟩
    exact ⟨(name, a), mem_entries_iff.2 ha, rfl⟩

theorem names_nodup (t : Table α) : t.names.Nodup :=
  List.Pairwise.map _ (fun _ _ h he => String.lt_irrefl _ (he ▸ h)) t.increasing

theorem isEmpty_iff {t : Table α} : t.isEmpty = true ↔ ∀ name, ¬ t.contains name = true := by
  simp only [isEmpty, List.isEmpty_iff, ← mem_names_iff, ← List.eq_nil_iff_forall_not_mem, names,
    List.map_eq_nil_iff]

theorem get?_map (f : α → β) (t : Table α) (name : String) :
    (t.map f).get? name = (t.get? name).map f := by
  simp only [map, get?]
  induction t.entries with
  | nil => rfl
  | cons x rest ih =>
    simp only [List.map_cons, lookup]
    split
    · rfl
    · exact ih

end Table

end BoundedWorker
