import BoundedWorker.Proofs.JsonTexts
import BoundedWorker.Task.Request
import BoundedWorker.Task.Metric

/-!
Taking the tree of a value apart. A value whose numbers are read as they were written is read as it
was, as a whole and as far as any type looks into it. This holds for trees of text and for trees of
values that were read before, which differ in their numbers alone.
-/

namespace BoundedWorker

theorem Table.place_last {α : Type} {name : String} {a : α} {entries : List (String × α)}
    (h : ∀ e ∈ entries, e.1 < name) : Table.place name a entries = entries ++ [(name, a)] := by
  induction entries with
  | nil => rfl
  | cons e rest ih =>
    have he := h e List.mem_cons_self
    rw [Table.place, if_neg (String.lt_asymm he), if_neg he.ne,
      ih fun e' he' => h e' (List.mem_cons_of_mem _ he'), List.cons_append]

/-- The text of the float is read as this very float. -/
def ReadsBack (x : Float) : Prop := readText Node.readFloat (Json.ofFloat x).text = .ok x

namespace Number

def floats : Number → List Float
  | binary x _ => [x]
  | _ => []

theorem fit_of_fits {n : Number} (h : n.Fits) : n.fit = n := by
  cases n with
  | natural n => exact if_pos h
  | negative n => exact if_pos h
  | binary x finite => rfl

theorem number?_natural {n : Nat} (h : n < 2 ^ 64) :
    (natural n).written.number? = some (natural n) := by
  have hm : (Numeral.Form.ofNat false n).significand < Numeral.wordBound := by
    rwa [Numeral.Form.ofNat_significand]
  have hread := Numeral.Form.ofChars?_natural (Numeral.Form.ofNat_isWhole false n) hm rfl
  rw [Numeral.Form.ofNat_chars, Numeral.Form.ofNat_significand] at hread
  exact hread

theorem number?_negative {n : Nat} (h : n < 2 ^ 63) :
    (negative n).written.number? = some (negative n) := by
  have hread := Numeral.Form.ofChars?_negative (Numeral.Form.ofNat_isWhole true (n + 1))
    (by rw [Numeral.Form.ofNat_significand]; exact n.succ_pos)
    (by rw [Numeral.Form.ofNat_significand]; exact h) rfl
  rw [Numeral.Form.ofNat_chars, Numeral.Form.ofNat_significand] at hread
  exact hread

theorem number?_binary {x : Float} (finite : x.isFinite = true) :
    ∃ y finite', (binary x finite).written.number? = some (binary y finite') := by
  obtain ⟨f, hf, hfinite⟩ := Numeral.Form.exists_finite finite
  obtain ⟨y, hy, hread⟩ := hfinite.ofChars?
  exact ⟨y, hy, by rw [written, text, hf]; exact hread⟩

theorem readsBack_iff {x : Float} (finite : x.isFinite = true) :
    ReadsBack x ↔ (binary x finite).written.number? = some (binary x finite) := by
  rw [ReadsBack, readText_text, Json.ofFloat, dif_pos finite, Json.tree, Node.readFloat]
  constructor
  · intro back
    obtain ⟨y, hy, hread⟩ := number?_binary finite
    rw [hread] at back ⊢
    have heq : y = x := Except.ok.inj back
    subst heq
    rfl
  · intro hread
    rw [hread]
    rfl

theorem number?_of_readsBack {x : Float} (finite : x.isFinite = true) (back : ReadsBack x) :
    (binary x finite).written.number? = some (binary x finite) := (readsBack_iff finite).1 back

theorem number?_written {n : Number} (fits : n.Fits) (back : ∀ x ∈ n.floats, ReadsBack x) :
    n.written.number? = some n := by
  cases n with
  | natural n => exact number?_natural fits
  | negative n => exact number?_negative fits
  | binary x finite => exact number?_of_readsBack finite (back x (List.mem_singleton_self x))

end Number

section ThreeHalves

open Decimal (Interval interval shortest)

theorem isFinite_threeHalves : (1.5 : Float).isFinite = true := by decide +kernel

theorem shortest_threeHalves : shortest .even 1.5 = (15, -1) := by
  have hordinary : Decimal.Ordinary (1.5 : Float).toBits :=
    ordinary_toBits isFinite_threeHalves (by decide +kernel)
  have hscale : (interval (1.5 : Float).toBits).scale = 1 :=
    Interval.scale_eq (k := 0) (Decimal.interval_wide hordinary) (by decide +kernel)
      (by decide +kernel)
  rw [shortest, hscale]
  decide +kernel

theorem number?_threeHalves :
    (Numeral.written ['1', '.', '5']).number? = some (.binary 1.5 isFinite_threeHalves) := by
  let f : Numeral.Form :=
    ⟨false, ['1'], ['5'], none, rfl, .inr ⟨'1', [], rfl, by decide⟩, rfl, nofun⟩
  have hscale : Numeral.scale f.significand f.exponent = some 1.5 := by decide +kernel
  have hread := Numeral.Form.ofChars?_chars (f := f) (by decide) nofun nofun
  rw [hscale, Option.bind_some, Numeral.binary?, dif_pos (by exact isFinite_threeHalves)] at hread
  exact hread

theorem readsBack_threeHalves : ReadsBack 1.5 := by
  have htie : Decimal.Layout.json.tie = .even := rfl
  have htext : (Number.binary 1.5 isFinite_threeHalves).text = ['1', '.', '5'] := by
    rw [Number.text, Decimal.Layout.write, Decimal.Layout.magnitude, htie, shortest_threeHalves]
    decide +kernel
  rw [Number.readsBack_iff isFinite_threeHalves, Number.written, htext]
  exact number?_threeHalves

end ThreeHalves

namespace Json

mutual

def depth : Json → Nat
  | array items => itemDepth items + 1
  | object members => memberDepth members + 1
  | _ => 0

def itemDepth : List Json → Nat
  | [] => 0
  | j :: rest => max j.depth (itemDepth rest)

def memberDepth : List (String × Json) → Nat
  | [] => 0
  | (_, j) :: rest => max j.depth (memberDepth rest)

end

mutual

def numbers : Json → List Number
  | number n => [n]
  | array items => itemNumbers items
  | object members => memberNumbers members
  | _ => []

def itemNumbers : List Json → List Number
  | [] => []
  | j :: rest => j.numbers ++ itemNumbers rest

def memberNumbers : List (String × Json) → List Number
  | [] => []
  | (_, j) :: rest => j.numbers ++ memberNumbers rest

end

def floats (j : Json) : List Float := j.numbers.flatMap Number.floats

theorem forall_mem_itemNumbers {p : Number → Prop} {items : List Json} :
    (∀ n ∈ itemNumbers items, p n) ↔ ∀ j ∈ items, ∀ n ∈ j.numbers, p n := by
  induction items with
  | nil => simp [itemNumbers]
  | cons j rest ih => rw [itemNumbers, List.forall_mem_append, ih, List.forall_mem_cons]

theorem forall_mem_memberNumbers {p : Number → Prop} {members : List (String × Json)} :
    (∀ n ∈ memberNumbers members, p n) ↔ ∀ m ∈ members, ∀ n ∈ m.2.numbers, p n := by
  induction members with
  | nil => simp [memberNumbers]
  | cons m rest ih => rw [memberNumbers, List.forall_mem_append, ih, List.forall_mem_cons]

end Json

theorem Origin.room_iff {o : Origin} {d k : Nat} :
    (¬(o = .text ∧ d = 0) ∧ (o = .text → k ≤ d - 1)) ↔ (o = .text → k + 1 ≤ d) := by
  constructor
  · rintro ⟨room, h⟩ ho
    have hd : d ≠ 0 := fun hzero => room ⟨ho, hzero⟩
    have hk := h ho
    omega
  · intro h
    refine ⟨?_, fun ho => Nat.le_sub_one_of_lt (h ho)⟩
    rintro ⟨ho, rfl⟩
    exact Nat.not_succ_le_zero k (h ho)

namespace Json

section Read

variable {numeral : Number → Numeral} {o : Origin}

mutual

theorem readTree_tree : ∀ (j : Json) {d : Nat}, (o = .text → j.depth ≤ d) →
    (∀ n ∈ j.numbers, (numeral n).number? = some n) →
    (j.tree numeral).readTree o d = .ok j
  | null, _, _, _ => rfl
  | bool _, _, _, _ => rfl
  | string _, _, _, _ => rfl
  | number n, _, _, h => by
    rw [tree, Node.readTree, h n (by simp [numbers])]
  | array items, d, hd, h => by
    obtain ⟨room, hdepth⟩ := Origin.room_iff.2 hd
    have hitems := readTreeItems_tree items hdepth h
    rw [tree, Node.readTree, if_neg room, hitems]
    rfl
  | object members, d, hd, h => by
    obtain ⟨room, hdepth⟩ := Origin.room_iff.2 hd
    have hmembers := readTreeMembers_tree members hdepth h
    rw [tree, Node.readTree, if_neg room, hmembers]
    rfl

theorem readTreeItems_tree : ∀ (items : List Json) {d : Nat},
    (o = .text → itemDepth items ≤ d) →
    (∀ n ∈ itemNumbers items, (numeral n).number? = some n) →
    Node.readTreeItems o d true (itemTrees numeral items) = .ok items
  | [], _, _, _ => rfl
  | j :: rest, d, hd, h => by
    rw [itemNumbers] at h
    have hj := readTree_tree j (fun ho => (le_max_left _ _).trans (hd ho)) fun n hn =>
      h n (List.mem_append_left _ hn)
    have hrest := readTreeItems_tree rest (fun ho => (le_max_right _ _).trans (hd ho)) fun n hn =>
      h n (List.mem_append_right _ hn)
    rw [itemTrees, Node.readTreeItems, hj, hrest]
    rfl

theorem readTreeMembers_tree : ∀ (members : List (String × Json)) {d : Nat},
    (o = .text → memberDepth members ≤ d) →
    (∀ n ∈ memberNumbers members, (numeral n).number? = some n) →
    Node.readTreeMembers o d true (memberTrees numeral members) = .ok members
  | [], _, _, _ => rfl
  | (name, j) :: rest, d, hd, h => by
    rw [memberNumbers] at h
    have hj := readTree_tree j (fun ho => (le_max_left _ _).trans (hd ho)) fun n hn =>
      h n (List.mem_append_left _ hn)
    have hrest := readTreeMembers_tree rest (fun ho => (le_max_right _ _).trans (hd ho))
      fun n hn => h n (List.mem_append_right _ hn)
    rw [memberTrees, Node.readTreeMembers, Node.nameOf, hj, hrest]
    rfl

end

end Read

mutual

theorem arrange_of_arranged : ∀ j : Json, j.Arranged → j.arrange = j
  | null, _ => rfl
  | bool _, _ => rfl
  | string _, _ => rfl
  | number n, h => by rw [arrange, Number.fit_of_fits h]
  | array items, h => by rw [arrange, arrangeAll_of_arranged items h]
  | object members, h => by
    rw [arrange, arrangeMembers_of_arranged members [] h.1 h.2, List.nil_append]

theorem arrangeAll_of_arranged : ∀ items : List Json, AllArranged items →
    arrangeAll items = items
  | [], _ => rfl
  | j :: rest, h => by
    rw [arrangeAll, arrange_of_arranged j h.1, arrangeAll_of_arranged rest h.2]

theorem arrangeMembers_of_arranged : ∀ members done : List (String × Json),
    NamesIncrease (done ++ members) → MembersArranged members →
      arrangeMembers done members = done ++ members
  | [], done, _, _ => by rw [arrangeMembers, List.append_nil]
  | (name, j) :: rest, done, hinc, h => by
    -- Each name is past all that are placed, so that a member is placed at the end.
    have hlast : ∀ e ∈ done, e.1 < name := fun e he =>
      (List.pairwise_append.1 hinc).2.2 e he _ List.mem_cons_self
    have hplace : Table.place name j.arrange done = done ++ [(name, j)] := by
      rw [arrange_of_arranged j h.1, Table.place_last hlast]
    rw [List.append_cons] at hinc
    rw [arrangeMembers, hplace, arrangeMembers_of_arranged rest _ hinc h.2, List.append_assoc,
      List.singleton_append]

end

mutual

theorem fits_of_arranged : ∀ j : Json, j.Arranged → ∀ n ∈ j.numbers, n.Fits
  | null, _ => by simp [numbers]
  | bool _, _ => by simp [numbers]
  | string _, _ => by simp [numbers]
  | number m, h => fun n hn => List.mem_singleton.1 hn ▸ h
  | array items, h => items_fit_of_arranged items h
  | object members, h => members_fit_of_arranged members h.2

theorem items_fit_of_arranged : ∀ items : List Json, AllArranged items →
    ∀ n ∈ itemNumbers items, n.Fits
  | [], _ => by simp [itemNumbers]
  | j :: rest, h => fun n hn => by
    rcases List.mem_append.1 hn with hn | hn
    · exact fits_of_arranged j h.1 n hn
    · exact items_fit_of_arranged rest h.2 n hn

theorem members_fit_of_arranged : ∀ members : List (String × Json), MembersArranged members →
    ∀ n ∈ memberNumbers members, n.Fits
  | [], _ => by simp [memberNumbers]
  | (_, j) :: rest, h => fun n hn => by
    rcases List.mem_append.1 hn with hn | hn
    · exact fits_of_arranged j h.1 n hn
    · exact members_fit_of_arranged rest h.2 n hn

end

theorem memberTrees_map {α : Type} (numeral : Number → Numeral) (f : α → Json)
    (entries : List (String × α)) :
    memberTrees numeral (entries.map fun e => (e.1, f e.2)) =
      entries.map fun e => (some e.1, (f e.2).tree numeral) := by
  induction entries with
  | nil => rfl
  | cons e rest ih => rw [List.map_cons, memberTrees, ih, List.map_cons]

theorem itemTrees_map {α : Type} (numeral : Number → Numeral) (f : α → Json) (items : List α) :
    itemTrees numeral (items.map f) = items.map fun a => (f a).tree numeral := by
  induction items with
  | nil => rfl
  | cons a rest ih => rw [List.map_cons, itemTrees, ih, List.map_cons]

end Json

theorem readValue_tree {numeral : Number → Numeral} (v : Value) {o : Origin} {d : Nat}
    (hd : o = .text → v.json.depth ≤ d)
    (h : ∀ n ∈ v.json.numbers, (numeral n).number? = some n) :
    (v.json.tree numeral).readValue o d = .ok v := by
  rw [Node.readValue, v.json.readTree_tree hd h]
  change Except.ok (Value.ofJson v.json) = Except.ok v
  obtain ⟨j, hj⟩ := v
  simp only [Value.ofJson, j.arrange_of_arranged hj]

namespace Node

variable {α β : Type} {numeral : Number → Numeral}

theorem readFloat_tree {x : Float} (finite : x.isFinite = true)
    (h : (numeral (.binary x finite)).number? = some (.binary x finite)) :
    ((Json.ofFloat x).tree numeral).readFloat = .ok x := by
  rw [Json.ofFloat, dif_pos finite, Json.tree, readFloat, h]
  rfl

theorem readNatural_tree {expected : String} {bound n : Nat} (hn : n < bound)
    (h : (numeral (.natural n)).number? = some (.natural n)) :
    ((Json.ofNat n).tree numeral).readNatural expected bound = .ok n := by
  rw [Json.ofNat, Json.tree, readNatural, h]
  exact if_pos hn

theorem readInt32_tree (i : Int32)
    (h : ∀ n, n.Fits → n.floats = [] → (numeral n).number? = some n) :
    ((Json.ofInt i.toInt).tree numeral).readInt32 = .ok i := by
  have hlt := i.toInt_lt
  have hge := i.le_toInt
  have hback := Int32.ofInt_toInt i
  have hpow : Nat.pow 2 31 = 2 ^ 31 := rfl
  cases hi : i.toInt with
  | ofNat k =>
    rw [hi] at hlt hback
    have hk : k < 2 ^ 31 := Int.ofNat_lt.1 hlt
    rw [Json.ofInt, Json.tree, readInt32, h (.natural k) (hk.trans (by decide)) rfl]
    dsimp only
    rw [hpow, if_pos hk]
    exact congrArg Except.ok hback
  | negSucc k =>
    rw [hi] at hge hback
    have hk : k < 2 ^ 31 := by omega
    rw [Json.ofInt, Json.tree, readInt32, h (.negative k) (hk.trans (by decide)) rfl]
    dsimp only
    rw [hpow, if_pos hk]
    exact congrArg Except.ok hback

/-- In a text any number of digits is read in full. -/
theorem readUInt128_written (d : Fin (Nat.pow 2 128)) :
    readUInt128 .text ((Json.ofNat d.val).tree Number.written) = .ok d := by
  have hdigits := Decimal.isDigit_repr d.val
  have hvalue := Decimal.digitsValue_repr d.val
  have hlt : Decimal.digitsValue d.val.repr.toList < Nat.pow 2 128 := hvalue.trans_lt d.isLt
  rw [Json.ofNat, Json.tree, Number.written, Number.text, readUInt128, dif_pos ⟨hdigits, hlt⟩]
  simp only [hvalue]

theorem readUInt128_known {o : Origin} {d : Fin (Nat.pow 2 128)} :
    readUInt128 o ((Json.ofNat d.val).tree .known) = .ok d := by
  rw [Json.ofNat, Json.tree, readUInt128, dif_pos d.isLt]

theorem readOption_some {read : Node → ReadResult α} {n : Node} {a : α} (hn : n ≠ .null)
    (h : read n = .ok a) : readOption read n = .ok (some a) := by
  cases n with
  | null => exact absurd rfl hn
  | _ =>
    change (read _).map some = _
    rw [h]
    rfl

theorem readItems_of_forall₂ {read : Node → ReadResult α} {items : List Node} {values : List α}
    (h : List.Forall₂ (fun n a => read n = .ok a) items values) :
    readItems read true items = .ok values := by
  induction h with
  | nil => rfl
  | cons hn _ ih =>
    rw [readItems, hn, ih]
    rfl

theorem readList_tree {read : Node → ReadResult α} {f : α → Json} {items : List α}
    (h : ∀ a ∈ items, read ((f a).tree numeral) = .ok a) :
    ((Json.array (items.map f)).tree numeral).readList read = .ok items := by
  rw [Json.tree, Json.itemTrees_map, readList]
  refine readItems_of_forall₂ ?_
  rw [List.forall₂_map_left_iff, List.forall₂_same]
  exact h

theorem readEntries_of_forall₂ {read : Node → ReadResult β}
    {members : List (Option String × Node)} {entries : List (String × β)}
    (h : List.Forall₂ (fun m e => m.1 = some e.1 ∧ read m.2 = .ok e.2) members entries) :
    ∀ t : Table β, NamesIncrease (t.entries ++ entries) →
      ∃ t', readEntries read true t members = .ok t' ∧ t'.entries = t.entries ++ entries := by
  induction h with
  | nil => exact fun t _ => ⟨t, rfl, (List.append_nil _).symm⟩
  | @cons m e members entries hm _ ih =>
    intro t hinc
    obtain ⟨name, n⟩ := m
    obtain ⟨rfl, hread⟩ := hm
    have hlast : ∀ e' ∈ t.entries, e'.1 < e.1 := fun e' he' =>
      (List.pairwise_append.1 hinc).2.2 e' he' _ List.mem_cons_self
    have hinsert : (t.insert e.1 e.2).entries = t.entries ++ [e] := Table.place_last hlast
    obtain ⟨t', hread', hentries⟩ := ih (t.insert e.1 e.2) (by rwa [hinsert, ← List.append_cons])
    refine ⟨t', ?_, by rw [hentries, hinsert, ← List.append_cons]⟩
    rw [readEntries, nameOf, hread]
    exact hread'

theorem exists_forall₂ {γ δ : Type} {related : γ → δ → Prop} {xs : List γ}
    (h : ∀ x ∈ xs, ∃ y, related x y) : ∃ ys, List.Forall₂ related xs ys := by
  induction xs with
  | nil => exact ⟨[], .nil⟩
  | cons x rest ih =>
    obtain ⟨y, hy⟩ := h x List.mem_cons_self
    obtain ⟨ys, hys⟩ := ih fun x' hx' => h x' (List.mem_cons_of_mem _ hx')
    exact ⟨y :: ys, .cons hy hys⟩

theorem exists_of_forall₂ {γ δ : Type} {related : γ → δ → Prop} {xs : List γ} {ys : List δ}
    (h : List.Forall₂ related xs ys) {x : γ} (hx : x ∈ xs) : ∃ y ∈ ys, related x y := by
  induction h with
  | nil => cases hx
  | @cons x' y xs ys hxy _ ih =>
    rcases List.mem_cons.1 hx with rfl | hx
    · exact ⟨y, List.mem_cons_self, hxy⟩
    · obtain ⟨y', hy', hrelated⟩ := ih hx
      exact ⟨y', List.mem_cons_of_mem _ hy', hrelated⟩

theorem readTable_related {read : Node → ReadResult β} {f : α → Json} {related : α → β → Prop}
    {t : Table α}
    (h : ∀ e ∈ t.entries, ∃ b, read ((f e.2).tree numeral) = .ok b ∧ related e.2 b) :
    ∃ t' : Table β,
      ((Json.object (t.entries.map fun e => (e.1, f e.2))).tree numeral).readTable read = .ok t' ∧
      t'.names = t.names ∧
      ∀ name a, t.get? name = some a → ∃ b, t'.get? name = some b ∧ related a b := by
  have hvalue : ∀ e ∈ t.entries, ∃ v : String × β,
      e.1 = v.1 ∧ read ((f e.2).tree numeral) = .ok v.2 ∧ related e.2 v.2 := by
    intro e he
    obtain ⟨b, hread, hrelated⟩ := h e he
    exact ⟨(e.1, b), rfl, hread, hrelated⟩
  obtain ⟨values, hvalues⟩ := exists_forall₂ hvalue
  have hnames : t.entries.map (·.1) = values.map (·.1) := by
    rw [← List.forall₂_eq_eq_eq, List.forall₂_map_left_iff, List.forall₂_map_right_iff]
    exact hvalues.imp fun _ _ hv => hv.1
  have hincreasing : NamesIncrease values := by
    have hinc := t.increasing
    rw [NamesIncrease, ← List.pairwise_map, hnames, List.pairwise_map] at hinc
    exact hinc
  have hmembers : List.Forall₂ (fun m e => m.1 = some e.1 ∧ read m.2 = .ok e.2)
      (t.entries.map fun e => (some e.1, (f e.2).tree numeral)) values := by
    rw [List.forall₂_map_left_iff]
    exact hvalues.imp fun _ _ hv => ⟨congrArg some hv.1, hv.2.1⟩
  obtain ⟨t', hread, hentries⟩ := readEntries_of_forall₂ hmembers .empty hincreasing
  have hentries' : t'.entries = values := hentries
  refine ⟨t', ?_, ?_, fun name a ha => ?_⟩
  · rw [Json.tree, Json.memberTrees_map]
    exact hread
  · rw [Table.names, hentries', ← hnames, Table.names]
  · obtain ⟨⟨name', b⟩, hb, rfl, -, hrelated⟩ :=
      exists_of_forall₂ hvalues (Table.mem_entries_iff.2 ha)
    exact ⟨b, Table.mem_entries_iff.1 (hentries' ▸ hb), hrelated⟩

theorem readTable_tree {read : Node → ReadResult α} {f : α → Json} {t : Table α}
    (h : ∀ e ∈ t.entries, read ((f e.2).tree numeral) = .ok e.2) :
    ((Json.object (t.entries.map fun e => (e.1, f e.2))).tree numeral).readTable read = .ok t := by
  have hrelated : ∀ e ∈ t.entries, ∃ b, read ((f e.2).tree numeral) = .ok b ∧ e.2 = b :=
    fun e he => ⟨e.2, h e he, rfl⟩
  obtain ⟨t', hread, hnames, hget⟩ := readTable_related hrelated
  rw [hread]
  refine congrArg Except.ok (Table.ext_get? fun name => ?_)
  cases ha : t.get? name with
  | some a =>
    obtain ⟨b, hb, rfl⟩ := hget name a ha
    exact hb
  | none =>
    have habsent : name ∉ t'.names := by
      rw [hnames, Table.mem_names_iff, Table.contains, ha]
      exact Bool.false_ne_true
    rw [Table.mem_names_iff, Table.contains, Bool.not_eq_true, Option.isSome_eq_false_iff,
      Option.isNone_iff_eq_none] at habsent
    exact habsent

end Node

section Results

variable {α β : Type} {x : ReadResult α}

theorem bind_ok {a : α} (h : x = .ok a) (f : α → ReadResult β) : (x >>= f) = f a := by
  rw [h]
  rfl

theorem bind_error {fault : ReadFault} (h : x = .error fault) (f : α → ReadResult β) :
    (x >>= f) = .error fault := by
  rw [h]
  rfl

theorem bind_eq_ok {f : α → ReadResult β} {b : β} :
    x >>= f = .ok b ↔ ∃ a, x = .ok a ∧ f a = .ok b := by
  cases x with
  | error fault => exact ⟨nofun, fun ⟨_, h, _⟩ => nomatch h⟩
  | ok a => exact ⟨fun h => ⟨a, rfl, h⟩, fun ⟨_, rfl, h⟩ => h⟩

theorem map_eq_ok {f : α → β} {b : β} : x.map f = .ok b ↔ ∃ a, x = .ok a ∧ f a = b := by
  cases x with
  | error fault => exact ⟨nofun, fun ⟨_, h, _⟩ => nomatch h⟩
  | ok a => exact ⟨fun h => ⟨a, rfl, Except.ok.inj h⟩, fun ⟨_, rfl, h⟩ => congrArg Except.ok h⟩

end Results

namespace Record

variable {σ : Type} {r : Record σ} {ended : Bool} {seen : List String} {s s' : σ} {name : String}
  {n : Node} {rest : List (Option String × Node)}

theorem readMembers_field {f : Field σ} (hfield : r.field? name = some f)
    (hseen : seen.contains name = false) (hread : f.read s n = .ok s') :
    r.readMembers ended seen s ((some name, n) :: rest) =
      r.readMembers ended (name :: seen) s' rest := by
  simp only [readMembers, Node.nameOf, bind, Except.bind, hfield, hseen, hread,
    Bool.false_eq_true, if_false]

theorem readMembers_fault {f : Field σ} {fault : ReadFault} (hfield : r.field? name = some f)
    (hseen : seen.contains name = false) (hread : f.read s n = .error fault) :
    r.readMembers ended seen s ((some name, n) :: rest) = .error fault := by
  simp only [readMembers, Node.nameOf, bind, Except.bind, hfield, hseen, hread,
    Bool.false_eq_true, if_false]

theorem readMembers_surplus (hfield : r.field? name = none) (hwhole : n.whole = true) :
    r.readMembers ended seen s ((some name, n) :: rest) = r.readMembers ended seen s rest := by
  simp only [readMembers, Node.nameOf, bind, Except.bind, hfield, Node.pass, hwhole, if_true]

theorem readMembers_done (hmissing : r.missing? seen = none) :
    r.readMembers true seen s [] = .ok s := by
  simp only [readMembers, Node.finish, bind, Except.bind, if_true, hmissing]

theorem readMembers_missing (hmissing : r.missing? seen = some name) :
    r.readMembers true seen s [] = .error (.missingField name) := by
  simp only [readMembers, Node.finish, bind, Except.bind, if_true, hmissing]

end Record

end BoundedWorker
