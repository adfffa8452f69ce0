import BoundedWorker.Proofs.FloatTexts
import BoundedWorker.Json.Typed

/-!
The text of a JSON value is read as the tree that the value names. A value that stands anywhere in a
text is read on its own: the reader completes it in the containers that were open before it, at the
end of the text or at any character that may follow a value.
-/

namespace BoundedWorker

def Number.written (n : Number) : Numeral := .written n.text

namespace Json

mutual

def tree (numeral : Number → Numeral) : Json → Node
  | null => .null
  | bool b => .bool b
  | number n => .number (numeral n)
  | string s => .string (some s)
  | array items => .array (itemTrees numeral items) true
  | object members => .object (memberTrees numeral members) true

def itemTrees (numeral : Number → Numeral) : List Json → List Node
  | [] => []
  | j :: rest => j.tree numeral :: itemTrees numeral rest

def memberTrees (numeral : Number → Numeral) :
    List (String × Json) → List (Option String × Node)
  | [] => []
  | (name, j) :: rest => (some name, j.tree numeral) :: memberTrees numeral rest

end

mutual

theorem ofJson_eq_tree : ∀ j : Json, Node.ofJson j = j.tree .known
  | null => rfl
  | bool _ => rfl
  | number _ => rfl
  | string _ => rfl
  | array items => by rw [Node.ofJson, tree, ofItems_eq_itemTrees items]
  | object members => by rw [Node.ofJson, tree, ofMembers_eq_memberTrees members]

theorem ofItems_eq_itemTrees : ∀ items : List Json, Node.ofItems items = itemTrees .known items
  | [] => rfl
  | j :: rest => by rw [Node.ofItems, itemTrees, ofJson_eq_tree j, ofItems_eq_itemTrees rest]

theorem ofMembers_eq_memberTrees : ∀ members : List (String × Json),
    Node.ofMembers members = memberTrees .known members
  | [] => rfl
  | (name, j) :: rest => by
    rw [Node.ofMembers, memberTrees, ofJson_eq_tree j, ofMembers_eq_memberTrees rest]

end

end Json

namespace Reader

def Delimits (c : Char) : Prop := c = ',' ∨ c = ']' ∨ c = '\x7d'

/-- The value `n` is read, but for a character that shows where it ends. -/
structure Holds (r : Reader) (frames : List Frame) (n : Node) : Prop where
  stop : r.stop = complete frames n
  feed : ∀ c, Delimits c → r.feed c = (complete frames n).feed c

theorem run_cons (r : Reader) (c : Char) (cs : List Char) : r.run (c :: cs) = (r.feed c).run cs :=
  rfl

theorem run_append (r : Reader) (cs ds : List Char) : r.run (cs ++ ds) = (r.run cs).run ds :=
  List.foldl_append

theorem complete_stop (frames : List Frame) (n : Node) :
    (complete frames n).stop = complete frames n := by
  cases frames with
  | nil => rfl
  | cons f outer =>
    cases f with
    | array done => rfl
    | object done name =>
      cases name with
      | some name => rfl
      | none => cases n <;> rfl

theorem complete_feed (frames : List Frame) (n : Node) (c : Char) :
    (complete frames n).feed c = (complete frames n).follow c := by
  cases frames with
  | nil => rfl
  | cons f outer =>
    cases f with
    | array done => rfl
    | object done name =>
      cases name with
      | some name => rfl
      | none => cases n <;> rfl

theorem complete_holds (frames : List Frame) (n : Node) :
    (complete frames n).Holds frames n :=
  ⟨complete_stop frames n, fun _ _ => rfl⟩

theorem run_reach {p q : NumeralPlace} {cs : List Char} (frames : List Frame) (done : List Char)
    (h : p.reach cs = some q) :
    run ⟨frames, .numeral p done⟩ cs = ⟨frames, .numeral q (cs.reverse ++ done)⟩ := by
  induction cs generalizing p done with
  | nil =>
    obtain rfl : p = q := by simpa [NumeralPlace.reach] using h
    rfl
  | cons c cs ih =>
    cases hnext : p.next c with
    | none => simp [NumeralPlace.reach, hnext] at h
    | some p' =>
      rw [NumeralPlace.reach_cons hnext] at h
      have hfeed : feed ⟨frames, .numeral p done⟩ c = ⟨frames, .numeral p' (c :: done)⟩ := by
        simp only [feed, hnext]
      rw [run_cons, hfeed, ih _ h, List.reverse_cons, List.append_assoc, List.singleton_append]

theorem isSpace_of_isDigit {c : Char} (h : c.isDigit = true) : isSpace c = false := by
  simp only [isSpace, Bool.or_eq_false_iff, decide_eq_false_iff_not]
  refine ⟨⟨⟨?_, ?_⟩, ?_⟩, ?_⟩ <;> rintro rfl <;> exact absurd h (by decide)

section Begin

variable {frames : List Frame} (hframes : wantsName frames = false) (first : Bool)

include hframes

theorem begin_minus : begin frames first '-' = ⟨frames, .numeral .minus ['-']⟩ := by
  simp [begin, hframes, isSpace]

theorem begin_digit {c : Char} {p : NumeralPlace} (hc : c.isDigit = true)
    (h : NumeralPlace.minus.next c = some p) :
    begin frames first c = ⟨frames, .numeral p [c]⟩ := by
  have hne : ∀ d : Char, d.isDigit = false → c ≠ d := by
    rintro d hd rfl
    rw [hc] at hd
    exact Bool.noConfusion hd
  have hplace : p = if c = '0' then .zero else .whole := by
    simp only [NumeralPlace.next, hc, if_true] at h
    split at h <;> simp_all
  have hquote := hne '"' rfl
  have hbracket := hne '[' rfl
  have hbrace := hne '\x7b' rfl
  have hn := hne 'n' rfl
  have ht := hne 't' rfl
  have hf := hne 'f' rfl
  have hminus := hne '-' rfl
  simp only [begin, isSpace_of_isDigit hc, hquote, hframes, hbracket, hbrace, hn, ht, hf, hminus,
    hc, hplace, if_false, if_true, Bool.false_eq_true]
  split <;> rfl

theorem run_form (f : Numeral.Form) : ∃ q : NumeralPlace, q.final = true ∧
    run ⟨frames, .value first⟩ f.chars = ⟨frames, .numeral q f.chars.reverse⟩ := by
  obtain ⟨q, hq, hreach⟩ := NumeralPlace.reach_magnitude f
  refine ⟨q, hq, ?_⟩
  cases hneg : f.negative with
  | true =>
    have hfeed : feed ⟨frames, .value first⟩ '-' = ⟨frames, .numeral .minus ['-']⟩ :=
      begin_minus hframes first
    rw [Numeral.Form.chars, if_pos hneg, run_cons, hfeed, run_reach frames ['-'] hreach,
      List.reverse_cons]
  | false =>
    obtain ⟨c, cs, heq, hc⟩ := f.first_isDigit
    rw [Numeral.Form.chars, hneg, if_neg Bool.false_ne_true]
    rw [Numeral.Form.magnitude, heq, List.cons_append] at hreach ⊢
    cases hnext : NumeralPlace.minus.next c with
    | none => simp [NumeralPlace.reach, hnext] at hreach
    | some p =>
      rw [NumeralPlace.reach_cons hnext] at hreach
      have hfeed : feed ⟨frames, .value first⟩ c = ⟨frames, .numeral p [c]⟩ :=
        begin_digit hframes first hc hnext
      rw [run_cons, hfeed, run_reach frames [c] hreach, List.reverse_cons]

theorem numeral_holds (n : Number) :
    (run ⟨frames, .value first⟩ n.text).Holds frames (.number (.written n.text)) := by
  obtain ⟨f, hf⟩ := n.exists_form
  obtain ⟨q, hq, hrun⟩ := run_form hframes first f
  rw [hf, hrun]
  refine ⟨?_, ?_⟩
  · simp only [stop, hq, if_true, List.reverse_reverse]
  · intro c hc
    have hend : q.next c = none ∧ c.isDigit = false := by
      rcases hc with rfl | rfl | rfl <;> cases q <;> exact ⟨rfl, rfl⟩
    rw [complete_feed]
    simp [feed, hend.1, hend.2, hq]

end Begin

theorem hexValue?_hexDigit : ∀ n < 16, hexValue? (hexDigit n) = some n := by decide

theorem feed_text {t t' : TextState} {c : Char} (frames : List Frame)
    (hopen : t.place ≠ .plain ∨ c ≠ '"') (h : t.next c = some t') :
    feed ⟨frames, .text t⟩ c = ⟨frames, .text t'⟩ := by
  simp only [feed]
  split
  · rename_i hplace
    rcases hopen with hopen | hopen
    · exact absurd hplace hopen
    · exact absurd rfl hopen
  · rw [h]

theorem run_unit (frames : List Frame) (done : List Char) {n : Nat} (hn : n < 0x20) :
    run ⟨frames, .text ⟨.plain, done, none, true⟩⟩
        ['\\', 'u', '0', '0', hexDigit (n / 16), hexDigit (n % 16)] =
      ⟨frames, .text ⟨.plain, Char.ofNat n :: done, none, true⟩⟩ := by
  have hhigh := hexValue?_hexDigit (n / 16) (by omega)
  have hlow := hexValue?_hexDigit (n % 16) (by omega)
  have hhighNext : TextState.next ⟨.hex 0 2, done, none, true⟩ (hexDigit (n / 16)) =
      some ⟨.hex (n / 16) 1, done, none, true⟩ := by
    simp [TextState.next, hhigh]
  have hlowNext : TextState.next ⟨.hex (n / 16) 1, done, none, true⟩ (hexDigit (n % 16)) =
      some ⟨.plain, Char.ofNat n :: done, none, true⟩ := by
    have hvalue : 16 * (n / 16) + n % 16 = n := Nat.div_add_mod n 16
    rw [TextState.next, hlow]
    simp only [Option.map_some, hvalue, Nat.le_refl, if_true, TextState.putUnit]
    rw [if_neg (by omega), if_neg (by omega)]
    rfl
  have hstart : run ⟨frames, .text ⟨.plain, done, none, true⟩⟩ ['\\', 'u', '0', '0'] =
      ⟨frames, .text ⟨.hex 0 2, done, none, true⟩⟩ := rfl
  have hsplit : ['\\', 'u', '0', '0', hexDigit (n / 16), hexDigit (n % 16)] =
      ['\\', 'u', '0', '0'] ++ [hexDigit (n / 16), hexDigit (n % 16)] := rfl
  rw [hsplit, run_append, hstart, run_cons, feed_text frames (.inl TextPlace.noConfusion) hhighNext,
    run_cons, feed_text frames (.inl TextPlace.noConfusion) hlowNext]
  rfl

theorem run_escapedChar (frames : List Frame) (done : List Char) (c : Char) :
    run ⟨frames, .text ⟨.plain, done, none, true⟩⟩ (escapedChar c) =
      ⟨frames, .text ⟨.plain, c :: done, none, true⟩⟩ := by
  by_cases hshort : c ∈ ['"', '\\', '\x08', '\x0c', '\n', '\r', '\t']
  · simp only [List.mem_cons, List.not_mem_nil, or_false] at hshort
    rcases hshort with rfl | rfl | rfl | rfl | rfl | rfl | rfl <;> rfl
  · simp only [List.mem_cons, List.not_mem_nil, or_false, not_or] at hshort
    have hchars : escapedChar c = if c.toNat < 0x20 then
        ['\\', 'u', '0', '0', hexDigit (c.toNat / 16), hexDigit (c.toNat % 16)] else [c] := by
      unfold escapedChar
      split <;> simp_all
    rw [hchars]
    split
    · rename_i hlow
      rw [run_unit frames done hlow, Char.ofNat_toNat]
    · rename_i hraw
      have hnext : TextState.next ⟨.plain, done, none, true⟩ c =
          some ⟨.plain, c :: done, none, true⟩ := by
        simp [TextState.next, TextState.put, hshort.2.1, hraw]
      rw [run_cons, feed_text frames (.inr hshort.1) hnext]
      rfl

theorem run_escapedChars (frames : List Frame) (cs done : List Char) :
    run ⟨frames, .text ⟨.plain, done, none, true⟩⟩ (cs.flatMap escapedChar) =
      ⟨frames, .text ⟨.plain, cs.reverse ++ done, none, true⟩⟩ := by
  induction cs generalizing done with
  | nil => rfl
  | cons c cs ih =>
    rw [List.flatMap_cons, run_append, run_escapedChar, ih, List.reverse_cons, List.append_assoc,
      List.singleton_append]

/-- Any text is recovered from its escaped form, as a value and as a name. -/
theorem run_escapedText (frames : List Frame) (first : Bool) (s : String) :
    run ⟨frames, .value first⟩ (escapedText s) = complete frames (.string (some s)) := by
  have hfeed : feed ⟨frames, .value first⟩ '"' = ⟨frames, .text .start⟩ := by
    simp [feed, begin, isSpace]
  have hresult : TextState.result ⟨.plain, s.toList.reverse ++ [], none, true⟩ = some s := by
    simp [TextState.result]
  have hend : feed ⟨frames, .text ⟨.plain, s.toList.reverse ++ [], none, true⟩⟩ '"' =
      complete frames (.string (some s)) := by
    simp only [feed, hresult]
  rw [escapedText, List.cons_append, run_cons, hfeed, run_append, TextState.start,
    run_escapedChars, run_cons, hend]
  rfl

section Values

variable {frames : List Frame} (hframes : wantsName frames = false) (first : Bool)

include hframes

theorem run_null : run ⟨frames, .value first⟩ Json.null.chars = complete frames .null := by
  simp [Json.chars, run, feed, begin, isSpace, hframes]

theorem run_bool (b : Bool) :
    run ⟨frames, .value first⟩ (Json.bool b).chars = complete frames (.bool b) := by
  cases b <;> simp [Json.chars, run, feed, begin, isSpace, hframes]

theorem begin_array :
    begin frames first '[' = ⟨.array [] :: frames, .value true⟩ := by
  simp [begin, isSpace, hframes]

theorem begin_object :
    begin frames first '\x7b' = ⟨.object [] none :: frames, .value true⟩ := by
  simp [begin, isSpace, hframes]

end Values

section Containers

variable (outer : List Frame)

theorem feed_array_comma (done : List Node) (n : Node) :
    (complete (.array done :: outer) n).feed ',' =
      ⟨.array (n :: done) :: outer, .value false⟩ := by
  simp [complete, feed, follow, isSpace]

theorem feed_array_end (done : List Node) (n : Node) :
    (complete (.array done :: outer) n).feed ']' =
      complete outer (.array (done.reverse ++ [n]) true) := by
  simp [complete, feed, follow, isSpace, close]

theorem feed_object_comma (done : List (Option String × Node)) (name : Option String) (n : Node) :
    (complete (.object done (some name) :: outer) n).feed ',' =
      ⟨.object ((name, n) :: done) none :: outer, .value false⟩ := by
  simp [complete, feed, follow, isSpace]

theorem feed_object_end (done : List (Option String × Node)) (name : Option String) (n : Node) :
    (complete (.object done (some name) :: outer) n).feed '\x7d' =
      complete outer (.object (done.reverse ++ [(name, n)]) true) := by
  simp [complete, feed, follow, isSpace, close]

theorem run_name (done : List (Option String × Node)) (first : Bool) (name : String)
    (cs : List Char) :
    run ⟨.object done none :: outer, .value first⟩ (escapedText name ++ ':' :: cs) =
      run ⟨.object done (some (some name)) :: outer, .value false⟩ cs := by
  have hcolon : feed (complete (.object done none :: outer) (.string (some name))) ':' =
      ⟨.object done (some (some name)) :: outer, .value false⟩ := by
    simp [complete, feed, follow, isSpace]
  rw [run_append, run_escapedText, run_cons, hcolon]

end Containers

mutual

theorem chars_holds (frames : List Frame) (hframes : wantsName frames = false) (first : Bool) :
    ∀ j : Json, (run ⟨frames, .value first⟩ j.chars).Holds frames (j.tree Number.written)
  | .null => by
    rw [run_null hframes]
    exact complete_holds frames _
  | .bool b => by
    rw [run_bool hframes]
    exact complete_holds frames _
  | .number n => numeral_holds hframes first n
  | .string s => by
    rw [Json.chars, run_escapedText]
    exact complete_holds frames _
  | .array [] => by
    have hopen : feed ⟨frames, .value first⟩ '[' = ⟨.array [] :: frames, .value true⟩ :=
      begin_array hframes first
    have hclose : feed ⟨.array [] :: frames, .value true⟩ ']' =
        complete frames (.array [] true) := by
      simp [feed, begin, isSpace, wantsName, close]
    rw [Json.chars, run_cons, hopen, run_cons, hclose]
    exact complete_holds frames _
  | .array (j :: rest) => by
    have hopen : feed ⟨frames, .value first⟩ '[' = ⟨.array [] :: frames, .value true⟩ :=
      begin_array hframes first
    have hitem := chars_holds (.array [] :: frames) rfl true j
    rw [Json.chars, List.cons_append, run_cons, hopen, run_append,
      items_run frames [] (j.tree Number.written) rest _ hitem]
    exact complete_holds frames _
  | .object [] => by
    have hopen : feed ⟨frames, .value first⟩ '\x7b' = ⟨.object [] none :: frames, .value true⟩ :=
      begin_object hframes first
    have hclose : feed ⟨.object [] none :: frames, .value true⟩ '\x7d' =
        complete frames (.object [] true) := by
      simp [feed, begin, isSpace, wantsName, close]
    rw [Json.chars, run_cons, hopen, run_cons, hclose]
    exact complete_holds frames _
  | .object ((name, j) :: rest) => by
    have hopen : feed ⟨frames, .value first⟩ '\x7b' = ⟨.object [] none :: frames, .value true⟩ :=
      begin_object hframes first
    have hmember := chars_holds (.object [] (some (some name)) :: frames) rfl false j
    rw [Json.chars, List.append_assoc, List.cons_append, List.cons_append, run_cons, hopen,
      run_name, run_append,
      members_run frames [] (some name) (j.tree Number.written) rest _ hmember]
    exact complete_holds frames _

theorem items_run (outer : List Frame) (done : List Node) (n : Node) :
    ∀ (items : List Json) (r : Reader), r.Holds (.array done :: outer) n →
      r.run (Json.itemChars items) =
        complete outer (.array (done.reverse ++ n :: Json.itemTrees Number.written items) true)
  | [], r, h => by
    have hend := h.feed ']' (.inr (.inl rfl))
    rw [feed_array_end] at hend
    rw [Json.itemChars, run_cons, hend]
    rfl
  | j :: rest, r, h => by
    have hcomma := h.feed ',' (.inl rfl)
    rw [feed_array_comma] at hcomma
    have hitem := chars_holds (.array (n :: done) :: outer) rfl false j
    rw [Json.itemChars, List.cons_append, run_cons, hcomma, run_append,
      items_run outer (n :: done) (j.tree Number.written) rest _ hitem, Json.itemTrees,
      List.reverse_cons, List.append_assoc, List.singleton_append]

theorem members_run (outer : List Frame) (done : List (Option String × Node))
    (name : Option String) (n : Node) :
    ∀ (members : List (String × Json)) (r : Reader),
      r.Holds (.object done (some name) :: outer) n →
      r.run (Json.memberChars members) =
        complete outer
          (.object (done.reverse ++ (name, n) :: Json.memberTrees Number.written members) true)
  | [], r, h => by
    have hend := h.feed '\x7d' (.inr (.inr rfl))
    rw [feed_object_end] at hend
    rw [Json.memberChars, run_cons, hend]
    rfl
  | (name', j) :: rest, r, h => by
    have hcomma := h.feed ',' (.inl rfl)
    rw [feed_object_comma] at hcomma
    have hmember :=
      chars_holds (.object ((name, n) :: done) (some (some name')) :: outer) rfl false j
    rw [Json.memberChars, List.append_assoc, List.cons_append, List.cons_append, run_cons, hcomma,
      run_name, run_append,
      members_run outer ((name, n) :: done) (some name') (j.tree Number.written) rest _ hmember,
      Json.memberTrees, List.reverse_cons, List.append_assoc, List.singleton_append]

end

end Reader

theorem Document.ofText_text (j : Json) :
    Document.ofText j.text = ⟨j.tree Number.written, true⟩ := by
  have hholds := Reader.chars_holds [] rfl false j
  rw [Document.ofText, Json.text, String.toList_ofList, Reader.start, hholds.stop]
  rfl

/-- Whatever is read from the text of a value is read from its tree. -/
theorem readText_text {α : Type} (read : Node → ReadResult α) (j : Json) :
    readText read j.text = read (j.tree Number.written) := by
  rw [readText, Document.ofText_text]
  cases read (j.tree Number.written) <;> rfl

end BoundedWorker
