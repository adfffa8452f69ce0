import BoundedWorker.Proofs.Requests

/-!
What reading leaves. A numeral of a text stands for a whole number of 64 bits or for a finite float,
so everything that is read from a text holds finite floats only, and no more nested values than may
be nested.
-/

namespace BoundedWorker

namespace Numeral

def Sound (m : Numeral) : Prop := ∀ n, m.number? = some n → n.Fits

theorem binary?_fits {x : Float} {n : Number} (h : binary? x = some n) : n.Fits := by
  rw [binary?] at h
  split at h
  · cases h
    trivial
  · cases h

theorem sound_written (cs : List Char) : (written cs).Sound := by
  intro n h
  change ofChars? cs = some n at h
  unfold ofChars? at h
  extract_lets negative body digits rest at h
  have hlt : (takeWord 0 digits).1 < wordBound := takeWord_lt (by decide) digits
  generalize takeWord 0 digits = word at h hlt
  obtain ⟨m, left⟩ := word
  dsimp only at h
  split at h
  · cases h
    exact hlt
  · split at h
    · rename_i hneg
      cases h
      exact (Nat.sub_one_lt hneg.2.2.1.ne').trans_le hneg.2.2.2
    · obtain ⟨x, -, hx⟩ := Option.bind_eq_some_iff.1 h
      exact binary?_fits hx

theorem sound_known {n : Number} (h : n.Fits) : (known n).Sound := by
  intro m hm
  cases hm
  exact h

end Numeral

theorem Number.isFinite_of_fits {n : Number} (h : n.Fits) : n.toFloat.isFinite = true := by
  cases n with
  | natural n => exact isFinite_ofNat h
  | negative n => exact isFinite_neg (isFinite_ofNat (Nat.lt_of_le_of_lt h (by decide)))
  | binary x finite => exact finite

namespace Node

mutual

def Sound : Node → Prop
  | number m => m.Sound
  | array items _ => ItemsSound items
  | object members _ => MembersSound members
  | _ => True

def ItemsSound : List Node → Prop
  | [] => True
  | n :: rest => n.Sound ∧ ItemsSound rest

def MembersSound : List (Option String × Node) → Prop
  | [] => True
  | (_, n) :: rest => n.Sound ∧ MembersSound rest

end

theorem itemsSound_iff {items : List Node} : ItemsSound items ↔ ∀ n ∈ items, n.Sound := by
  induction items with
  | nil => simp [ItemsSound]
  | cons n rest ih => simp [ItemsSound, ih]

theorem membersSound_iff {members : List (Option String × Node)} :
    MembersSound members ↔ ∀ m ∈ members, m.2.Sound := by
  induction members with
  | nil => simp [MembersSound]
  | cons m rest ih => simp [MembersSound, ih]

theorem itemsSound_reverse {items : List Node} (h : ItemsSound items) :
    ItemsSound items.reverse := by
  rw [itemsSound_iff] at h ⊢
  exact fun n hn => h n (List.mem_reverse.1 hn)

theorem membersSound_reverse {members : List (Option String × Node)} (h : MembersSound members) :
    MembersSound members.reverse := by
  rw [membersSound_iff] at h ⊢
  exact fun m hm => h m (List.mem_reverse.1 hm)

end Node

namespace Reader

open Node (ItemsSound MembersSound itemsSound_reverse membersSound_reverse)

def Frame.Sound : Frame → Prop
  | .array done => ItemsSound done
  | .object done _ => MembersSound done

def Mode.Sound : Mode → Prop
  | .word _ n => n.Sound
  | .finished n => n.Sound
  | .trailing n => n.Sound
  | _ => True

structure Sound (r : Reader) : Prop where
  frames : ∀ f ∈ r.frames, Frame.Sound f
  mode : Mode.Sound r.mode

theorem complete_sound {frames : List Frame} {n : Node} (h : ∀ f ∈ frames, Frame.Sound f)
    (hn : n.Sound) : (complete frames n).Sound := by
  cases frames with
  | nil => exact ⟨h, hn⟩
  | cons f outer =>
    obtain ⟨hf, houter⟩ := List.forall_mem_cons.1 h
    cases f with
    | array done => exact ⟨List.forall_mem_cons.2 ⟨⟨hn, hf⟩, houter⟩, trivial⟩
    | object done name =>
      cases name with
      | some name => exact ⟨List.forall_mem_cons.2 ⟨⟨hn, hf⟩, houter⟩, trivial⟩
      | none =>
        cases n with
        | string s => exact ⟨List.forall_mem_cons.2 ⟨hf, houter⟩, trivial⟩
        | _ => exact ⟨h, trivial⟩

theorem close_sound {frames : List Frame} (h : ∀ f ∈ frames, Frame.Sound f) (c : Char) :
    (close frames c).Sound := by
  unfold close
  split
  · obtain ⟨hf, houter⟩ := List.forall_mem_cons.1 h
    split
    · exact complete_sound houter (itemsSound_reverse hf)
    · exact ⟨h, trivial⟩
  · obtain ⟨hf, houter⟩ := List.forall_mem_cons.1 h
    split
    · exact complete_sound houter (membersSound_reverse hf)
    · exact ⟨h, trivial⟩
  · exact ⟨h, trivial⟩

theorem ite_sound {p : Prop} [Decidable p] {r s : Reader} (hr : r.Sound) (hs : s.Sound) :
    (if p then r else s).Sound := by
  split
  · exact hr
  · exact hs

theorem begin_sound {frames : List Frame} (h : ∀ f ∈ frames, Frame.Sound f) (first : Bool)
    (c : Char) : (begin frames first c).Sound := by
  have stay : ∀ mode, Mode.Sound mode → Sound ⟨frames, mode⟩ := fun _ hmode => ⟨h, hmode⟩
  have enter : ∀ f, Frame.Sound f → Sound ⟨f :: frames, .value true⟩ := fun _ hf =>
    ⟨List.forall_mem_cons.2 ⟨hf, h⟩, trivial⟩
  have leave : (if first = true then close frames c else ⟨frames, .failed⟩).Sound :=
    ite_sound (close_sound h c) (stay _ trivial)
  unfold begin
  refine ite_sound (stay _ trivial) ?_
  refine ite_sound (stay _ trivial) ?_
  refine ite_sound leave ?_
  refine ite_sound (enter _ trivial) ?_
  refine ite_sound (enter _ trivial) ?_
  refine ite_sound (stay _ trivial) ?_
  refine ite_sound (stay _ trivial) ?_
  refine ite_sound (stay _ trivial) ?_
  refine ite_sound (stay _ trivial) ?_
  refine ite_sound (stay _ trivial) ?_
  exact ite_sound (stay _ trivial) leave

theorem follow_sound {r : Reader} (h : r.Sound) (c : Char) : (r.follow c).Sound := by
  obtain ⟨frames, mode⟩ := r
  obtain ⟨hframes, hmode⟩ := h
  cases mode with
  | after =>
    simp only [follow]
    split
    · exact ⟨hframes, trivial⟩
    · split
      · exact ⟨hframes, trivial⟩
      · exact close_sound hframes c
  | colon =>
    simp only [follow]
    split_ifs <;> exact ⟨hframes, trivial⟩
  | finished n =>
    simp only [follow]
    split_ifs <;> exact ⟨hframes, hmode⟩
  | _ => exact ⟨hframes, hmode⟩

theorem feed_sound {r : Reader} (h : r.Sound) (c : Char) : (r.feed c).Sound := by
  obtain ⟨frames, mode⟩ := r
  have hframes : ∀ f ∈ frames, Frame.Sound f := h.frames
  cases mode with
  | value first => exact begin_sound hframes first c
  | word left n =>
    have hn : n.Sound := h.mode
    cases left with
    | nil => exact ⟨hframes, trivial⟩
    | cons d more =>
      simp only [feed]
      split_ifs
      exacts [⟨hframes, trivial⟩, complete_sound hframes hn, ⟨hframes, hn⟩]
  | numeral place done =>
    simp only [feed]
    split
    · exact ⟨hframes, trivial⟩
    · split_ifs
      · exact ⟨hframes, trivial⟩
      · exact follow_sound (complete_sound hframes (n := .number _) (Numeral.sound_written _)) c
  | text t =>
    simp only [feed]
    split
    · exact complete_sound hframes trivial
    · split <;> exact ⟨hframes, trivial⟩
  | after => exact follow_sound h c
  | colon => exact follow_sound h c
  | finished n => exact follow_sound h c
  | trailing n => exact follow_sound h c
  | failed => exact follow_sound h c

theorem run_sound {r : Reader} (h : r.Sound) (cs : List Char) : (r.run cs).Sound := by
  induction cs generalizing r with
  | nil => exact h
  | cons c cs ih => exact ih (feed_sound h c)

theorem stop_sound {r : Reader} (h : r.Sound) : r.stop.Sound := by
  obtain ⟨frames, mode⟩ := r
  cases mode with
  | numeral place done =>
    simp only [stop]
    split
    · exact complete_sound h.frames (n := .number _) (Numeral.sound_written _)
    · exact ⟨h.frames, trivial⟩
  | _ => exact h

theorem collapse_sound {frames : List Frame} (h : ∀ f ∈ frames, Frame.Sound f) {hole : Option Node}
    (hhole : ∀ n ∈ hole, n.Sound) : (collapse hole frames).Sound := by
  have hgetD : ∀ {hole : Option Node}, (∀ n ∈ hole, n.Sound) → (hole.getD .broken).Sound := by
    intro hole hhole
    cases hole with
    | none => trivial
    | some n => exact hhole n rfl
  induction frames generalizing hole with
  | nil => exact hgetD hhole
  | cons f outer ih =>
    obtain ⟨hf, houter⟩ := List.forall_mem_cons.1 h
    cases f with
    | array done =>
      refine ih houter fun n hn => ?_
      obtain rfl := Option.some_inj.1 hn
      refine itemsSound_reverse ?_
      cases hole with
      | none => exact hf
      | some n => exact ⟨hhole n rfl, hf⟩
    | object done name =>
      refine ih houter fun n hn => ?_
      obtain rfl := Option.some_inj.1 hn
      refine membersSound_reverse ?_
      cases name with
      | none => exact hf
      | some k => exact ⟨hgetD hhole, hf⟩

theorem document_sound {r : Reader} (h : r.Sound) : r.document.root.Sound := by
  obtain ⟨frames, mode⟩ := r
  have hcollapse : (collapse none frames).Sound := collapse_sound h.frames (by simp)
  cases mode with
  | finished n => exact h.mode
  | trailing n => exact h.mode
  | _ => exact hcollapse

end Reader

theorem Document.root_sound (text : String) : (Document.ofText text).root.Sound := by
  have hstart : Reader.start.Sound := ⟨List.forall_mem_nil _, trivial⟩
  exact Reader.document_sound (Reader.stop_sound (Reader.run_sound hstart text.toList))

namespace Node

theorem readFloat_isFinite {n : Node} (hn : n.Sound) {x : Float} (h : n.readFloat = .ok x) :
    x.isFinite = true := by
  cases n with
  | number m =>
    rw [readFloat] at h
    split at h
    · rename_i k hk
      cases h
      exact Number.isFinite_of_fits (hn k hk)
    · cases h
  | _ => cases h

section Tables

variable {α : Type} {read : Node → ReadResult α} {P : α → Prop}
  (hread : ∀ n a, n.Sound → read n = .ok a → P a)

include hread

theorem readEntries_forall {ended : Bool} {members : List (Option String × Node)}
    (hmembers : MembersSound members) {t t' : Table α} (ht : ∀ e ∈ t.entries, P e.2)
    (h : readEntries read ended t members = .ok t') : ∀ e ∈ t'.entries, P e.2 := by
  induction members generalizing t with
  | nil =>
    obtain ⟨_, -, rfl⟩ := map_eq_ok.1 h
    exact ht
  | cons m rest ih =>
    obtain ⟨name, -, h⟩ := bind_eq_ok.1 h
    obtain ⟨a, ha, h⟩ := bind_eq_ok.1 h
    refine ih hmembers.2 (fun e he => ?_) h
    rcases Table.mem_place he with rfl | he
    · exact hread m.2 a hmembers.1 ha
    · exact ht e he

theorem readItems_forall {ended : Bool} {items : List Node} (hitems : ItemsSound items)
    {values : List α} (h : readItems read ended items = .ok values) : ∀ a ∈ values, P a := by
  induction items generalizing values with
  | nil =>
    obtain ⟨_, -, rfl⟩ := map_eq_ok.1 h
    exact List.forall_mem_nil _
  | cons n rest ih =>
    obtain ⟨a, ha, h⟩ := bind_eq_ok.1 h
    obtain ⟨more, hmore, h⟩ := bind_eq_ok.1 h
    cases h
    exact List.forall_mem_cons.2 ⟨hread n a hitems.1 ha, ih hitems.2 hmore⟩

theorem readTable_forall {n : Node} (hn : n.Sound) {t : Table α} (h : n.readTable read = .ok t) :
    ∀ e ∈ t.entries, P e.2 := by
  cases n with
  | object members ended => exact readEntries_forall hread hn (t := .empty) nofun h
  | _ => cases h

end Tables

end Node

/-- A value that was read holds whole numbers of 64 bits, and no more containers at a time than
there was room for. -/
structure Json.Readable (o : Origin) (depth : Nat) (j : Json) : Prop where
  depth_le : o = .text → j.depth ≤ depth
  fits : ∀ n ∈ j.numbers, n.Fits

namespace Node

variable {o : Origin}

mutual

theorem readTree_readable : ∀ {d : Nat} {n : Node} {j : Json}, n.Sound → n.readTree o d = .ok j →
    j.Readable o d
  | d, null, _, _, rfl => ⟨fun _ => Nat.zero_le d, by simp [Json.numbers]⟩
  | d, bool b, _, _, rfl => ⟨fun _ => Nat.zero_le d, by simp [Json.numbers]⟩
  | d, string (some s), _, _, rfl => ⟨fun _ => Nat.zero_le d, by simp [Json.numbers]⟩
  | d, number m, j, hn, h => by
    rw [readTree] at h
    split at h
    · rename_i x hx
      cases h
      refine ⟨fun _ => Nat.zero_le d, fun n hmem => ?_⟩
      rw [Json.numbers, List.mem_singleton] at hmem
      exact hmem ▸ hn x hx
    · cases h
  | d, array items ended, j, hn, h => by
    rw [readTree] at h
    split at h
    · cases h
    · rename_i room
      obtain ⟨values, hvalues, rfl⟩ := map_eq_ok.1 h
      obtain ⟨hdepth, hfits⟩ := readTreeItems_readable hn hvalues
      exact ⟨Origin.room_iff.1 ⟨room, hdepth⟩, hfits⟩
  | d, object members ended, j, hn, h => by
    rw [readTree] at h
    split at h
    · cases h
    · rename_i room
      obtain ⟨values, hvalues, rfl⟩ := map_eq_ok.1 h
      obtain ⟨hdepth, hfits⟩ := readTreeMembers_readable hn hvalues
      exact ⟨Origin.room_iff.1 ⟨room, hdepth⟩, hfits⟩

theorem readTreeItems_readable : ∀ {d : Nat} {ended : Bool} {items : List Node}
    {values : List Json}, ItemsSound items → readTreeItems o d ended items = .ok values →
    (o = .text → Json.itemDepth values ≤ d) ∧ ∀ n ∈ Json.itemNumbers values, n.Fits
  | d, ended, [], values, _, h => by
    rw [readTreeItems] at h
    obtain ⟨_, -, rfl⟩ := map_eq_ok.1 h
    exact ⟨fun _ => Nat.zero_le d, by simp [Json.itemNumbers]⟩
  | d, ended, n :: rest, values, hn, h => by
    rw [readTreeItems] at h
    obtain ⟨j, hj, h⟩ := bind_eq_ok.1 h
    obtain ⟨more, hmore, h⟩ := bind_eq_ok.1 h
    cases h
    obtain ⟨hdepth, hfits⟩ := readTree_readable hn.1 hj
    obtain ⟨hdepth', hfits'⟩ := readTreeItems_readable hn.2 hmore
    exact ⟨fun ho => max_le (hdepth ho) (hdepth' ho),
      fun m hm => (List.mem_append.1 hm).elim (hfits m) (hfits' m)⟩

theorem readTreeMembers_readable : ∀ {d : Nat} {ended : Bool}
    {members : List (Option String × Node)} {values : List (String × Json)},
    MembersSound members → readTreeMembers o d ended members = .ok values →
    (o = .text → Json.memberDepth values ≤ d) ∧ ∀ n ∈ Json.memberNumbers values, n.Fits
  | d, ended, [], values, _, h => by
    rw [readTreeMembers] at h
    obtain ⟨_, -, rfl⟩ := map_eq_ok.1 h
    exact ⟨fun _ => Nat.zero_le d, by simp [Json.memberNumbers]⟩
  | d, ended, (name, n) :: rest, values, hn, h => by
    rw [readTreeMembers] at h
    obtain ⟨name, -, h⟩ := bind_eq_ok.1 h
    obtain ⟨j, hj, h⟩ := bind_eq_ok.1 h
    obtain ⟨more, hmore, h⟩ := bind_eq_ok.1 h
    cases h
    obtain ⟨hdepth, hfits⟩ := readTree_readable hn.1 hj
    obtain ⟨hdepth', hfits'⟩ := readTreeMembers_readable hn.2 hmore
    exact ⟨fun ho => max_le (hdepth ho) (hdepth' ho),
      fun m hm => (List.mem_append.1 hm).elim (hfits m) (hfits' m)⟩

end

end Node

namespace Json

theorem memberDepth_le_iff {members : List (String × Json)} {d : Nat} :
    memberDepth members ≤ d ↔ ∀ m ∈ members, m.2.depth ≤ d := by
  induction members with
  | nil => simp [memberDepth]
  | cons m rest ih => rw [memberDepth, max_le_iff, ih, List.forall_mem_cons]

mutual

theorem depth_arrange_le : ∀ j : Json, j.arrange.depth ≤ j.depth
  | null => le_rfl
  | bool _ => le_rfl
  | string _ => le_rfl
  | number _ => le_rfl
  | array items => Nat.succ_le_succ (itemDepth_arrangeAll_le items)
  | object members => by
    refine Nat.succ_le_succ (memberDepth_le_iff.2 ?_)
    exact memberDepth_arrangeMembers_le members [] nofun (memberDepth_le_iff.1 le_rfl)

theorem itemDepth_arrangeAll_le : ∀ items : List Json,
    itemDepth (arrangeAll items) ≤ itemDepth items
  | [] => le_rfl
  | j :: rest => max_le_max (depth_arrange_le j) (itemDepth_arrangeAll_le rest)

theorem memberDepth_arrangeMembers_le {d : Nat} : ∀ members done : List (String × Json),
    (∀ m ∈ done, m.2.depth ≤ d) → (∀ m ∈ members, m.2.depth ≤ d) →
    ∀ m ∈ arrangeMembers done members, m.2.depth ≤ d
  | [], _, hdone, _ => hdone
  | (name, j) :: rest, done, hdone, hmembers => by
    obtain ⟨hj, hrest⟩ := List.forall_mem_cons.1 hmembers
    refine memberDepth_arrangeMembers_le rest _ (fun m hm => ?_) hrest
    rcases Table.mem_place hm with rfl | hm
    · exact (depth_arrange_le j).trans hj
    · exact hdone m hm

end

end Json

theorem Node.readValue_depth {d : Nat} {n : Node} (hn : n.Sound) {v : Value}
    (h : n.readValue .text d = .ok v) : v.json.depth ≤ d := by
  obtain ⟨j, hj, rfl⟩ := map_eq_ok.1 h
  exact j.depth_arrange_le.trans ((readTree_readable hn hj).depth_le rfl)

namespace Record

variable {σ : Type} {r : Record σ} {P : σ → Prop}
  (hstep : ∀ f ∈ r.fields, ∀ s n s', P s → n.Sound → f.read s n = .ok s' → P s')

include hstep

theorem readMembers_invariant {ended : Bool} {members : List (Option String × Node)}
    (hmembers : Node.MembersSound members) {seen : List String} {s s' : σ} (hs : P s)
    (h : r.readMembers ended seen s members = .ok s') : P s' := by
  induction members generalizing seen s with
  | nil =>
    obtain ⟨_, -, h⟩ := bind_eq_ok.1 h
    split at h
    · cases h
    · cases h
      exact hs
  | cons m rest ih =>
    obtain ⟨name, -, h⟩ := bind_eq_ok.1 h
    split at h
    · rename_i f hf
      split at h
      · cases h
      · obtain ⟨s₁, hs₁, h⟩ := bind_eq_ok.1 h
        exact ih hmembers.2 (hstep f (List.mem_of_find?_eq_some hf) s m.2 s₁ hs hmembers.1 hs₁) h
    · obtain ⟨_, -, h⟩ := bind_eq_ok.1 h
      exact ih hmembers.2 hs h

theorem readItems_invariant {o : Origin} {ended : Bool} {count : Nat} {fields : List (Field σ)}
    (hfields : ∀ f ∈ fields, f ∈ r.fields) {items : List Node} (hitems : Node.ItemsSound items)
    {s s' : σ} (hs : P s) (h : r.readItems o ended count s fields items = .ok s') : P s' := by
  induction fields generalizing items count s with
  | nil =>
    cases items with
    | nil =>
      obtain ⟨_, -, rfl⟩ := map_eq_ok.1 h
      exact hs
    | cons n rest => cases h
  | cons f fields ih =>
    obtain ⟨hf, hfields⟩ := List.forall_mem_cons.1 hfields
    cases items with
    | nil =>
      obtain ⟨_, -, h⟩ := bind_eq_ok.1 h
      split at h
      · cases h
      · have hnil : Node.ItemsSound [] := trivial
        exact ih hfields hnil hs h
    | cons n rest =>
      obtain ⟨s₁, hs₁, h⟩ := bind_eq_ok.1 h
      exact ih hfields hitems.2 (hstep f hf s n s₁ hs hitems.1 hs₁) h

/-- What the fields preserve holds of the record, in either of its forms. -/
theorem read_invariant {o : Origin} {n : Node} (hn : n.Sound) {s s' : σ} (hs : P s)
    (h : r.read o s n = .ok s') : P s' := by
  cases n with
  | object members ended => exact readMembers_invariant hstep hn hs h
  | array items ended => exact readItems_invariant hstep (fun f hf => hf) hn hs h
  | _ => cases h

end Record

end BoundedWorker
