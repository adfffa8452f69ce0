import BoundedWorker.Task.Status
import BoundedWorker.Proofs.Decoding
import BoundedWorker.Proofs.Messages
import BoundedWorker.Proofs.Results

/-!
What is read from a text is written as a text that is read as the same, however the first text put
it: with its members in any order or as an array, with members left out or passed over.
-/

namespace BoundedWorker

open Record (readMembers_field readMembers_done)

theorem Profile.read_finite {n : Node} (hn : n.Sound) {p : Profile} (h : Profile.read n = .ok p) :
    p.Finite :=
  Node.readTable_forall (fun _ _ hn h => Node.readFloat_isFinite hn h) hn h

namespace TaskRequest

theorem defaultRequired_finite : defaultRequired.Finite := by
  intro e he
  change e ∈ [(Profile.cpu, 0.5), (Profile.memory, 1)] at he
  have hall : ∀ e ∈ [(Profile.cpu, (0.5 : Float)), (Profile.memory, 1)], e.2.isFinite = true := by
    decide +kernel
  exact hall e he

/-- The amounts of a request that was read are finite, and its payload is not too deep to be read
again. -/
theorem read_writable {freshId : String} {n : Node} (hn : n.Sound) {r : TaskRequest}
    (h : TaskRequest.read .text freshId n = .ok r) :
    r.required.Finite ∧ r.payload.json.depth ≤ nestingLimit - 1 := by
  refine Record.read_invariant (P := fun r : TaskRequest => r.required.Finite ∧
    r.payload.json.depth ≤ nestingLimit - 1) ?_ hn ⟨defaultRequired_finite, Nat.zero_le _⟩ h
  intro f hf s n s' hs hn hread
  simp only [record, List.mem_cons, List.not_mem_nil, or_false] at hf
  rcases hf with rfl | rfl | rfl | rfl | rfl <;> obtain ⟨a, ha, hread⟩ := bind_eq_ok.1 hread <;>
    cases hread
  · exact hs
  · exact ⟨hs.1, Node.readValue_depth hn ha⟩
  · exact hs
  · exact hs
  · exact ⟨Profile.read_finite hn ha, hs.2⟩

end TaskRequest

def Metric.floats : Metric → List Float
  | number x => [x]
  | text _ => []

theorem Metric.Finite.isFinite {m : Metric} (h : m.Finite) {x : Float} (hx : x ∈ m.floats) :
    x.isFinite = true := by
  cases m with
  | number y =>
    obtain rfl := List.mem_singleton.1 hx
    exact h
  | text s => cases hx

theorem Metric.read_finite {depth : Nat} {n : Node} (hn : n.Sound) {m : Metric}
    (h : Metric.read depth n = .ok m) : m.Finite := by
  obtain ⟨j, hj, h⟩ := bind_eq_ok.1 h
  split at h
  · rename_i x
    cases h
    have hfits := (Node.readTree_readable hn hj).fits
    exact Number.isFinite_of_fits (hfits x (List.mem_singleton_self x))
  · cases h
    trivial
  · cases h

theorem Metric.read_written {m : Metric} (finite : m.Finite) (back : ∀ x ∈ m.floats, ReadsBack x)
    (depth : Nat) : Metric.read depth (m.toJson.tree Number.written) = .ok m := by
  cases m with
  | text s => rfl
  | number x =>
    have finite' : x.isFinite = true := finite
    have hread := Number.number?_of_readsBack finite' (back x (List.mem_singleton_self x))
    rw [toJson, Json.ofFloat, dif_pos finite', Json.tree, Metric.read, Node.readJson, Node.readTree,
      hread]
    rfl

namespace TaskResult

def floats (r : TaskResult) : List Float := r.metrics.entries.flatMap fun e => e.2.floats

theorem read_finite {n : Node} (hn : n.Sound) {r : TaskResult} (h : TaskResult.read n = .ok r) :
    r.metrics.Finite := by
  refine Metrics.finite_iff.2 (Record.read_invariant
    (P := fun r : TaskResult => ∀ e ∈ r.metrics.entries, e.2.Finite) ?_ hn
    (List.forall_mem_nil _) h)
  intro f hf s n s' hs hn hread
  simp only [record, List.mem_cons, List.not_mem_nil, or_false] at hf
  rcases hf with rfl | rfl | rfl | rfl <;> obtain ⟨a, ha, hread⟩ := bind_eq_ok.1 hread <;>
    cases hread
  · exact hs
  · exact hs
  · exact Node.readTable_forall (fun _ _ hn h => Metric.read_finite hn h) hn ha
  · exact hs

theorem readText_toJson {r : TaskResult} (finite : r.metrics.Finite)
    (back : ∀ x ∈ r.floats, ReadsBack x) : readText TaskResult.read r.toJson.text = .ok r := by
  rw [readText_text]
  refine r.read_members (Node.readTable_tree fun e he => ?_)
  exact Metric.read_written (Metrics.finite_iff.1 finite e he)
    (fun x hx => back x (List.mem_flatMap.2 ⟨e, he, hx⟩)) (nestingLimit - 2)

end TaskResult

namespace AgentMessage

def floats (m : AgentMessage) : List Float := m.payload.json.floats

theorem read_depth {n : Node} (hn : n.Sound) {m : AgentMessage} (h : AgentMessage.read n = .ok m) :
    m.payload.json.depth ≤ nestingLimit - 1 := by
  refine Record.read_invariant
    (P := fun m : AgentMessage => m.payload.json.depth ≤ nestingLimit - 1) ?_ hn (Nat.zero_le _) h
  intro f hf s n s' hs hn hread
  simp only [record, List.mem_cons, List.not_mem_nil, or_false] at hf
  rcases hf with rfl | rfl | rfl <;> obtain ⟨a, ha, hread⟩ := bind_eq_ok.1 hread <;> cases hread
  · exact hs
  · exact Node.readValue_depth hn ha
  · exact hs

theorem readText_toJson {m : AgentMessage} (hdepth : m.payload.json.depth ≤ nestingLimit - 1)
    (back : ∀ x ∈ m.floats, ReadsBack x) : readText AgentMessage.read m.toJson.text = .ok m := by
  obtain ⟨payloadType, payload, sender⟩ := m
  have hpayload : (payload.json.tree Number.written).readValue .text (nestingLimit - 1) =
      .ok payload := by
    refine readValue_tree payload (fun _ => hdepth) fun n hn => ?_
    refine Number.number?_written (Json.fits_of_arranged _ payload.arranged n hn) fun x hx => ?_
    exact back x (List.mem_flatMap.2 ⟨n, hn, hx⟩)
  rw [readText_text]
  exact read_members hpayload payloadType sender

end AgentMessage

namespace Node

open Json (memberNumbers itemNumbers)

mutual

theorem ofJson_sound : ∀ j : Json, (∀ n ∈ j.numbers, n.Fits) → (Node.ofJson j).Sound
  | .null, _ => trivial
  | .bool _, _ => trivial
  | .string _, _ => trivial
  | .number n, h => Numeral.sound_known (h n (List.mem_singleton_self n))
  | .array items, h => ofItems_sound items h
  | .object members, h => ofMembers_sound members h

theorem ofItems_sound : ∀ items : List Json, (∀ n ∈ itemNumbers items, n.Fits) →
    ItemsSound (Node.ofItems items)
  | [], _ => trivial
  | j :: rest, h => by
    rw [itemNumbers, List.forall_mem_append] at h
    exact ⟨ofJson_sound j h.1, ofItems_sound rest h.2⟩

theorem ofMembers_sound : ∀ members : List (String × Json),
    (∀ n ∈ memberNumbers members, n.Fits) → MembersSound (Node.ofMembers members)
  | [], _ => trivial
  | (_, j) :: rest, h => by
    rw [memberNumbers, List.forall_mem_append] at h
    exact ⟨ofJson_sound j h.1, ofMembers_sound rest h.2⟩

end

end Node

namespace TaskStatus

def floats : TaskStatus → List Float
  | awaitingSlot => []
  | running _ _ required => required.floats

def Finite : TaskStatus → Prop
  | awaitingSlot => True
  | running _ _ required => required.Finite

theorem ofRest_finite {state : State} {rest : Json} (fits : ∀ n ∈ rest.numbers, n.Fits)
    {s : TaskStatus} (h : ofRest state rest = .ok s) : s.Finite := by
  cases state with
  | awaitingSlot =>
    cases rest with
    | array items =>
      simp only [ofRest] at h
      split at h
      · cases h
        trivial
      · cases h
    | _ =>
      cases h
      trivial
  | running =>
    obtain ⟨r, hr, h⟩ := bind_eq_ok.1 h
    cases h
    refine Record.read_invariant (P := fun r : Running => r.required.Finite) ?_
      (Node.ofJson_sound rest fits) ?_ hr
    · intro f hf s n s' hs hn hread
      simp only [runningRecord, List.mem_cons, List.not_mem_nil, or_false] at hf
      rcases hf with rfl | rfl | rfl <;> obtain ⟨a, ha, hread⟩ := bind_eq_ok.1 hread <;> cases hread
      · exact hs
      · exact hs
      · exact Profile.read_finite hn ha
    · exact List.forall_mem_nil _

theorem readMembers_finite {ended : Bool} {members : List (Option String × Node)}
    (hmembers : Node.MembersSound members) {state : Option State} {rest : List (String × Json)}
    (hrest : ∀ m ∈ rest, ∀ n ∈ m.2.numbers, n.Fits) {s : TaskStatus}
    (h : readMembers ended state rest members = .ok s) : s.Finite := by
  induction members generalizing state rest with
  | nil =>
    obtain ⟨_, -, h⟩ := bind_eq_ok.1 h
    split at h
    · cases h
    · have hfits : ∀ n ∈ (Json.object rest.reverse).numbers, n.Fits :=
        Json.forall_mem_memberNumbers.2 fun m hm => hrest m (List.mem_reverse.1 hm)
      exact ofRest_finite hfits h
  | cons m more ih =>
    obtain ⟨name, -, h⟩ := bind_eq_ok.1 h
    split at h
    -- The state is no number, and is not set aside.
    · split at h
      · cases h
      · obtain ⟨_, -, h⟩ := bind_eq_ok.1 h
        exact ih hmembers.2 hrest h
    · obtain ⟨j, hj, h⟩ := bind_eq_ok.1 h
      have hfits := (Node.readTree_readable hmembers.1 hj).fits
      exact ih hmembers.2 (List.forall_mem_cons.2 ⟨hfits, hrest⟩) h

theorem read_finite {n : Node} (hn : n.Sound) {s : TaskStatus} (h : TaskStatus.read n = .ok s) :
    s.Finite := by
  cases n with
  | object members ended => exact readMembers_finite hn (List.forall_mem_nil _) h
  | array items ended =>
    cases items with
    | nil =>
      obtain ⟨_, -, h⟩ := bind_eq_ok.1 h
      cases h
    | cons first items =>
      obtain ⟨state, -, h⟩ := bind_eq_ok.1 h
      obtain ⟨rest, hrest, h⟩ := bind_eq_ok.1 h
      have hfits : ∀ n ∈ (Json.array rest).numbers, n.Fits :=
        Json.forall_mem_itemNumbers.2 (Node.readItems_forall
          (fun _ _ hn hj => (Node.readTree_readable hn hj).fits) hn.2 hrest)
      exact ofRest_finite hfits h
  | _ => cases h

end TaskStatus

namespace Duration

theorem readTree_toJson (d : Duration) :
    (d.toJson.tree Number.written).readTree .text (nestingLimit - 1) = .ok d.toJson := by
  refine Json.readTree_tree _ (fun _ => show 1 ≤ nestingLimit - 1 by decide) fun n hn => ?_
  change n ∈ [Number.natural d.secs, Number.natural d.nanos] at hn
  rcases List.mem_pair.1 hn with rfl | rfl
  · exact Number.number?_natural d.secs_lt
  · exact Number.number?_natural (d.nanos_lt.trans (by decide))

theorem read_known (d : Duration) : Duration.read (d.toJson.tree .known) = .ok d := by
  have hsecs : readSecs ((Json.ofNat d.secs).tree .known) = .ok d.secs :=
    Node.readNatural_tree d.secs_lt rfl
  have hnanos : readNanos ((Json.ofNat d.nanos).tree .known) = .ok d.nanos :=
    Node.readNatural_tree (d.nanos_lt.trans (by decide)) rfl
  have hparts : ofParts? d.secs d.nanos = some d := by
    have hcarry : d.nanos / 1000000000 = 0 := Nat.div_eq_of_lt d.nanos_lt
    have hmod : d.nanos % 1000000000 = d.nanos := Nat.mod_eq_of_lt d.nanos_lt
    have hlt := d.secs_lt
    simp only [ofParts?, hcarry, hmod, Nat.add_zero, dif_pos hlt]
  change (readSecs ((Json.ofNat d.secs).tree .known) >>= fun secs =>
    readNanos ((Json.ofNat d.nanos).tree .known) >>= fun nanos => ofRead secs nanos) = _
  rw [bind_ok hsecs, bind_ok hnanos, ofRead, hparts]

end Duration

namespace TaskStatus

section Members

variable {ended : Bool} {state : Option State} {rest : List (String × Json)} {name : String}
  {n : Node} {more : List (Option String × Node)}

theorem readMembers_state {s : State} (hn : readState n = .ok s) :
    readMembers ended none rest ((some "state", n) :: more) =
      readMembers ended (some s) rest more := by
  simp only [readMembers, Node.nameOf, bind, Except.bind, if_true, Option.isSome_none,
    Bool.false_eq_true, if_false, hn]

theorem readMembers_aside {j : Json} (hname : name ≠ "state")
    (hn : n.readJson (nestingLimit - 1) = .ok j) :
    readMembers ended state rest ((some name, n) :: more) =
      readMembers ended state ((name, j) :: rest) more := by
  simp only [readMembers, Node.nameOf, bind, Except.bind, hname, if_false, hn]

end Members

theorem runningRecord_read {elapsed : Duration} {priority : Int32} {required : Profile}
    (finite : required.Finite) :
    ofRest .running (.object [("elapsed", elapsed.toJson), ("priority", Json.ofInt priority.toInt),
      ("required", required.toJson)]) = .ok (.running elapsed priority required) := by
  have hpriority : ((Json.ofInt priority.toInt).tree .known).readInt32 = .ok priority :=
    Node.readInt32_tree priority fun _ _ _ => rfl
  have hrequired : Profile.read (required.toJson.tree .known) = .ok required :=
    Profile.read_tree finite fun _ _ => rfl
  have hread : runningRecord.readMembers true [] ⟨.zero, 0, .empty⟩
      [(some "elapsed", elapsed.toJson.tree .known),
        (some "priority", (Json.ofInt priority.toInt).tree .known),
        (some "required", required.toJson.tree .known)] = .ok ⟨elapsed, priority, required⟩ := by
    rw [readMembers_field rfl rfl (bind_ok elapsed.read_known _),
      readMembers_field rfl rfl (bind_ok hpriority _),
      readMembers_field rfl rfl (bind_ok hrequired _)]
    exact readMembers_done rfl
  rw [ofRest, Json.ofJson_eq_tree]
  exact bind_ok hread _

theorem readText_toJson {s : TaskStatus} (finite : s.Finite) (back : ∀ x ∈ s.floats, ReadsBack x) :
    readText TaskStatus.read s.toJson.text = .ok s := by
  rw [readText_text]
  cases s with
  | awaitingSlot => rfl
  | running elapsed priority required =>
    have hpriority : ((Json.ofInt priority.toInt).tree Number.written).readTree .text
        (nestingLimit - 1) = .ok (Json.ofInt priority.toInt) :=
      Json.readTree_ofInt32 priority _
    have hrequired : (required.toJson.tree Number.written).readTree .text (nestingLimit - 1) =
        .ok required.toJson :=
      Json.readTree_tree _ (fun _ => required.depth_toJson.trans (by decide))
        (Profile.number?_written finite back)
    change readMembers true none [] [(some "state", .string (some "running")),
      (some "elapsed", elapsed.toJson.tree Number.written),
      (some "priority", (Json.ofInt priority.toInt).tree Number.written),
      (some "required", required.toJson.tree Number.written)] = _
    rw [readMembers_state rfl, readMembers_aside (by decide) elapsed.readTree_toJson,
      readMembers_aside (by decide) hpriority, readMembers_aside (by decide) hrequired]
    exact runningRecord_read finite

end TaskStatus

theorem exists_sound {α : Type} {read : Node → ReadResult α} {text : String} {a : α}
    (h : readText read text = .ok a) : ∃ n : Node, n.Sound ∧ read n = .ok a := by
  obtain ⟨b, hb, h⟩ := bind_eq_ok.1 h
  split at h
  · cases h
    exact ⟨_, Document.root_sound text, hb⟩
  · cases h

theorem Json.isFinite_of_mem_floats {j : Json} {x : Float} (hx : x ∈ j.floats) :
    x.isFinite = true := by
  obtain ⟨n, -, hn⟩ := List.mem_flatMap.1 hx
  cases n with
  | binary y finite =>
    obtain rfl := List.mem_singleton.1 hn
    exact finite
  | _ => cases hn

theorem Profile.Finite.isFinite {p : Profile} (h : p.Finite) {x : Float} (hx : x ∈ p.floats) :
    x.isFinite = true := by
  obtain ⟨e, he, rfl⟩ := List.mem_map.1 hx
  exact h e he

section Again

variable {text : String}

theorem TaskRequest.readText_written {freshId : String} {r : TaskRequest}
    (h : readText (TaskRequest.read .text freshId) text = .ok r)
    (back : ∀ x ∈ r.floats, x.isFinite = true → ReadsBack x) (freshId' : String) :
    readText (TaskRequest.read .text freshId') r.toJson.text = .ok r := by
  obtain ⟨n, hn, hread⟩ := exists_sound h
  obtain ⟨finite, hdepth⟩ := TaskRequest.read_writable hn hread
  refine TaskRequest.readText_toJson ⟨finite, ?_, fun x hx => back x hx ?_⟩ freshId'
  · rw [nestingLimit] at hdepth ⊢
    omega
  · rcases List.mem_append.1 hx with hx | hx
    · exact Json.isFinite_of_mem_floats hx
    · exact finite.isFinite hx

theorem TaskResult.readText_written {r : TaskResult} (h : readText TaskResult.read text = .ok r)
    (back : ∀ x ∈ r.floats, x.isFinite = true → ReadsBack x) :
    readText TaskResult.read r.toJson.text = .ok r := by
  obtain ⟨n, hn, hread⟩ := exists_sound h
  have finite := TaskResult.read_finite hn hread
  refine TaskResult.readText_toJson finite fun x hx => back x hx ?_
  obtain ⟨e, he, hx⟩ := List.mem_flatMap.1 hx
  exact (Metrics.finite_iff.1 finite e he).isFinite hx

theorem TaskStatus.readText_written {s : TaskStatus} (h : readText TaskStatus.read text = .ok s)
    (back : ∀ x ∈ s.floats, x.isFinite = true → ReadsBack x) :
    readText TaskStatus.read s.toJson.text = .ok s := by
  obtain ⟨n, hn, hread⟩ := exists_sound h
  have finite := TaskStatus.read_finite hn hread
  refine TaskStatus.readText_toJson finite fun x hx => back x hx ?_
  cases s with
  | awaitingSlot => cases hx
  | running elapsed priority required => exact Profile.Finite.isFinite finite hx

theorem AgentMessage.readText_written {m : AgentMessage}
    (h : readText AgentMessage.read text = .ok m)
    (back : ∀ x ∈ m.floats, x.isFinite = true → ReadsBack x) :
    readText AgentMessage.read m.toJson.text = .ok m := by
  obtain ⟨n, hn, hread⟩ := exists_sound h
  exact AgentMessage.readText_toJson (AgentMessage.read_depth hn hread) fun x hx =>
    back x hx (Json.isFinite_of_mem_floats hx)

end Again

inductive Wire where
  | request
  | result
  | status
  | message

namespace Wire

def Carrier : Wire → Type
  | request => TaskRequest
  | result => TaskResult
  | status => TaskStatus
  | message => AgentMessage

def read (freshId : String) : (w : Wire) → Node → ReadResult w.Carrier
  | request => TaskRequest.read .text freshId
  | result => TaskResult.read
  | status => TaskStatus.read
  | message => AgentMessage.read

def toJson : (w : Wire) → w.Carrier → Json
  | request => TaskRequest.toJson
  | result => TaskResult.toJson
  | status => TaskStatus.toJson
  | message => AgentMessage.toJson

def floats : (w : Wire) → w.Carrier → List Float
  | request => TaskRequest.floats
  | result => TaskResult.floats
  | status => TaskStatus.floats
  | message => AgentMessage.floats

/-- The text of whatever was read is read as the same again. -/
theorem readText_again (w : Wire) (freshId freshId' : String) {text : String} {v : w.Carrier}
    (h : readText (w.read freshId) text = .ok v)
    (back : ∀ x ∈ w.floats v, x.isFinite = true → ReadsBack x) :
    readText (w.read freshId') (w.toJson v).text = .ok v := by
  cases w with
  | request => exact TaskRequest.readText_written h back freshId'
  | result => exact TaskResult.readText_written h back
  | status => exact TaskStatus.readText_written h back
  | message => exact AgentMessage.readText_written h back

theorem readText_short : readText TaskResult.read "[\"t1\",true,\x7b\"x\":1.5\x7d]" =
    .ok ⟨"t1", true, Table.ofList [("x", .number 1.5)], []⟩ := by
  have hdocument : Document.ofText "[\"t1\",true,\x7b\"x\":1.5\x7d]" =
      ⟨.array [.string (some "t1"), .bool true,
        .object [(some "x", .number (.written ['1', '.', '5']))] true] true, true⟩ := rfl
  have hmetric : Metric.read (nestingLimit - 2) (.number (.written ['1', '.', '5'])) =
      .ok (.number 1.5) := by
    rw [Metric.read, Node.readJson, Node.readTree, number?_threeHalves]
    rfl
  have htable : Node.readTable (Metric.read (nestingLimit - 2))
      (.object [(some "x", .number (.written ['1', '.', '5']))] true) =
        .ok (Table.ofList [("x", .number 1.5)]) := by
    rw [Node.readTable, Node.readEntries, Node.nameOf, hmetric]
    rfl
  have hread : TaskResult.read (.array [.string (some "t1"), .bool true,
      .object [(some "x", .number (.written ['1', '.', '5']))] true] true) =
        .ok ⟨"t1", true, Table.ofList [("x", .number 1.5)], []⟩ := by
    simp only [TaskResult.read, Record.read, TaskResult.record, Record.readItems, htable]
    rfl
  rw [readText, hdocument, hread]
  rfl

theorem readText_again_short :
    readText (Wire.result.read "") "[\"t1\",true,\x7b\"x\":1.5\x7d]" =
        .ok ⟨"t1", true, Table.ofList [("x", .number 1.5)], []⟩ ∧
      readText (Wire.result.read "")
          (TaskResult.toJson ⟨"t1", true, Table.ofList [("x", .number 1.5)], []⟩).text =
        .ok ⟨"t1", true, Table.ofList [("x", .number 1.5)], []⟩ := by
  refine ⟨readText_short, readText_again .result "" "" readText_short fun x hx _ => ?_⟩
  change x ∈ [1.5] at hx
  obtain rfl := List.mem_singleton.1 hx
  exact readsBack_threeHalves

end Wire

end BoundedWorker
