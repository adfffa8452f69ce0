import BoundedWorker.Message
import BoundedWorker.Proofs.Requests

/-!
Requests on their two ways to the worker: as a text of their own, and as the payload of a message,
which is held as a value before the request is read from it. The two agree but for deadlines beyond
64 bits, which a value does not hold.
-/

namespace BoundedWorker

namespace Numeral

theorem takeWord_length (m : Nat) (cs : List Char) : (takeWord m cs).2.length ≤ cs.length := by
  induction cs generalizing m with
  | nil => exact le_rfl
  | cons c cs ih =>
    rw [takeWord]
    split
    · exact le_rfl
    · exact (ih _).trans (Nat.le_succ _)

theorem takeWord_full {m : Nat} {cs : List Char} (h : (takeWord m cs).2 = []) :
    (takeWord m cs).1 = cs.foldl (fun n c => 10 * n + Decimal.digitOf c) m := by
  induction cs generalizing m with
  | nil => rfl
  | cons c cs ih =>
    rw [takeWord] at h ⊢
    split at h
    · cases h
    · rename_i hlt
      rw [if_neg hlt]
      exact ih h

theorem atMost_powerOfTen {e : Nat} (he : e < 40) : AtMost 179 (powerOfTen e) := by
  have hsmall : ∀ e < 40, Decimal.nearestBits (10 ^ e) 1 < 1200 * 2 ^ 52 := by decide +kernel
  obtain ⟨c, hunpack, hbits, -, -⟩ := exists_power (e := e) (by omega)
  have hlt := c.lt
  have hpower : c.power < 1200 := by
    have hbound := hsmall e he
    rw [← hbits, Binary64.bits] at hbound
    omega
  rw [AtMost, hunpack]
  refine ⟨(1253 - c.power : Nat), by omega, by omega, hlt.le.trans ?_⟩
  exact Nat.pow_le_pow_right (by decide) (by omega)

theorem scale_of_small (m : Nat) {e : Nat} (he : e < 40) :
    ∃ x, scale m e = some x ∧ x.isFinite = true :=
  scale_of_isFinite (by omega)
    ((atMost_toFloat _).mul (by decide) (by decide) (atMost_powerOfTen he)).isFinite

theorem ofChars?_of_digits {cs : List Char} (hdigits : cs.all Char.isDigit = true)
    (hlong : wordBound ≤ Decimal.digitsValue cs) (hshort : cs.length < 40) :
    ∃ x finite, ofChars? cs = some (.binary x finite) := by
  have hhead : ¬cs.head? = some '-' := by
    cases cs with
    | nil => simp
    | cons c rest =>
      rw [List.all_cons, Bool.and_eq_true] at hdigits
      rw [List.head?_cons, Option.some_inj]
      rintro rfl
      exact absurd hdigits.1 (by decide)
  have hempty : ∀ c ∈ ([] : List Char).head?, c.isDigit = false := by simp
  have htake := Form.span_digits hdigits hempty
  rw [List.append_nil] at htake
  have hleft : (takeWord 0 cs).2.isEmpty = false := by
    rw [List.isEmpty_eq_false_iff]
    intro h
    have hlt : (takeWord 0 cs).1 < wordBound := takeWord_lt (by decide) cs
    rw [takeWord_full h] at hlt
    exact absurd hlt hlong.not_gt
  obtain ⟨x, hx, finite⟩ := scale_of_small (takeWord 0 cs).1
    ((takeWord_length 0 cs).trans_lt hshort)
  refine ⟨x, finite, ?_⟩
  unfold ofChars?
  simp only [hhead, if_false, decide_false, htake.1, htake.2, hleft, Bool.false_eq_true, false_and,
    withFraction, withExponent, hx, Option.bind_some, Decimal.negateIf, binary?, finite,
    dif_pos]

end Numeral

theorem AgentMessage.read_members {payload : Json} {v : Value}
    (h : (payload.tree Number.written).readValue .text (nestingLimit - 1) = .ok v)
    (payloadType : String) (sender : Option String) :
    AgentMessage.read ((Json.object
      ([("payload_type", .string payloadType), ("payload", payload)] ++
        (sender.map fun s => ("sender", Json.string s)).toList)).tree Number.written) =
      .ok ⟨payloadType, v, sender⟩ := by
  change record.readMembers true [] _ (Json.memberTrees Number.written _) = _
  cases sender with
  | none =>
    simp only [Option.map_none, Option.toList_none, List.append_nil, Json.memberTrees]
    rw [Record.readMembers_field rfl rfl rfl, Record.readMembers_field rfl rfl (bind_ok h _)]
    exact Record.readMembers_done rfl
  | some s =>
    simp only [Option.map_some, Option.toList_some, List.cons_append, List.nil_append,
      Json.memberTrees]
    rw [Record.readMembers_field rfl rfl rfl, Record.readMembers_field rfl rfl (bind_ok h _),
      Record.readMembers_field rfl rfl rfl]
    exact Record.readMembers_done rfl

namespace Node

theorem readTreeMembers_cons {o : Origin} {d : Nat} {name : String} {n : Node} {j : Json}
    {rest : List (Option String × Node)} {members : List (String × Json)}
    (hn : n.readTree o d = .ok j) (hrest : readTreeMembers o d true rest = .ok members) :
    readTreeMembers o d true ((some name, n) :: rest) = .ok ((name, j) :: members) := by
  rw [readTreeMembers, nameOf, hn, hrest]
  rfl

end Node

namespace TaskRequest

variable (r : TaskRequest) (deadline : Json)

def members : List (String × Json) :=
  [("task_id", .string r.taskId), ("payload", r.payload.json),
    ("priority", Json.ofInt r.priority.toInt), ("deadline_ms", deadline),
    ("required_resources", r.required.toJson)]

def sortedMembers : List (String × Json) :=
  [("deadline_ms", deadline), ("payload", r.payload.json),
    ("priority", Json.ofInt r.priority.toInt), ("required_resources", r.required.toJson),
    ("task_id", .string r.taskId)]

/-- What a deadline becomes in a value: beyond 64 bits, a float. -/
inductive Held : Option (Fin (Nat.pow 2 128)) → Json → Prop where
  | none : Held none .null
  | exact {d : Fin (Nat.pow 2 128)} (small : d.val < Nat.pow 2 64) :
      Held (some d) (Json.ofNat d.val)
  | rounded {d : Fin (Nat.pow 2 128)} (large : Nat.pow 2 64 ≤ d.val) (x : Float)
      (finite : x.isFinite = true) : Held (some d) (.number (.binary x finite))

variable {deadline}

theorem Held.arrange {d : Option (Fin (Nat.pow 2 128))} (h : Held d deadline) :
    deadline.arrange = deadline := by
  refine Json.arrange_of_arranged deadline ?_
  cases h with
  | none => trivial
  | exact small => exact small
  | rounded large x finite => trivial

theorem deadline_held (depth : Nat) :
    ∃ j, (r.deadlineJson.tree Number.written).readTree .text depth = .ok j ∧ Held r.deadline j := by
  rw [deadlineJson]
  cases r.deadline with
  | none => exact ⟨.null, rfl, .none⟩
  | some d =>
    change ∃ j, (Node.number (Number.natural d.val).written).readTree .text depth = _ ∧ _
    rw [Node.readTree]
    by_cases small : d.val < Nat.pow 2 64
    · rw [Number.number?_natural small]
      exact ⟨_, rfl, .exact small⟩
    · have large : Nat.pow 2 64 ≤ d.val := Nat.le_of_not_lt small
      have hlong : Numeral.wordBound ≤ Decimal.digitsValue d.val.repr.toList := by
        rw [Decimal.digitsValue_repr]
        exact large
      have hshort : d.val.repr.toList.length < 40 :=
        Nat.lt_succ_of_le ((Decimal.length_repr_le_iff (k := 39) (by decide)).2
          (d.isLt.trans (by decide)))
      obtain ⟨x, finite, hx⟩ :=
        Numeral.ofChars?_of_digits (Decimal.isDigit_repr d.val) hlong hshort
      have hread : (Number.natural d.val).written.number? = some (.binary x finite) := hx
      rw [hread]
      exact ⟨_, rfl, .rounded large x finite⟩

theorem ofJson_members (h : deadline.arrange = deadline) :
    (Value.ofJson (.object (r.members deadline))).json = .object (r.sortedMembers deadline) := by
  have hpayload := r.payload.json.arrange_of_arranged r.payload.arranged
  obtain ⟨n, hn, fits, -⟩ := Json.exists_ofInt32 r.priority
  have hpriority : (Json.ofInt r.priority.toInt).arrange = Json.ofInt r.priority.toInt := by
    rw [hn, Json.arrange, Number.fit_of_fits fits]
  have hrequired := r.required.toJson.arrange_of_arranged r.required.arranged_toJson
  change Json.object [("deadline_ms", deadline.arrange), ("payload", r.payload.json.arrange),
    ("priority", (Json.ofInt r.priority.toInt).arrange),
    ("required_resources", r.required.toJson.arrange), ("task_id", .string r.taskId)] = _
  rw [h, hpayload, hpriority, hrequired, sortedMembers]

variable {r}

theorem exists_readValue (h : r.Writable 1) :
    ∃ j, (r.toJson.tree Number.written).readValue .text (nestingLimit - 1) =
      .ok (Value.ofJson (.object (r.members j))) ∧ Held r.deadline j := by
  obtain ⟨j, hj, held⟩ := r.deadline_held (nestingLimit - 2)
  refine ⟨j, ?_, held⟩
  have hdepth : r.payload.json.depth ≤ nestingLimit - 2 := by have := h.depth; omega
  have hpayload := r.payload.json.readTree_tree (o := .text) (fun _ => hdepth)
    (number?_payload h.back)
  have hpriority := Json.readTree_ofInt32 r.priority (nestingLimit - 2)
  have hrequired := r.required.toJson.readTree_tree (o := .text) (d := nestingLimit - 2)
    (fun _ => r.required.depth_toJson.trans (by decide)) (number?_required h.finite h.back)
  have hmembers : Node.readTreeMembers .text (nestingLimit - 2) true
      (Json.memberTrees Number.written (r.members r.deadlineJson)) = .ok (r.members j) :=
    Node.readTreeMembers_cons rfl <| Node.readTreeMembers_cons hpayload <|
      Node.readTreeMembers_cons hpriority <| Node.readTreeMembers_cons hj <|
        Node.readTreeMembers_cons hrequired rfl
  have hjson : (r.toJson.tree Number.written).readTree .text (nestingLimit - 1) =
      .ok (.object (r.members j)) := by
    change (Node.object (Json.memberTrees Number.written (r.members r.deadlineJson)) true).readTree
      .text (nestingLimit - 1) = _
    rw [Node.readTree, if_neg (by decide)]
    exact congrArg (Except.map Json.object) hmembers
  rw [Node.readValue, hjson]
  rfl

def envelope (r : TaskRequest) (sender : Option String) : Json :=
  .object ([("payload_type", .string AgentMessage.taskRequestType), ("payload", r.toJson)] ++
    (sender.map fun s => ("sender", Json.string s)).toList)

theorem readText_envelope (h : r.Writable 1) (sender : Option String) :
    ∃ j, Held r.deadline j ∧ readText AgentMessage.read (r.envelope sender).text =
      .ok ⟨AgentMessage.taskRequestType, .ofJson (.object (r.members j)), sender⟩ := by
  obtain ⟨j, hpayload, held⟩ := exists_readValue h
  refine ⟨j, held, ?_⟩
  rw [readText_text]
  exact AgentMessage.read_members hpayload AgentMessage.taskRequestType sender

theorem readDeadline_held (held : Held r.deadline deadline)
    (small : ∀ d ∈ r.deadline, d.val < Nat.pow 2 64) :
    Node.readOption (Node.readUInt128 .value) (deadline.tree .known) = .ok r.deadline := by
  cases hd : r.deadline with
  | none =>
    rw [hd] at held
    cases held
    rfl
  | some d =>
    rw [hd] at held
    cases held with
    | exact => exact Node.readOption_some Node.noConfusion Node.readUInt128_known
    | rounded large => exact absurd (small d hd) large.not_gt

/-- A deadline that does not fit 64 bits is a float by now, and no float is a deadline. -/
theorem readDeadline_rounded {d : Fin (Nat.pow 2 128)} (held : Held (some d) deadline)
    (large : Nat.pow 2 64 ≤ d.val) : ∃ x finite,
    Node.readOption (Node.readUInt128 .value) (deadline.tree .known) =
      .error (.wrongType (.number (.known (.binary x finite))) "u128") := by
  cases held with
  | exact small => exact absurd small large.not_gt
  | rounded _ x finite => exact ⟨x, finite, rfl⟩

theorem read_sortedMembers (finite : r.required.Finite) (freshId : String)
    (h : Node.readOption (Node.readUInt128 .value) (deadline.tree .known) = .ok r.deadline) :
    TaskRequest.read .value freshId (.ofJson (.object (r.sortedMembers deadline))) = .ok r := by
  have hpayload : (r.payload.json.tree .known).readValue .value (nestingLimit - 1) =
      .ok r.payload := readValue_tree r.payload nofun fun _ _ => rfl
  have hpriority : ((Json.ofInt r.priority.toInt).tree .known).readInt32 = .ok r.priority :=
    Node.readInt32_tree r.priority fun _ _ _ => rfl
  have hrequired : Profile.read (r.required.toJson.tree .known) = .ok r.required :=
    Profile.read_tree finite fun _ _ => rfl
  rw [Json.ofJson_eq_tree]
  change (record .value).readMembers true [] _ (Json.memberTrees .known _) = _
  simp only [sortedMembers, Json.memberTrees]
  rw [Record.readMembers_field rfl rfl (bind_ok h _),
    Record.readMembers_field rfl rfl (bind_ok hpayload _),
    Record.readMembers_field rfl rfl (bind_ok hpriority _),
    Record.readMembers_field rfl rfl (bind_ok hrequired _), Record.readMembers_field rfl rfl rfl]
  exact Record.readMembers_done rfl

theorem read_sortedMembers_fault (freshId : String) {fault : ReadFault}
    (h : Node.readOption (Node.readUInt128 .value) (deadline.tree .known) = .error fault) :
    TaskRequest.read .value freshId (.ofJson (.object (r.sortedMembers deadline))) =
      .error fault := by
  rw [Json.ofJson_eq_tree]
  change (record .value).readMembers true [] _ (Json.memberTrees .known _) = _
  -- Among the sorted members the deadline comes first, so nothing else is looked at.
  simp only [sortedMembers, Json.memberTrees]
  exact Record.readMembers_fault rfl rfl (bind_error h _)

def received : ReadResult TaskRequest → Dispatch
  | .ok r => .request r
  | .error fault => .malformed fault

theorem dispatch_members (held : Held r.deadline deadline) (sender : Option String)
    (freshId : String) :
    AgentMessage.dispatch ⟨AgentMessage.taskRequestType, .ofJson (.object (r.members deadline)),
        sender⟩ freshId =
      received (TaskRequest.read .value freshId
        (.ofJson (.object (r.sortedMembers deadline)))) := by
  rw [AgentMessage.dispatch, if_neg (not_not_intro rfl), r.ofJson_members held.arrange]
  rfl

theorem exists_request (h : r.Writable 1) (small : ∀ d ∈ r.deadline, d.val < Nat.pow 2 64)
    (sender : Option String) (freshId : String) :
    ∃ m, readText AgentMessage.read (r.envelope sender).text = .ok m ∧
      m.dispatch freshId = .request r := by
  obtain ⟨j, held, hread⟩ := readText_envelope h sender
  refine ⟨_, hread, ?_⟩
  rw [dispatch_members held,
    read_sortedMembers h.finite freshId (readDeadline_held held small), received]

theorem exists_malformed (h : r.Writable 1) {d : Fin (Nat.pow 2 128)} (hd : r.deadline = some d)
    (large : Nat.pow 2 64 ≤ d.val) (sender : Option String) (freshId : String) :
    ∃ m x finite, readText AgentMessage.read (r.envelope sender).text = .ok m ∧
      m.dispatch freshId =
        .malformed (.wrongType (.number (.known (.binary x finite))) "u128") := by
  obtain ⟨j, held, hread⟩ := readText_envelope h sender
  obtain ⟨x, finite, hfault⟩ := readDeadline_rounded (hd ▸ held) large
  refine ⟨_, x, finite, hread, ?_⟩
  rw [dispatch_members held, read_sortedMembers_fault freshId hfault, received]

/-- A request is read from its own text, and comes out of a message as the same request exactly if
its deadline fits 64 bits. -/
theorem dispatch_envelope (r : TaskRequest) (h : r.Writable 1) (sender : Option String)
    (freshId : String) :
    readText (TaskRequest.read .text freshId) r.toJson.text = .ok r ∧
      ((∀ d ∈ r.deadline, d.val < Nat.pow 2 64) →
        ∃ m, readText AgentMessage.read (r.envelope sender).text = .ok m ∧
          m.dispatch freshId = .request r) ∧
      ((∃ d ∈ r.deadline, Nat.pow 2 64 ≤ d.val) →
        ∃ m x finite, readText AgentMessage.read (r.envelope sender).text = .ok m ∧
          m.dispatch freshId =
            .malformed (.wrongType (.number (.known (.binary x finite))) "u128")) := by
  refine ⟨readText_toJson (h.mono (Nat.zero_le 1)) freshId, fun small => ?_, ?_⟩
  · exact exists_request h small sender freshId
  · rintro ⟨d, hd, large⟩
    exact exists_malformed h (Option.mem_def.1 hd) large sender freshId

def due (deadline : Fin (Nat.pow 2 128)) : TaskRequest where
  taskId := "t1"
  payload := ⟨.object [("x", .number (.binary 1.5 isFinite_threeHalves))],
    List.pairwise_singleton _ _, trivial, trivial⟩
  priority := -3
  deadline := some deadline
  required := Table.ofList [(Profile.cpu, 1.5)]

theorem due_writable (deadline : Fin (Nat.pow 2 128)) : (due deadline).Writable 1 where
  finite := by
    intro e he
    obtain rfl := List.mem_singleton.1 he
    exact isFinite_threeHalves
  depth := by
    change 1 + 1 + 1 ≤ 127
    decide
  back := by
    intro x hx
    change x ∈ [1.5, 1.5] at hx
    obtain rfl : x = 1.5 := by simpa using hx
    exact readsBack_threeHalves

theorem dispatch_due_2030 :
    (due 1893456000000).Writable 1 ∧
      readText (TaskRequest.read .text "") (due 1893456000000).toJson.text =
        .ok (due 1893456000000) ∧
      ∃ m, readText AgentMessage.read ((due 1893456000000).envelope none).text = .ok m ∧
        m.dispatch "" = .request (due 1893456000000) := by
  have writable := due_writable 1893456000000
  have small : ∀ d ∈ (due 1893456000000).deadline, d.val < Nat.pow 2 64 := by
    intro d hd
    obtain rfl := Option.some_inj.1 hd
    decide
  obtain ⟨hdirect, hsmall, -⟩ := dispatch_envelope _ writable none ""
  exact ⟨writable, hdirect, hsmall small⟩

/-- The first deadline that is lost on the way. -/
theorem not_dispatch_due :
    (due 18446744073709551616).Writable 1 ∧
      ¬∃ m, readText AgentMessage.read ((due 18446744073709551616).envelope none).text = .ok m ∧
        m.dispatch "" = .request (due 18446744073709551616) := by
  refine ⟨due_writable _, ?_⟩
  rintro ⟨m, hm, hrequest⟩
  obtain ⟨m', x, finite, hm', hmalformed⟩ :=
    exists_malformed (due_writable 18446744073709551616) rfl (by decide) none ""
  obtain rfl : m = m' := Except.ok.inj (hm.symm.trans hm')
  rw [hrequest] at hmalformed
  cases hmalformed

end TaskRequest

end BoundedWorker
