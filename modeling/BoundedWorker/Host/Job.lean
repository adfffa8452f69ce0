import BoundedWorker.Host.Basic

/-!
Jobs of a host. Each job is one step of the worker, and the notices of the step say what was seen
and which jobs come next.
-/

namespace BoundedWorker.Host

def seeAnswer (h : Host) (call : Token) (answer : Answer) : Host :=
  match h.openCalls.find? fun c => c.call = call with
  | none => h
  | some c =>
    let h := { h with openCalls := h.openCalls.filter fun d => d.call ≠ call }
    match c.kind with
    | .direct => h.see call (.answered c.taskId answer)
    | .request => h.see call (.responded c.taskId (.ofAnswer answer))
    | .message => h.see call (.responded "" (.ofAnswer answer))

def beginBody (h : Host) (t : Token) : Host :=
  match h.worker.execution? t with
  | none => h
  | some e =>
    let r := e.request
    let b : Body := ⟨r.taskId, r.priority, h.script r.payload, .fresh, none⟩
    (h.setBody t b).enqueue (.turn t)

def deliver (h : Host) (t : Token) (r : TaskResult) : Host :=
  let keep : Reporter (List TaskResult) := match h.place with
    | some p => Reporter.memory.withPlace p
    | none => Reporter.memory
  let h := (keep r []).2.foldl (fun h r =>
    { h.see t (.reported r) with deliveries := h.deliveries ++ [(t, r)] }) h
  if h.reporter.delay = 0 then h.enqueue (.reportEnded t)
  else h.addTimer (h.clock + h.reporter.delay) (.reportEnded t)

def note (h : Host) : Notice → Host
  | .answered call answer => h.seeAnswer call answer
  | .responded call response => h.see call (.responded "" response)
  | .launched t => h.beginBody t
  | .started t =>
    match h.body? t with
    | some b =>
      { h.see t (.started b.taskId b.priority false) with
        lastToken := h.lastToken.insert b.taskId t }
    | none => h
  | .reported t r => h.deliver t r
  | .returned call n => h.see call (.returned n)
  | .woken call => h.enqueue (.resume call)
  | .roused t => h.enqueue (.turn t)
  | .nudged call => h.enqueue (.resumeDrain call)
  | .abandoned _ | .alarm _ => h

def apply (h : Host) (e : Event) : Host :=
  let (worker, notices) := h.worker.step e
  notices.foldl note { h with worker }

def openCall (h : Host) (kind : CallKind) (taskId : String) : Host :=
  { h with openCalls := h.openCalls ++ [⟨h.worker.calls, kind, taskId⟩] }

def limitBody (h : Host) (t : Token) (b : Body) : Host × Body :=
  match b.limits with
  | some _ => (h, b)
  | none =>
    let due := dueAfter h.clock h.worker.config.timeout
    (h.addTimer due (.turn t), { b with limits := some (h.clock, due) })

def turnBody (h : Host) (t : Token) : Host × Option Event :=
  match h.worker.execution? t, h.body? t with
  | some _, some b =>
    if h.worker.isCancelled t then (h, some (.turn t .idle false .zero))
    else
      let (h, b) := h.limitBody t b
      let (turn, state) := b.script.turn h.clock b.state
      let h := match b.state, state with
        | .fresh, .asleep due => h.addTimer due (.turn t)
        | _, _ => h
      let (began, due) := b.limits.getD (h.clock, h.clock)
      let elapsed := (Duration.ofMillis? (h.clock - began)).getD .longest
      (h.setBody t { b with state }, some (.turn t turn (due ≤ h.clock) elapsed))
  | _, _ => (h, none)

def endReport (h : Host) (t : Token) : Host × Option Event :=
  match h.deliveries.find? fun d => d.1 = t with
  | none => (h, none)
  | some d =>
    let delivered := match h.reporter.answer d.2 with
      | .ok () => true
      | .error _ => false
    ({ h with deliveries := h.deliveries.filter fun c => c.1 ≠ t },
      some (.reportEnded t delivered))

def prepare (h : Host) : Job → Host × Option Event
  | .submit kind r =>
    ({ h.openCall kind r.taskId with lastCall := h.lastCall.insert r.taskId h.worker.calls },
      some (.submit r h.now))
  | .message m freshId => (h.openCall .message "", some (.message m freshId h.now))
  | .resume call => (h, some (.resume call h.now))
  | .abandon call => (h, some (.abandon call))
  | .turn t => h.turnBody t
  | .reportEnded t => h.endReport t
  | .shutdown => (h, some .shutdown)
  | .resumeDrain call => (h, some (.resumeDrain call))

def unheld (h : Host) : Bool :=
  !(h.held || h.registered || h.worker.hasCallers || h.worker.dropped)

/-- A worker to which nobody refers is dropped within the turn in which this comes about. -/
def dropIfUnheld (h : Host) : Host := if h.unheld then h.apply .drop else h

def perform (h : Host) (j : Job) : Host :=
  let (h, event) := h.prepare j
  (event.elim h h.apply).dropIfUnheld

end BoundedWorker.Host
