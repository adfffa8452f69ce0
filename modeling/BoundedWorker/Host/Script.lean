import BoundedWorker.Task.Attempt

/-!
Task bodies that follow a script, on a clock of whole milliseconds: perhaps cancel their own
execution, perhaps sleep, then finish or hang. `solo` runs one such body under a time limit.
-/

namespace BoundedWorker

inductive Ending where
  | finish (e : BodyEnd)
  | hang

structure Script where
  cancelsItself : Bool
  sleep : Nat
  ending : Ending

inductive BodyState where
  | fresh
  | asleep (due : Nat)
  | ended

namespace Script

def conclude (s : Script) (cancels : Bool) : BodyTurn × BodyState :=
  match s.ending with
  | .finish e => (⟨cancels, some e⟩, .ended)
  | .hang => (⟨cancels, none⟩, .ended)

def turn (s : Script) (now : Nat) : BodyState → BodyTurn × BodyState
  | .fresh =>
    if 0 < s.sleep then (⟨s.cancelsItself, none⟩, .asleep (now + s.sleep))
    else s.conclude s.cancelsItself
  | .asleep due => if due ≤ now then s.conclude false else (.idle, .asleep due)
  | .ended => (.idle, .ended)

end Script

structure SoloEnd where
  outcome : Outcome
  endedAt : Nat
  cancelled : Bool
  started : Bool

structure Solo where
  now : Nat
  state : BodyState
  attempt : Attempt

def Solo.ahead (s : Solo) (cancelAt : Option Nat) : List Nat :=
  let wake := match s.state with
    | .asleep due => [due]
    | _ => []
  (s.attempt.due.toList ++ wake ++ cancelAt.toList).filter fun t => s.now < t

/-- Polls until the attempt is settled. A cancellation from outside comes after the polls of its
time, and like one by the body leads to another poll at once. -/
def Solo.run (script : Script) (cancelAt : Option Nat) : Nat → Solo → Option SoloEnd
  | 0, _ => none
  | polls + 1, s =>
    let (body, state) := script.turn s.now s.state
    let polled := s.attempt.apply (.poll s.now body)
    match polled.outcome with
    | some o => some ⟨o, s.now, polled.cancelled, !polled.turns.isEmpty⟩
    | none =>
      let a := if cancelAt.any fun t => t ≤ s.now then polled.apply .cancel else polled
      if a.cancelled then Solo.run script cancelAt polls ⟨s.now, state, a⟩
      else match (Solo.ahead ⟨s.now, state, a⟩ cancelAt).min? with
        | none => none
        | some t => Solo.run script cancelAt polls ⟨t, state, a⟩

def solo (script : Script) (limit : Duration) (preCancelled : Bool) (cancelAt : Option Nat) :
    Option SoloEnd :=
  Solo.run script cancelAt 5 ⟨0, .fresh, .new limit preCancelled⟩

end BoundedWorker
