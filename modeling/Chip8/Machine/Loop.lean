import Chip8.Machine

namespace Chip8.Machine

-- Begins a loop, unless there is one already or the machine has halted.
def start (m : Machine) : Except Failure Machine :=
  if m.looping then .error .alreadyRunning
  else if m.halted then .error (.fault (.haltedBy m.fault))
  else .ok { m with looping := true }

-- What a step came to.
abbrev Attempt := Except Failure Entry

def attempt (m : Machine) (now : Float) : Attempt × Machine :=
  match m.step now with
  | .ok e m => (.ok e, m)
  | .error e m => (.error e, m)

-- Whoever makes a step.
inductive Party where
  | loop
  | host
deriving DecidableEq

def endLoop (m : Machine) (fault : Option Fault) : Machine :=
  { m with looping := false, loopFault := fault.or m.loopFault }

-- What a loop makes of its own step. A failure that is no fault ends the loop without a record.
def heed (m : Machine) : Attempt → Machine
  | .ok e => match e.fault with
    | some f => m.endLoop (some f)
    | none => m
  | .error (.fault f) => m.endLoop (some f)
  | .error _ => m.endLoop none

-- The turn of a party. A loop that has ended makes no step.
def turn (m : Machine) (now : Float) : Party → Option Attempt × Machine
  | .host =>
    let (a, m) := m.attempt now
    (some a, m)
  | .loop =>
    if m.looping then
      let (a, m) := m.attempt now
      (some a, m.heed a)
    else (none, m)

-- Turns in a given order, and the steps that were made in them.
def turns (m : Machine) (now : Float) : List Party → List (Party × Attempt) × Machine
  | [] => ([], m)
  | p :: rest =>
    let (a, m) := m.turn now p
    let (made, m) := m.turns now rest
    ((a.map (p, ·)).toList ++ made, m)

-- Turns of the loop for as long as it goes on, but no more than `limit`.
def loop (m : Machine) (now : Float) : (limit : Nat) → Machine
  | 0 => m
  | limit + 1 => if m.looping then (m.turn now .loop).2.loop now limit else m

theorem loop_of_not_looping {m : Machine} {now : Float} (h : m.looping = false) (limit : Nat) :
    m.loop now limit = m := by
  cases limit <;> simp [loop, h]

-- The loop is what its own turns make of the machine, one after another.
theorem turns_replicate_loop (m : Machine) (now : Float) (limit : Nat) :
    (m.turns now (List.replicate limit .loop)).2 = m.loop now limit := by
  induction limit generalizing m with
  | zero => rfl
  | succ limit ih =>
    rw [List.replicate_succ, turns]
    cases h : m.looping
    · have idle : m.turn now .loop = (none, m) := by simp [turn, h]
      rw [idle, ih, loop_of_not_looping h, loop_of_not_looping h]
    · simp only [loop, h, if_true]
      exact ih _

-- The longest time, in seconds, that a loop can pause for between its turns.
def longestPause : Float := 9223372036.854774

-- Whether a loop can make the pauses that a rate asks for. A rate that is not above zero asks for none. The answer is
-- approximate: a pause is shorter than its period by the time that the turn has taken, which is not counted here.
def canPause (rate : Float) : Bool :=
  !(0 < rate && longestPause < 1.0 / rate)

-- The most turns that a loop makes at a rate. Before its second turn it would have to pause.
def turnsAt (rate : Float) (limit : Nat) : Nat :=
  if canPause rate then limit else 1

-- The turns of a loop at a rate. One that cannot make its first pause breaks off there, without a fault of its own.
def loopAt (m : Machine) (now rate : Float) (limit : Nat) : Machine :=
  let m := m.loop now (turnsAt rate limit)
  if canPause rate then m else m.endLoop none

-- The turns that a loop makes in a second, at a given rate but never more than it has time for.
def turnsPerSecond (rate : Float) : Nat :=
  if rate < 100000 then rate.toUInt64.toNat else 100000

-- The turns before a host first looks at a loop. A loop that pauses after its turns is looked at in the first
-- pause, and one that does not is a two-hundredth of a second ahead.
def turnsAhead (perSecond : Nat) : Nat :=
  if perSecond ≤ 20000 then 1 else perSecond / 200

-- The turns of a loop until a host finds that so many have been made. The host looks twenty times a second.
def turnsUntil (rate : Float) (turns : Nat) : Nat :=
  let perSecond := turnsPerSecond rate
  let ahead := turnsAhead perSecond
  let looks := ((turns - ahead) * 20 + perSecond - 1) / perSecond
  max turns (ahead + looks * perSecond / 20)

theorem le_turnsUntil (rate : Float) (turns : Nat) : turns ≤ turnsUntil rate turns :=
  Nat.le_max_left _ _

-- A background loop from its start to its end, or for so many turns.
def runLoop (m : Machine) (now : Float) (limit : Nat) : Except Failure Machine :=
  m.start.map fun m => m.loop now limit

-- A background loop that does not get its first turn before the host has made `n` attempts.
def runLoopAfter (m : Machine) (now : Float) (n limit : Nat) :
    Except Failure (List (Party × Attempt) × Machine) :=
  m.start.map fun m =>
    let (made, m) := m.turns now (List.replicate n .host)
    (made, m.loop now limit)

end Chip8.Machine
