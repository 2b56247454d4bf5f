import SiteBroker.Instant

/-! When something is due: the delays of one side by what is waited for, and timers set by them. -/

namespace SiteBroker

/-- What is waited for. -/
inductive DelayClass where
  /-- An automatic response should arrive shortly. -/
  | imminent
  /-- Progress depends on a person. -/
  | human
  /-- Nothing is expected. -/
  | idle
  deriving DecidableEq

namespace DelayClass

def name : DelayClass → String
  | imminent => "imminent"
  | human => "human"
  | idle => "idle"

def ofName? (name : String) : Option DelayClass := [imminent, human, idle].find? (·.name == name)

end DelayClass

/-- The delays of one side. -/
structure WaitTimes where
  autoReply : Duration
  humanAction : Duration
  idle : Duration
  deriving DecidableEq

def WaitTimes.delay (waits : WaitTimes) : DelayClass → Duration
  | .imminent => waits.autoReply
  | .human => waits.humanAction
  | .idle => waits.idle

/-- A timer that was set at its base and is due at its target. -/
structure Timer where
  base : Instant
  target : Instant
  deriving DecidableEq

namespace Timer

/-- A timer that is due after the delay of a class. -/
def set (waits : WaitTimes) (base : Instant) (c : DelayClass) : Timer :=
  ⟨base, base.after (waits.delay c)⟩

/-- A timer that is due at once. -/
def immediate (now : Instant) : Timer := ⟨now, now⟩

end Timer

/-- A timer that may not have been set yet. It is due until it has been. -/
structure PollTimer where
  waits : WaitTimes
  base : Option Instant
  target : Option Instant
  deriving DecidableEq

namespace PollTimer

def new (waits : WaitTimes) : PollTimer := ⟨waits, none, none⟩

def ofTimer (waits : WaitTimes) (timer : Timer) : PollTimer :=
  ⟨waits, some timer.base, some timer.target⟩

def setTarget (timer : PollTimer) (target : Instant) : PollTimer :=
  { timer with target := some target }

def isDue (timer : PollTimer) (now : Instant) : Bool :=
  match timer.target with
  | none => true
  | some target => target ≤ now

/-- The whole seconds until the timer is due. -/
def waitSeconds (timer : PollTimer) (now : Instant) : Nat :=
  match timer.target with
  | none => 0
  | some target => now.secondsUntil target

end PollTimer

/-- The largest number of seconds a wait can be told in. -/
def waitLimit : Nat := UInt64.size - 1

/-- Limits the growth of a wait: a wait longer than the one before is at most twice as long, or
four seconds. -/
def rampWait (previous wanted : Nat) : Nat :=
  if previous < wanted then min wanted (max (min (2 * previous) waitLimit) 4) else wanted

end SiteBroker
