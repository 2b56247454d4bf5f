import SiteBroker.Office

/-! The broker: it asks both sides for news in turn, works on what came in, sends replies, and
decides how long to wait for more. -/

namespace SiteBroker

/-- What stays the same while the broker runs. -/
structure Setup (σ : Type) where
  siteName : String
  services : Services σ
  registry : Registry σ
  localWaits : WaitTimes

/-- The state of the broker. -/
structure Broker (σ : Type) where
  office : Office σ
  /-- The time of the newest task seen. -/
  taskCursor : Option Instant := none
  /-- When the last listing of packets that was taken in completely was asked for. -/
  packetCursor : Option Instant := none
  /-- The seconds of the last wait. -/
  previousWait : Nat := 0

/-- What the broker does. What it did before an error stays done. -/
abbrev Brokerage (σ α : Type) : Type := EStateM BrokerError (Broker σ) α

namespace Broker

variable {σ : Type} (setup : Setup σ)

def docket (b : Broker σ) : Docket := b.office.docket

def setDocket (b : Broker σ) (docket : Docket) : Broker σ :=
  { b with office := { b.office with docket } }

/-- Runs a call in the world of the broker. -/
def outside {α : Type} (x : EStateM ServiceError (World σ) α) : Brokerage σ α := fun b =>
  match x b.office.world with
  | .ok a world => .ok a { b with office := { b.office with world } }
  | .error e world => .error (.service e) { b with office := { b.office with world } }

def call (c : Call) : Brokerage σ c.Answer := outside (setup.services.call c)

def now : Brokerage σ Instant := outside setup.services.now

def purge (id : TransactionId) : Brokerage σ Unit :=
  modify fun b => { b with office := b.office.purge id }

/-- The later of two times of which either may be missing. -/
def later? : Option Instant → Option Instant → Option Instant
  | some a, some b => some (max a b)
  | a, none => a
  | none, b => b

/-- Fetches the tasks that changed, waiting up to some seconds for one. Returns how many
transactions they changed. -/
def loadTasks (wait : Nat) : Brokerage σ Nat := do
  let since := (← get).taskCursor
  let tasks : List TaskRecord ← call setup (.getTasks since.isNone wait since)
  modifyGet fun b =>
    let (docket, changed) := b.docket.putTasks tasks
    (changed.size,
      { b.setDocket docket with
        taskCursor := later? b.taskCursor (tasks.map (·.timestamp)).max? })

/-- Ends a transaction that the remote side closed. -/
def complete (id : TransactionId) : Brokerage σ Unit := do
  call setup (.clear id)
  purge id

/-- Takes in the packets of a listing that are for this site. Returns how many are new work. -/
def receiveAll (query : Instant) : List Packet → Brokerage σ Nat
  | [] => return 0
  | p :: rest => do
    if p.isAddressedTo setup.siteName then
      let disposition ← modifyGet fun b =>
        let (docket, disposition) := b.docket.receive query p
        (disposition, b.setDocket docket)
      if disposition = .completed then complete setup p.transactionId
      let accepted ← receiveAll query rest
      return if disposition = .accepted then accepted + 1 else accepted
    else receiveAll query rest

/-- Drops the transactions that the remote side does not list and that are known from tasks
alone. -/
def purgeTaskOnly : Brokerage σ Unit :=
  modify fun b => { b with office := b.docket.taskOnly.foldl Office.purge b.office }

/-- Lists the packets that changed since the last listing and takes them in. Returns how many are
new work. -/
def loadPackets : Brokerage σ Nat := do
  let query ← now setup
  let since := (← get).packetCursor
  let packets : List Packet ← call setup (.listPackets since)
  let accepted ← receiveAll setup query packets
  purgeTaskOnly
  modify fun b => { b.setDocket (b.docket.refresh query) with packetCursor := some query }
  return accepted

/-- Works on all jobs. Returns the replies. -/
def servePackets : Brokerage σ (List Packet) := fun b =>
  match Office.serve setup.services setup.registry b.office with
  | .ok replies office => .ok replies { b with office }
  | .error e office => .error e { b with office }

/-- Sends packets. One that expects no reply ends its transaction. Returns how many were sent. -/
def sendAll : List Packet → Brokerage σ Nat
  | [] => return 0
  | p :: rest => do
    call setup (.sendPacket p)
    if !p.expectsReply then purge p.transactionId
    let sent ← sendAll rest
    return sent + 1

/-- Sends the replies that are due. -/
def flush : Brokerage σ Nat := do
  let now ← now setup
  let due ← modifyGet fun b => (b.docket.due now, b.setDocket (b.docket.afterDue now))
  sendAll setup due

/-- One pass without waiting. -/
def runOnce : Brokerage σ Unit := do
  let _ ← loadTasks setup 0
  let _ ← loadPackets setup
  let _ ← servePackets setup
  let _ ← flush setup

/-- When packets are to be listed next. -/
def remoteTarget (b : Broker σ) (now : Instant) : Instant :=
  match b.packetCursor with
  | none => now
  | some last => b.docket.target last

/-- When tasks are next expected to change. -/
def localTarget (b : Broker σ) (now : Instant) : Instant :=
  (Timer.set setup.localWaits now b.docket.expected.delayClass).target

/-- The side to wait for and the seconds to wait. The wait grows step by step, so that a burst of
activity is followed closely. -/
def waitAt (b : Broker σ) (now : Instant) : Side × Nat :=
  let remote := b.remoteTarget now
  let raw := now.secondsUntil remote
  let side := if b.localTarget setup now ≤ remote then .local else .remote
  (side, if raw = 0 then 0 else rampWait b.previousWait raw)

def nextWait : Brokerage σ (Side × Nat) := do
  let now ← now setup
  modifyGet fun b =>
    let (side, wait) := b.waitAt setup now
    ((side, wait), { b with previousWait := wait })

/-- Waits without a call. -/
def sleep (seconds : Nat) : Brokerage σ Unit := modify fun b =>
  { b with office := { b.office with
      world := setup.services.clock.sleep (1000 * seconds) b.office.world } }

/-- Waits for the side that is expected to have news first, and takes in its tasks. -/
def await : Brokerage σ Unit := do
  let (side, wait) ← nextWait setup
  match side with
  | .local =>
    let _ ← loadTasks setup wait
  | .remote =>
    if 0 < wait then sleep setup wait
    let _ ← loadTasks setup 0

/-- One cycle: wait, list packets if that is due, work, and send. -/
def runCycle : Brokerage σ Unit := do
  await setup
  let now ← now setup
  if (← get).remoteTarget now ≤ now then
    let _ ← loadPackets setup
  let _ ← servePackets setup
  let _ ← flush setup

/-- Some cycles, up to the first error. -/
def runCycles : Nat → Brokerage σ Unit
  | 0 => return ()
  | n + 1 => do
    runCycle setup
    runCycles n

/-- Some cycles, up to the first error that waiting cannot mend. -/
def runPersistently : Nat → Brokerage σ Unit
  | 0 => return ()
  | n + 1 => fun b =>
    match runCycle setup b with
    | .ok () b => runPersistently n b
    | .error e b => if e.isRestartable then runPersistently n b else .error e b

end Broker

end SiteBroker
