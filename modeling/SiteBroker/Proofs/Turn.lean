import SiteBroker.Proofs.Outcomes
import SiteBroker.Proofs.Workflow

/-! The operations that all commands are made of, as the turns of a run, and the calls that are made
at each of them. -/

namespace SiteBroker

open Program

def Call.isWork : Call → Bool
  | lookup _ | submit _ | clear _ => true
  | getTasks .. | listPackets _ | sendPacket _ => false

namespace Desk

variable {σ : Type} {x y : Desk σ}

/-- From one desk to the other only calls of work were made. -/
def Works (x y : Desk σ) : Prop := x.world.Makes (·.isWork = true) y.world

theorem works_of_eq (hc : y.world.calls = x.world.calls) : Works x y := .of_eq hc

instance : IsPreorder (Desk σ) Works where
  refl _ := works_of_eq rfl
  trans _ _ _ := World.Makes.trans

theorem works_lookup (s : Services σ) (kind : LookupKind) (role : Option Role) (extra : Fields) :
    Goes Works (s.lookup kind role extra) := by
  intro x
  rcases s.lookup_cases kind role extra x with
    ⟨found, y, request, h, -, -, hc⟩ | ⟨e, y, h, -, hc | ⟨request, e', hc⟩⟩ <;> rw [h]
  · exact .of_call hc rfl
  · exact works_of_eq hc
  · exact .of_call hc rfl

theorem works_clear (s : Services σ) : Goes Works s.clear := by
  intro x
  rcases s.clear_cases x with ⟨y, h, -, hc⟩ | ⟨e, e', y, h, -, hc⟩ <;> rw [h] <;>
    exact .of_call hc rfl

theorem works_submit (s : Services σ) (operation : Operation) (name : String) (role : Option Role)
    (extra : Fields) : Goes Works (s.submit operation name role extra) := by
  intro x
  rcases s.submit_cases operation name role extra x with
    ⟨t, y, request, h, -, -, hc⟩ | ⟨e, y, h, -, hc | ⟨request, e', -, hc⟩⟩ <;> rw [h]
  · exact .of_call hc rfl
  · exact works_of_eq hc
  · exact .of_call hc rfl

theorem works_runTask (s : Services σ) (operation : Operation) (role : Option Role)
    (extra : Fields) : Goes Works (s.runTask operation role extra) := by
  intro x
  rcases s.runTask_cases operation role extra x with
    ⟨e, h⟩ | ⟨name, -, ⟨t, -, h⟩ | ⟨-, h⟩⟩ <;> rw [h]
  · exact refl_of Works x
  · exact goes_lift _ x
  · exact Goes.bind (works_submit s operation name role extra) (fun t => goes_lift t.settled) x

theorem upheld_works (s : Services σ) : Upheld s Works where
  lookup := works_lookup s
  clear := works_clear s
  runTask := works_runTask s
  setProgress _ _ := works_of_eq rfl

end Desk

namespace Office

variable {σ : Type} (s : Services σ)

def Works (o o' : Office σ) : Prop := o.world.Makes (·.isWork = true) o'.world

instance : IsPreorder (Office σ) Works where
  refl _ := .of_eq rfl
  trans _ _ _ := World.Makes.trans

theorem works_attend (x : Desk σ) : Desk.Works x (attend (Registry.catalog s) x).2 := by
  have h := Registry.goes_work (Desk.upheld_works s) x.job.packet.type x
  unfold attend
  revert h
  cases (Registry.catalog s).work x.job.packet.type x with
  | ok outcome y => cases outcome <;> exact id
  | error e y => exact id

theorem works_serve_one (id : TransactionId) (o : Office σ) :
    Works o (left (o.serveAll s (Registry.catalog s) [] [id])) := by
  rcases o.serve_one_outcomes s (Registry.catalog s) id with
    ⟨-, h⟩ | ⟨job, answer, desk, -, ha, hc, -⟩
  · rw [h]
    exact refl_of Works o
  · have hwork := works_attend s ⟨job, o.world⟩
    rw [ha] at hwork
    exact World.Makes.trans hwork (.of_eq hc)

theorem works_serveAll (ids : List TransactionId) (o : Office σ) (replies : List Packet) :
    Works o (left (o.serveAll s (Registry.catalog s) replies ids)) :=
  goes_serveAll s (Registry.catalog s) (works_serve_one s) ids o replies

end Office

namespace Broker

variable {σ : Type} (setup : Setup σ)

inductive Turn where
  | readClock
  | loadTasks (wait : Nat)
  | loadPackets
  | servePackets
  | flush
  | nextWait
  | sleep (seconds : Nat)

def turn (b : Broker σ) : Turn → Broker σ
  | .readClock => left (now setup b)
  | .loadTasks wait => left (loadTasks setup wait b)
  | .loadPackets => left (loadPackets setup b)
  | .servePackets => left (servePackets setup b)
  | .flush => left (flush setup b)
  | .nextWait => left (nextWait setup b)
  | .sleep seconds => left (sleep setup seconds b)

def turnAll (b : Broker σ) (turns : List Turn) : Broker σ := turns.foldl (turn setup) b

theorem turnAll_append (b : Broker σ) (turns turns' : List Turn) :
    turnAll setup b (turns ++ turns') = turnAll setup (turnAll setup b turns) turns' :=
  List.foldl_append

theorem turnAll_concat (b : Broker σ) (turns : List Turn) (t : Turn) :
    turnAll setup b (turns ++ [t]) = turn setup (turnAll setup b turns) t :=
  turnAll_append setup b turns [t]

theorem Upheld.turnAll {setup : Setup σ} {R : Broker σ → Broker σ → Prop} [IsPreorder (Broker σ) R]
    (hR : Upheld setup R) (b : Broker σ) (turns : List Turn) : R b (turnAll setup b turns) := by
  induction turns generalizing b with
  | nil => exact refl_of R b
  | cons t turns ih =>
    refine trans_of R ?_ (ih (turn setup b t))
    cases t with
    | readClock => exact hR.now b
    | loadTasks wait => exact hR.loadTasks wait b
    | loadPackets => exact hR.loadPackets b
    | servePackets => exact hR.servePackets b
    | flush => exact hR.flush b
    | nextWait => exact hR.nextWait b
    | sleep seconds => exact hR.sleep seconds b

def Reaches (b b' : Broker σ) : Prop := ∃ turns, turnAll setup b turns = b'

instance : IsPreorder (Broker σ) (Reaches setup) where
  refl _ := ⟨[], rfl⟩
  trans := by
    rintro b _ _ ⟨turns, rfl⟩ ⟨turns', rfl⟩
    exact ⟨turns ++ turns', turnAll_append setup b turns turns'⟩

theorem reaches_turn (t : Turn) (b : Broker σ) : Reaches setup b (turn setup b t) := ⟨[t], rfl⟩

theorem upheld_reaches : Upheld setup (Reaches setup) where
  now := reaches_turn setup .readClock
  loadTasks wait := reaches_turn setup (.loadTasks wait)
  loadPackets := reaches_turn setup .loadPackets
  servePackets := reaches_turn setup .servePackets
  flush := reaches_turn setup .flush
  nextWait := reaches_turn setup .nextWait
  sleep seconds := reaches_turn setup (.sleep seconds)

/-- However commands end, what they did is a series of turns. -/
theorem exists_turns (b : Broker σ) (commands : List Command) :
    ∃ turns, turnAll setup b turns = performAll setup b commands :=
  (upheld_reaches setup).performAll b commands

end Broker

end SiteBroker
