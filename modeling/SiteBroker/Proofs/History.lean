import SiteBroker.Desk
import SiteBroker.Proofs.Calls
import SiteBroker.Proofs.Holding

/-! What a broker does as a history of deeds: the calls that it makes with what comes of them, the
packets that it takes in, and what each of them means for the docket. -/

namespace SiteBroker

/-- What an answer means for the docket: tasks come in, a task that was submitted is recorded in its
job, and a packet that was sent and expects no reply ends its transaction. -/
def Exchange.moves : Exchange → List Docket.Move
  | ⟨.getTasks .., .ok tasks⟩ => [.tell tasks]
  | ⟨.submit request, .ok t⟩ => [.record request.keys.transactionId t]
  | ⟨.sendPacket p, .ok _⟩ => if p.expectsReply then [] else [.purge p.transactionId]
  | _ => []

/-- One deed of a broker. -/
inductive Deed where
  | called (x : Exchange)
  /-- A packet that was listed is taken in. -/
  | took (query : Instant) (p : Packet)
  /-- A packet that was listed closes its transaction. The local service is called to drop its
  records, and if it does so the transaction is dropped. -/
  | closed (p : Packet) (outcome : Except ServiceError Unit)
  /-- The transactions known from tasks alone are dropped. -/
  | droppedTaskOnly
  | progressed (id : TransactionId) (p : Progress)
  | replied (now : Instant) (p : Packet)
  /-- The replies that are due are taken for sending. -/
  | collected (now : Instant)
  | refreshed (query : Instant)

namespace Deed

def moves : Deed → List Docket.Move
  | called x => x.moves
  | took query p => [.receive query p]
  | closed p (.ok _) => [.purge p.transactionId]
  | closed _ (.error _) => []
  | droppedTaskOnly => [.purgeTaskOnly]
  | progressed id p => [.progress id p]
  | replied now p => [.reply now p]
  | collected now => [.send now]
  | refreshed query => [.refresh query]

def exchange? : Deed → Option Exchange
  | called x => some x
  | closed p outcome => some ⟨.clear p.transactionId, outcome⟩
  | _ => none

def opens (e : Deed) : Bool := e.moves.any (·.opens)

def drops (e : Deed) : Bool := e.moves.any (·.drops)

theorem moves_sendPacket (p : Packet) (u : (Call.sendPacket p).Answer) :
    (called ⟨.sendPacket p, .ok u⟩).moves =
      if p.expectsReply then [] else [.purge p.transactionId] := rfl

end Deed

/-- What a broker goes by: its docket, and the calls that it has made. -/
structure Situation where
  docket : Docket
  calls : List Exchange

namespace Situation

variable {a b c : Situation} {e : Deed} {history history' : List Deed}

def start (waits : WaitTimes) : Situation := ⟨{ waits }, []⟩

def after (a : Situation) (e : Deed) : Situation :=
  ⟨a.docket.performAll e.moves, a.calls ++ e.exchange?.toList⟩

def afterAll (a : Situation) (history : List Deed) : Situation := history.foldl after a

def Listed (a : Situation) (p : Packet) : Prop :=
  ∃ since, ∃ packets : List Packet, ⟨.listPackets since, .ok packets⟩ ∈ a.calls ∧ p ∈ packets

/-- What has to be so for a deed: a task is submitted for a job that does not have it or has it to
be submitted again, and packets that are taken in were listed. -/
def Allows (a : Situation) : Deed → Prop
  | .called ⟨.submit request, _⟩ => ∃ job, a.docket.job? request.keys.transactionId = some job ∧
      job.packetId = request.keys.packetId ∧
      (job.tasks.get? request.taskName).all (·.isOpen) = true
  | .took _ p => a.Listed p
  | .closed p _ => a.Listed p ∧ p.type.closes = true
  | _ => True

/-- Each deed of the history is allowed at its turn. -/
def Lawful (a : Situation) : List Deed → Prop
  | [] => True
  | e :: history => a.Allows e ∧ (a.after e).Lawful history

@[simp] theorem afterAll_nil (a : Situation) : a.afterAll [] = a := rfl

@[simp] theorem afterAll_cons (a : Situation) (e : Deed) (history : List Deed) :
    a.afterAll (e :: history) = (a.after e).afterAll history := rfl

theorem afterAll_append (a : Situation) (history history' : List Deed) :
    a.afterAll (history ++ history') = (a.afterAll history).afterAll history' := List.foldl_append

theorem lawful_append :
    a.Lawful (history ++ history') ↔ a.Lawful history ∧ (a.afterAll history).Lawful history' := by
  induction history generalizing a with
  | nil => simp [Lawful]
  | cons e history ih => simp [Lawful, ih, and_assoc]

theorem sound_after (h : a.docket.Sound) (e : Deed) : (a.after e).docket.Sound :=
  h.performAll e.moves

theorem sound_afterAll (h : a.docket.Sound) (history : List Deed) :
    (a.afterAll history).docket.Sound := by
  induction history generalizing a with
  | nil => exact h
  | cons e history ih => exact ih (sound_after h e)

theorem calls_afterAll (a : Situation) (history : List Deed) :
    (a.afterAll history).calls = a.calls ++ history.filterMap Deed.exchange? := by
  induction history generalizing a with
  | nil => simp
  | cons e history ih =>
    rw [afterAll_cons, ih, after, List.append_assoc, List.filterMap_cons]
    cases e.exchange? <;> rfl

/-- Some lawful history of such deeds leads from one situation to the other. -/
def LeadsBy (P : Deed → Prop) (a b : Situation) : Prop :=
  ∃ history, a.Lawful history ∧ a.afterAll history = b ∧ ∀ e ∈ history, P e

namespace LeadsBy

variable {P : Deed → Prop}

theorem refl (P : Deed → Prop) (a : Situation) : a.LeadsBy P a := ⟨[], trivial, rfl, by simp⟩

theorem trans (hab : a.LeadsBy P b) (hbc : b.LeadsBy P c) : a.LeadsBy P c := by
  obtain ⟨history, hl, rfl, hp⟩ := hab
  obtain ⟨history', hl', rfl, hp'⟩ := hbc
  exact ⟨history ++ history', lawful_append.mpr ⟨hl, hl'⟩, afterAll_append a history history',
    List.forall_mem_append.mpr ⟨hp, hp'⟩⟩

theorem of_deed (h : a.Allows e) (hp : P e) (hd : b.docket = a.docket.performAll e.moves)
    (hc : b.calls = a.calls ++ e.exchange?.toList) : a.LeadsBy P b := by
  refine ⟨[e], ⟨h, trivial⟩, ?_, List.forall_mem_singleton.mpr hp⟩
  rw [afterAll_cons, afterAll_nil, after, ← hd, ← hc]

theorem of_silent_deed (h : a.Allows e) (hp : P e) (hx : e.exchange? = none)
    (hd : b.docket = a.docket.performAll e.moves) (hc : b.calls = a.calls) : a.LeadsBy P b :=
  .of_deed h hp hd (by simp [hx, hc])

end LeadsBy

/-- Some lawful history leads from one situation to the other. -/
def Leads (a b : Situation) : Prop := ∃ history, a.Lawful history ∧ a.afterAll history = b

theorem LeadsBy.leads {P : Deed → Prop} (h : a.LeadsBy P b) : a.Leads b := by
  obtain ⟨history, hl, he, -⟩ := h
  exact ⟨history, hl, he⟩

theorem Leads.refl (a : Situation) : a.Leads a := (LeadsBy.refl (fun _ => True) a).leads

theorem Leads.trans (hab : a.Leads b) (hbc : b.Leads c) : a.Leads c := by
  obtain ⟨history, hl, rfl⟩ := hab
  obtain ⟨history', hl', rfl⟩ := hbc
  exact ⟨history ++ history', lawful_append.mpr ⟨hl, hl'⟩, afterAll_append a history history'⟩

theorem Leads.sound (h : a.Leads b) (hs : a.docket.Sound) : b.docket.Sound := by
  obtain ⟨history, -, rfl⟩ := h
  exact sound_afterAll hs history

end Situation

end SiteBroker
