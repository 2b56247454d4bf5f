import SiteBroker.Proofs.Echo
import SiteBroker.Proofs.Transaction.Arrivals

/-! Tasks and packets come from two services that are asked in turn. Which of them is the faster
makes no difference: a docket does not show in which order a task and a packet came in. -/

namespace SiteBroker

namespace Docket

variable {d : Docket}

theorem transaction_set (id : TransactionId) (t : Transaction) (i : TransactionId) :
    (d.set id t).transaction i = if id = i then t else d.transaction i := by
  unfold transaction
  rw [get?_set]
  split <;> rfl

@[simp] theorem waits_set (id : TransactionId) (t : Transaction) : (d.set id t).waits = d.waits :=
  rfl

theorem set_set_self (id : TransactionId) (t t' : Transaction) :
    (d.set id t).set id t' = d.set id t' := by
  refine eq_of_get? rfl fun i => ?_
  simp only [get?_set]
  split <;> rfl

theorem set_set_comm {id id' : TransactionId} (h : id ≠ id') (t t' : Transaction) :
    (d.set id t).set id' t' = (d.set id' t').set id t := by
  refine eq_of_get? rfl fun i => ?_
  simp only [get?_set]
  by_cases hi : id = i
  · subst hi
    simp [Ne.symm h]
  · simp [hi]

theorem receive_eq_deliver {p : Packet} (hc : p.type.closes = false) (query : Instant) :
    d.receive query p =
      (d.set p.transactionId ((d.transaction p.transactionId).deliver d.waits query p).1,
        ((d.transaction p.transactionId).deliver d.waits query p).2) := by
  unfold receive Transaction.deliver
  rw [hc, if_neg Bool.false_ne_true]
  dsimp only
  cases (d.transaction p.transactionId).receive d.waits query p <;> rfl

/-- A task and a packet come to the same, whichever of them comes first. -/
theorem Sound.receive_putTask (hs : d.Sound) (task : TaskRecord) (query : Instant) (p : Packet) :
    (d.putTask task).receive query p =
      ((d.receive query p).1.putTask task, (d.receive query p).2) := by
  cases hc : p.type.closes with
  | true => rw [receive_of_closes hc, receive_of_closes hc]
  | false =>
    have hput : ∀ d : Docket, d.putTask task = d.set task.keys.transactionId
      ((d.transaction task.keys.transactionId).putTask task) := fun _ => rfl
    rw [receive_eq_deliver hc, receive_eq_deliver hc, hput, hput, transaction_set, transaction_set]
    simp only [waits_set]
    by_cases hid : p.transactionId = task.keys.transactionId
    · have ht := (hs.transaction task.keys.transactionId).2
      simp only [hid, if_true, Transaction.deliver_putTask ht, set_set_self]
    · simp only [hid, Ne.symm hid, if_false, set_set_comm (Ne.symm hid)]

/-- What comes in from outside: a task, or a packet that was listed at a time. -/
inductive Arrival where
  | task (task : TaskRecord)
  | packet (query : Instant) (p : Packet)

/-- A list of arrivals brings some tasks and some packets, both in their order. -/
inductive Merges : List TaskRecord → List (Instant × Packet) → List Arrival → Prop
  | nil : Merges [] [] []
  | task {task tasks packets arrivals} (rest : Merges tasks packets arrivals) :
    Merges (task :: tasks) packets (.task task :: arrivals)
  | packet {query p tasks packets arrivals} (rest : Merges tasks packets arrivals) :
    Merges tasks ((query, p) :: packets) (.packet query p :: arrivals)

/-- Takes in some arrivals, and tells what became of the packets among them. -/
def arriveAll (d : Docket) : List Arrival → Docket × List Disposition
  | [] => (d, [])
  | .task task :: rest => (d.putTask task).arriveAll rest
  | .packet query p :: rest =>
    let (d, disposition) := d.receive query p
    let (d, dispositions) := d.arriveAll rest
    (d, disposition :: dispositions)

theorem Sound.receive_tasks (hs : d.Sound) (tasks : List TaskRecord) (query : Instant)
    (p : Packet) :
    (tasks.foldl Docket.putTask d).receive query p =
      (tasks.foldl Docket.putTask (d.receive query p).1, (d.receive query p).2) := by
  induction tasks generalizing d with
  | nil => rfl
  | cons task tasks ih =>
    rw [List.foldl_cons, ih (hs.putTask task), hs.receive_putTask]
    rfl

/-- All tasks may as well come first. -/
theorem Merges.arriveAll_eq {tasks : List TaskRecord} {packets : List (Instant × Packet)}
    {arrivals : List Arrival} (h : Merges tasks packets arrivals) (hs : d.Sound) :
    d.arriveAll arrivals = (tasks.foldl putTask d).arriveAll
      (packets.map fun (query, p) => .packet query p) := by
  induction h generalizing d with
  | nil => rfl
  | task rest ih => exact ih (hs.putTask _)
  | @packet query p tasks packets arrivals rest ih =>
    have hrest := ih (hs.receive query p)
    simp only [arriveAll, List.map_cons, hs.receive_tasks, hrest]

/-- In whichever order some tasks and some packets came in, with the tasks in their own order and
the packets in theirs: the docket is the same and the same became of each packet. -/
theorem arrivals_commute (waits : WaitTimes) (moves : List Move) :
    (∀ task query p,
      ((run waits moves).putTask task).receive query p =
        (((run waits moves).receive query p).1.putTask task,
          ((run waits moves).receive query p).2)) ∧
    ∀ {tasks packets arrivals arrivals'}, Merges tasks packets arrivals →
      Merges tasks packets arrivals' →
      (run waits moves).arriveAll arrivals = (run waits moves).arriveAll arrivals' := by
  have hs := sound_run waits moves
  refine ⟨hs.receive_putTask, fun h h' => ?_⟩
  rw [h.arriveAll_eq hs, h'.arriveAll_eq hs]

/-- A task for the packet `projectEnd`. -/
def projectEndTask : TaskRecord where
  keys := ⟨"101", projectEnd.transactionId, projectEnd.packetId, projectEnd.type.name⟩
  name := "inactivate_project"
  state := .queued
  timestamp := .epoch
  products := []

theorem arrivals_commute_projectEnd :
    Merges [projectEndTask] [(.epoch, projectEnd)]
      [.task projectEndTask, .packet .epoch projectEnd] ∧
    Merges [projectEndTask] [(.epoch, projectEnd)]
      [.packet .epoch projectEnd, .task projectEndTask] ∧
    (run ⟨10000, 60000, 3600000⟩ []).arriveAll [.task projectEndTask, .packet .epoch projectEnd] =
      (run ⟨10000, 60000, 3600000⟩ []).arriveAll
        [.packet .epoch projectEnd, .task projectEndTask] := by
  have htask : Merges [projectEndTask] [(.epoch, projectEnd)]
      [.task projectEndTask, .packet .epoch projectEnd] := .task (.packet .nil)
  have hpacket : Merges [projectEndTask] [(.epoch, projectEnd)]
      [.packet .epoch projectEnd, .task projectEndTask] := .packet (.task .nil)
  exact ⟨htask, hpacket, (arrivals_commute ⟨10000, 60000, 3600000⟩ []).2 htask hpacket⟩

end Docket

end SiteBroker
