import SiteBroker.Proofs.Docket

/-! The docket as a ledger of tasks: however packets come and go, it keeps one record of each task
that it was told of. -/

namespace SiteBroker

/-- What a task is known by: the transaction and the packet it is for, and its name. -/
structure TaskId where
  transaction : TransactionId
  packet : String
  name : String
  deriving DecidableEq

def TaskRecord.id (t : TaskRecord) : TaskId := ⟨t.keys.transactionId, t.keys.packetId, t.name⟩

/-- The tasks on record, in one place for all transactions and packets. -/
abbrev Ledger : Type := TaskId → Option TaskRecord

namespace Ledger

def empty : Ledger := fun _ => none

/-- Enters a task. A record of it that is there already gives way to a newer one only. -/
def put (l : Ledger) (id : TaskId) (t : TaskRecord) : Ledger := fun k =>
  if k = id then some (t.overlay (l k)) else l k

/-- Strikes out the tasks of a transaction. -/
def drop (l : Ledger) (id : TransactionId) : Ledger := fun k =>
  if k.transaction = id then none else l k

/-- What a move means for the tasks. A task that is recorded in a job counts as one for the packet
of the job; packets, replies and timers mean nothing to the ledger. -/
def perform (d : Docket) (l : Ledger) : Docket.Move → Ledger
  | .tell tasks => tasks.foldl (fun l t => l.put t.id t) l
  | .record id t =>
    match d.job? id with
    | some job => l.put ⟨id, job.packetId, t.name⟩ t
    | none => l
  | .purge id => l.drop id
  | .purgeTaskOnly => d.taskOnly.foldl drop l
  | .receive .. | .reply .. | .send _ | .refresh _ | .progress .. => l

/-- The ledger that is kept along some moves of a docket. -/
def performAll (d : Docket) (l : Ledger) : List Docket.Move → Ledger
  | [] => l
  | m :: moves => performAll (d.perform m) (l.perform d m) moves

def run (waits : WaitTimes) (moves : List Docket.Move) : Ledger := performAll { waits } empty moves

theorem foldl_drop (l : Ledger) (ids : List TransactionId) (k : TaskId) :
    ids.foldl drop l k = if k.transaction ∈ ids then none else l k := by
  induction ids generalizing l with
  | nil => simp
  | cons id ids ih =>
    rw [List.foldl_cons, ih]
    by_cases hi : k.transaction ∈ ids
    · simp [hi]
    · simp [hi, drop]

end Ledger

namespace Transaction

variable {t : Transaction}

theorem lists_tasks (t : Transaction) (p : String) :
    Lists (t.record? p) ((t.tasks? p).elim [] (·.toList)) := by
  unfold record?
  cases t.tasks? p with
  | none => exact Lists.nil
  | some l => exact l.lists_toList

def packetIds (t : Transaction) : List String := (t.job?.map (·.packetId)).toList ++ t.parked.keys

theorem nodup_packetIds (hs : t.Sound) : t.packetIds.Nodup := by
  cases hj : t.job? with
  | none => simpa [packetIds, hj] using t.parked.nodup_keys
  | some job =>
    have hn : job.packetId ∉ t.parked := by
      rw [← Std.ExtTreeMap.isSome_getElem?_iff_mem, hs.apart hj]
      simp
    simpa [packetIds, hj, hn] using t.parked.nodup_keys

theorem mem_packetIds {p : String} (h : (t.tasks? p).isSome = true) : p ∈ t.packetIds := by
  cases hj : t.job? with
  | none => simpa [packetIds, tasks?, hj] using h
  | some job =>
    by_cases hp : job.packetId = p
    · simp [packetIds, hj, hp]
    · simpa [packetIds, tasks?, hj, hp, Ne.symm hp] using h

theorem flatMap_keys_parked (part : String → List TaskRecord)
    (h : ∀ p l, t.parked[p]? = some l → part p = l.toList) :
    t.parked.keys.flatMap part = t.parked.values.flatMap (·.toList) := by
  rw [← t.parked.map_fst_toList_eq_keys, values_eq_map_toList, List.flatMap_map, List.flatMap_map]
  refine List.flatMap_congr fun e he => ?_
  exact h e.1 e.2 (Std.ExtTreeMap.mem_toList_iff_getElem?_eq_some.mp he)

theorem allTasks_eq (hs : t.Sound) :
    t.allTasks = t.packetIds.flatMap fun p => (t.tasks? p).elim [] (·.toList) := by
  cases hj : t.job? with
  | none =>
    have h := flatMap_keys_parked (t := t) (fun p => (t.tasks? p).elim [] (·.toList))
      (fun p l hl => by simp [tasks?, hj, hl])
    simp [packetIds, allTasks, hj, h]
  | some job =>
    -- Nothing is set aside for the packet of the job, so its tasks are not hidden by the job's.
    have h := flatMap_keys_parked (t := t) (fun p => (t.tasks? p).elim [] (·.toList))
      (fun p l hl => by
        have hp : job.packetId ≠ p := fun hp => by
          rw [← hp, hs.apart hj] at hl
          cases hl
        simp [tasks?, hj, hp, hl])
    have hjob : (t.tasks? job.packetId).elim [] (·.toList) = job.tasks.toList := by
      simp [tasks?, hj]
    simp [packetIds, allTasks, hj, h, hjob]

theorem lists_allTasks (hs : t.Sound) :
    Lists (fun k : String × String => t.record? k.1 k.2) t.allTasks := by
  rw [allTasks_eq hs]
  refine Lists.flatMap Prod.mk (nodup_packetIds hs) (fun h => Prod.mk.inj h) ?_ t.lists_tasks
  intro k hk
  refine ⟨k.1, mem_packetIds ?_, k.2, rfl⟩
  unfold record? at hk
  cases ht : t.tasks? k.1 with
  | none => simp [ht] at hk
  | some l => rfl

end Transaction

namespace Docket

variable {d : Docket}

/-- The tasks that a docket has on record, wherever they are. -/
def ledger (d : Docket) : Ledger := fun k =>
  (d.get? k.transaction).bind (·.record? k.packet k.name)

theorem ledger_of_get? {id : TransactionId} {t : Transaction} (h : d.get? id = some t)
    (p n : String) : d.ledger ⟨id, p, n⟩ = t.record? p n := by
  simp [ledger, h]

theorem ledger_of_none {id : TransactionId} (h : d.get? id = none) (p n : String) :
    d.ledger ⟨id, p, n⟩ = none := by
  simp [ledger, h]

theorem lists_allTasks (hs : d.Sound) : Lists d.ledger d.allTasks := by
  have hall : d.allTasks = d.ids.flatMap fun id => (d.get? id).elim [] (·.allTasks) := by
    unfold allTasks toList ids
    rw [← d.transactions.map_fst_toList_eq_keys, values_eq_map_toList, List.flatMap_map,
      List.flatMap_map]
    refine List.flatMap_congr fun e he => ?_
    have hg : d.get? e.1 = some e.2 := Std.ExtTreeMap.mem_toList_iff_getElem?_eq_some.mp he
    rw [hg]
    rfl
  rw [hall]
  refine Lists.flatMap (fun id (k : String × String) => ⟨id, k.1, k.2⟩) d.transactions.nodup_keys
    ?_ ?_ ?_
  · intro id k id' k' h
    obtain ⟨h₁, h₂, h₃⟩ := TaskId.mk.inj h
    exact ⟨h₁, Prod.ext h₂ h₃⟩
  · intro k hk
    refine ⟨k.transaction, ?_, (k.packet, k.name), rfl⟩
    cases hg : d.get? k.transaction with
    | none => simp [ledger, hg] at hk
    | some t =>
      refine Std.ExtTreeMap.mem_keys.mpr (Std.ExtTreeMap.isSome_getElem?_iff_mem.mp ?_)
      exact Option.isSome_of_eq_some hg
  · intro id
    cases hg : d.get? id with
    | none =>
      simp only [ledger_of_none hg]
      exact Lists.nil
    | some t =>
      simp only [ledger_of_get? hg]
      exact Transaction.lists_allTasks (hs id t hg).2

theorem record?_transaction (id : TransactionId) (p n : String) :
    (d.transaction id).record? p n = d.ledger ⟨id, p, n⟩ := by
  unfold transaction ledger
  cases d.get? id <;> simp

theorem ledger_set (id : TransactionId) (t : Transaction) (k : TaskId) :
    (d.set id t).ledger k =
      if k.transaction = id then t.record? k.packet k.name else d.ledger k := by
  unfold ledger
  rw [get?_set]
  by_cases h : id = k.transaction
  · simp [h]
  · simp [h, Ne.symm h]

theorem ledger_set_of_same {id : TransactionId} {t : Transaction}
    (h : ∀ p n, t.record? p n = (d.transaction id).record? p n) :
    (d.set id t).ledger = d.ledger := by
  funext k
  rw [ledger_set]
  split
  · next he => rw [h, record?_transaction, ← he]
  · rfl

theorem ledger_mapAll {f : Transaction → Transaction} (hf : ∀ t, Transaction.Alike t (f t)) :
    (d.mapAll f).ledger = d.ledger := by
  funext k
  unfold ledger
  rw [get?_mapAll]
  cases d.get? k.transaction with
  | none => rfl
  | some t => exact (hf t).record?_eq k.packet k.name

theorem ledger_putTask (task : TaskRecord) :
    (d.putTask task).ledger = d.ledger.put task.id task := by
  funext k
  obtain ⟨i, p, n⟩ := k
  unfold putTask Ledger.put TaskRecord.id
  rw [ledger_set]
  simp only [Transaction.record?_putTask, record?_transaction, TaskId.mk.injEq]
  by_cases hi : i = task.keys.transactionId
  · simp [hi]
  · simp [hi]

theorem ledger_putTasks (tasks : List TaskRecord) :
    (d.putTasks tasks).1.ledger = tasks.foldl (fun l t => l.put t.id t) d.ledger := by
  rw [putTasks_fst]
  induction tasks generalizing d with
  | nil => rfl
  | cons task tasks ih => rw [List.foldl_cons, List.foldl_cons, ih, ledger_putTask]

theorem ledger_receive (hs : d.Sound) (query : Instant) (p : Packet) :
    (d.receive query p).1.ledger = d.ledger := by
  obtain ⟨-, ht⟩ := hs.transaction p.transactionId
  cases hc : p.type.closes with
  | true => rw [receive_of_closes hc]
  | false =>
    rcases d.receive_cases hc query with
      ⟨-, t', ha, he⟩ | ⟨-, -, t', ha, he⟩ | ⟨-, -, e, -, he⟩ | ⟨-, -, -, t', ha, he⟩ <;> rw [he]
    · exact ledger_set_of_same fun q n => ha.record?_eq q n
    · exact ledger_set_of_same fun q n => ha.record?_eq q n
    · exact ledger_set_of_same fun q n => Transaction.record?_holdReply ht query _ q n
    · exact ledger_set_of_same fun q n => ha.record?_eq ht q n

theorem ledger_holdReply (hs : d.Sound) (now : Instant) (p : Packet) :
    (d.holdReply now p).ledger = d.ledger :=
  ledger_set_of_same fun q n =>
    Transaction.record?_holdReply (hs.transaction p.transactionId).2 now p q n

theorem ledger_purge (id : TransactionId) : (d.purge id).ledger = d.ledger.drop id := by
  funext k
  unfold ledger Ledger.drop
  rw [get?_purge]
  by_cases h : id = k.transaction
  · simp [h]
  · simp [h, Ne.symm h]

theorem ledger_purgeAll (ids : List TransactionId) :
    (d.purgeAll ids).ledger = ids.foldl Ledger.drop d.ledger := by
  funext k
  rw [Ledger.foldl_drop]
  unfold ledger
  rw [get?_purgeAll]
  split <;> rfl

theorem ledger_mapJob_progress (id : TransactionId) (p : Progress) :
    (d.mapJob id ({ · with progress := p })).ledger = d.ledger := by
  funext k
  unfold ledger
  rw [get?_mapJob]
  split
  · cases d.get? k.transaction with
    | none => rfl
    | some t =>
      cases hj : t.job? with
      | none => rw [Option.map_some, Transaction.mapJob_of_no_job hj]
      | some job =>
        have hj' : (t.mapJob ({ · with progress := p })).job? =
            some { job with progress := p } := by simp [hj]
        simp only [Option.map_some, Option.bind_some, Transaction.record?_of_job? hj',
          Transaction.record?_of_job? hj, Transaction.parked_mapJob]
        rfl
  · rfl

theorem ledger_record (id : TransactionId) (task : TaskRecord) :
    (d.mapJob id (·.putTask task)).ledger = d.ledger.perform d (.record id task) := by
  funext k
  obtain ⟨i, p, n⟩ := k
  simp only [ledger, Ledger.perform]
  rw [get?_mapJob]
  cases hj : d.job? id with
  | none =>
    split
    · next he =>
      subst he
      cases hg : d.get? id with
      | none => simp [ledger, hg]
      | some t =>
        have hn : t.job? = none := by simpa [job?, hg] using hj
        rw [Option.map_some, Transaction.mapJob_of_no_job hn]
        simp [ledger, hg]
    · rfl
  | some job =>
    simp only [Ledger.put, TaskId.mk.injEq, ledger]
    by_cases he : i = id
    · subst he
      obtain ⟨t, hg, ht⟩ := Option.bind_eq_some_iff.mp hj
      simp [hg, Transaction.record?_mapJob_putTask ht]
    · simp [he, Ne.symm he]

theorem ledger_perform (hs : d.Sound) (m : Move) :
    (d.perform m).ledger = d.ledger.perform d m := by
  cases m with
  | tell tasks => exact ledger_putTasks tasks
  | receive query p => exact ledger_receive hs query p
  | reply now p => exact ledger_holdReply hs now p
  | send now => exact ledger_mapAll fun t => t.alike_afterDue d.waits now
  | refresh query => exact ledger_mapAll fun t => t.alike_refresh d.waits query
  | purge id => exact ledger_purge id
  | purgeTaskOnly => exact ledger_purgeAll d.taskOnly
  | record id task => exact ledger_record id task
  | progress id p => exact ledger_mapJob_progress id p

theorem ledger_performAll (hs : d.Sound) (moves : List Move) :
    (d.performAll moves).ledger = d.ledger.performAll d moves := by
  induction moves generalizing d with
  | nil => rfl
  | cons m moves ih => rw [performAll_cons, ih (hs.perform m), ledger_perform hs m]; rfl

theorem ledger_run (waits : WaitTimes) (moves : List Move) :
    (run waits moves).ledger = Ledger.run waits moves := by
  have h : ({ waits } : Docket).ledger = Ledger.empty := by
    funext k
    simp [ledger, get?, Ledger.empty]
  rw [run, ledger_performAll (sound_start waits), h]
  rfl

/-- The docket is the ledger kept along its moves: it lists each task of the ledger once, and under
each packet of a transaction those that the ledger has there. -/
theorem run_refines_ledger (waits : WaitTimes) (moves : List Move) :
    Lists (Ledger.run waits moves) (run waits moves).allTasks ∧
    (∀ id p, Lists (fun n => Ledger.run waits moves ⟨id, p, n⟩)
      ((((run waits moves).get? id).bind (·.tasks? p)).elim [] (·.toList))) ∧
    ∀ id p n, (((run waits moves).get? id).bind (·.tasks? p)).bind (·.get? n) =
      Ledger.run waits moves ⟨id, p, n⟩ := by
  rw [← ledger_run]
  refine ⟨lists_allTasks (sound_run waits moves), fun id p => ?_, fun id p n => ?_⟩
  · cases hg : (run waits moves).get? id with
    | none =>
      simp only [ledger_of_none hg]
      exact Lists.nil
    | some t =>
      simp only [ledger_of_get? hg]
      exact t.lists_tasks p
  · unfold ledger
    cases (run waits moves).get? id <;> rfl

end Docket

end SiteBroker
