import SiteBroker.Proofs.Transaction.Packets

/-! Tasks and packets that come to one transaction: a task has the same effect whether it comes
before a packet or after it. -/

namespace SiteBroker

namespace Job

theorem timestamp_advance (job : Job) (t : Instant) :
    (job.advance t).timestamp = max t job.timestamp := by
  unfold advance
  rw [Instant.max_def]
  by_cases h : job.timestamp < t
  · simp [h, Instant.not_le.mpr h]
  · simp [h, Instant.not_lt.mp h]

theorem timestamp_putTask {job : Job} {u : TaskRecord} (h : job.tasks.covers u = false) :
    (job.putTask u).timestamp = max u.timestamp job.timestamp := by
  rw [← timestamp_advance]
  simp [putTask, h, advance]

theorem timestamp_of_ofPacket {p : Packet} {l : TaskList} {job : Job}
    (h : ofPacket p l = .ok job) :
    job.timestamp = l.latest?.elim (packetTime p) (max · (packetTime p)) := by
  unfold ofPacket at h
  split at h
  · cases h
  · obtain ⟨⟩ := h
    dsimp only
    cases l.latest? <;> rfl

theorem ext {job job' : Job} (hp : job.packet = job'.packet)
    (ht : job.timestamp = job'.timestamp) (hl : job.tasks = job'.tasks)
    (hg : job.progress = job'.progress) : job = job' := by
  obtain ⟨p, n, t, l, g, h⟩ := job
  obtain ⟨p', n', t', l', g', h'⟩ := job'
  cases hp
  cases ht
  cases hl
  cases hg
  have hn : n = n' := Option.some.inj (h.symm.trans h')
  subst hn
  rfl

/-- A job set up with a task is the job that took in the task later, its time included. -/
theorem ofPacket_put (p : Packet) (l : TaskList) (task : TaskRecord) :
    ofPacket p (l.put task) = (ofPacket p l).map (·.putTask task) := by
  cases hr : p.header.recordId with
  | none =>
    have herr : ∀ l, ofPacket p l = .error (.missing ["packet_rec_id"]) := by
      intro l
      unfold ofPacket
      split
      · rfl
      · next hn => rw [hr] at hn; cases hn
    rw [herr, herr]
    rfl
  | some n =>
    obtain ⟨job, hjob, hp, hl, hg⟩ := ofPacket_eq hr l
    obtain ⟨job', hjob', hp', hl', hg'⟩ := ofPacket_eq hr (l.put task)
    rw [hjob, hjob']
    refine congrArg Except.ok (ext ?_ ?_ ?_ ?_)
    · rw [packet_putTask, hp, hp']
    · have ht := timestamp_of_ofPacket hjob
      have ht' := timestamp_of_ofPacket hjob'
      cases hc : l.covers task with
      | true =>
        have hput : l.put task = l := by simp [TaskList.put, hc]
        simp [putTask, hl, hc, ht, ht', hput]
      | false =>
        have hnews : job.tasks.covers task = false := by rwa [hl]
        rw [timestamp_putTask hnews, ht, ht', TaskList.latest?_put hc]
        cases l.latest? with
        | none => rfl
        | some m =>
          show max (max m task.timestamp) (packetTime p) =
            max task.timestamp (max m (packetTime p))
          ac_rfl
    · rw [tasks_putTask, hl, hl']
    · rw [progress_putTask, hg, hg']

end Job

namespace Transaction

variable {t : Transaction}

theorem getElem?_retired_of_job (hs : t.Sound) {job : Job} (hj : t.job? = some job) (k : String) :
    t.retired[k]? = if job.packetId = k then (if job.tasks.isEmpty then none else some job.tasks)
      else t.parked[k]? := by
  have hnone := hs.apart hj
  by_cases he : job.tasks.isEmpty = true
  · by_cases hk : job.packetId = k
    · subst hk
      simp [retired, hj, he, hnone]
    · simp [retired, hj, he, hk]
  · simp [retired, hj, he, Std.ExtTreeMap.getElem?_insert, Std.ExtTreeMap.getD_eq_getD_getElem?,
      hnone]

theorem retired_of_no_job (h : t.job? = none) : t.retired = t.parked := by
  simp [retired, h]

/-- Whether a task comes before the job is done with or after makes no difference to the tasks
that are then set aside. -/
theorem retired_putTask (hs : t.Sound) (task : TaskRecord) :
    (t.putTask task).retired = (t.retired.insert task.keys.packetId
      ((t.retired.getD task.keys.packetId ∅).put task)) := by
  refine Std.ExtTreeMap.ext_getElem? fun {k} => ?_
  rw [Std.ExtTreeMap.getElem?_insert, Std.ExtTreeMap.getD_eq_getD_getElem?]
  simp only [Std.LawfulEqCmp.compare_eq_iff_eq]
  have hs' := hs.putTask task
  rcases t.putTask_cases task with ⟨job, hj, hp, he⟩ | ⟨hne, he⟩
  · rw [he] at hs' ⊢
    have hj' : (t.mapJob (·.putTask task)).job? = some (job.putTask task) := by simp [hj]
    rw [getElem?_retired_of_job hs' hj', getElem?_retired_of_job hs hj,
      getElem?_retired_of_job hs hj, Job.packetId_putTask, hp, if_pos rfl, parked_mapJob,
      Job.tasks_putTask, TaskList.isEmpty_put]
    have hget : (if job.tasks.isEmpty then none else some job.tasks).getD ∅ = job.tasks := by
      split
      · next hl => exact (TaskList.eq_empty hl).symm
      · rfl
    by_cases hk : task.keys.packetId = k
    · simp [hk, hget]
    · simp [hk]
  · rw [he] at hs' ⊢
    cases hj : t.job? with
    | none =>
      rw [retired_of_no_job (t := t.park task) hj, retired_of_no_job hj, parked_park,
        Std.ExtTreeMap.getD_eq_getD_getElem?]
    | some job =>
      have hx := hne job hj
      rw [getElem?_retired_of_job (t := t.park task) hs' hj, getElem?_retired_of_job hs hj,
        getElem?_retired_of_job hs hj, if_neg hx, parked_park, Std.ExtTreeMap.getD_eq_getD_getElem?]
      by_cases hk : job.packetId = k
      · subst hk
        simp [Ne.symm hx]
      · simp [hk]

theorem putTask_of_job {job : Job} {task : TaskRecord} (hj : t.job? = some job)
    (hp : job.packetId = task.keys.packetId) : t.putTask task = t.mapJob (·.putTask task) := by
  simp [putTask, hj, hp]

theorem putTask_of_ne {task : TaskRecord}
    (h : ∀ job, t.job? = some job → job.packetId ≠ task.keys.packetId) :
    t.putTask task = t.park task := by
  rcases t.putTask_cases task with ⟨job, hj, hp, -⟩ | ⟨-, he⟩
  · exact absurd hp (h job hj)
  · exact he

theorem packet?_putTask (task : TaskRecord) : (t.putTask task).packet? = t.packet? := by
  rcases t.putTask_cases task with ⟨job, hj, hp, he⟩ | ⟨hne, he⟩ <;> rw [he]
  · exact packet?_mapJob fun job _ => job.packet_putTask task
  · rfl

theorem timer?_putTask (task : TaskRecord) : (t.putTask task).timer? = t.timer? := by
  rcases t.putTask_cases task with ⟨job, hj, hp, he⟩ | ⟨hne, he⟩ <;> rw [he]
  · obtain ⟨timer, hh⟩ := held_of_job? hj
    simp [mapJob, timer?, hh]
  · rfl

theorem isOutgoing_putTask (task : TaskRecord) : (t.putTask task).isOutgoing = t.isOutgoing := by
  rw [Bool.eq_iff_iff, isOutgoing_iff, isOutgoing_iff, packet?_putTask]
  rcases t.putTask_cases task with ⟨job, hj, hp, he⟩ | ⟨hne, he⟩ <;> rw [he]
  · simp
  · rfl

theorem rearm_mapJob (f : Job → Job) (waits : WaitTimes) (base : Instant) (c : DelayClass) :
    (t.mapJob f).rearm waits base c = (t.rearm waits base c).mapJob f := by
  obtain ⟨id, held, parked⟩ := t
  rcases held with _ | ⟨job | ⟨reply, acknowledged⟩, timer⟩ <;> rfl

/-- A task leaves the timer alone, and a timer set anew the tasks. -/
theorem rearm_putTask (task : TaskRecord) (waits : WaitTimes) (base : Instant) (c : DelayClass) :
    (t.putTask task).rearm waits base c = (t.rearm waits base c).putTask task := by
  have hjob : (t.rearm waits base c).job? = t.job? := (t.alike_rearm waits base c).job
  rcases t.putTask_cases task with ⟨job, hj, hp, he⟩ | ⟨hne, he⟩
  · rw [he, putTask_of_job (hjob.trans hj) hp, rearm_mapJob]
  · rw [he, putTask_of_ne (hjob ▸ hne)]
    rfl

theorem acknowledge_of_job {job : Job} (hj : t.job? = some job) (waits : WaitTimes)
    (query : Instant) : t.acknowledge waits query = t := by
  obtain ⟨timer, hh⟩ := held_of_job? hj
  simp [acknowledge, hh]

theorem acknowledge_park (task : TaskRecord) (waits : WaitTimes) (query : Instant) :
    (t.park task).acknowledge waits query = (t.acknowledge waits query).park task := by
  obtain ⟨id, held, parked⟩ := t
  rcases held with _ | ⟨job | ⟨reply, _ | _⟩, timer⟩ <;> rfl

theorem acknowledge_putTask (task : TaskRecord) (waits : WaitTimes) (query : Instant) :
    (t.putTask task).acknowledge waits query = (t.acknowledge waits query).putTask task := by
  rcases t.putTask_cases task with ⟨job, hj, hp, he⟩ | ⟨hne, he⟩
  · have hj' : (t.putTask task).job? = some (job.putTask task) := by rw [he]; simp [hj]
    rw [acknowledge_of_job hj', acknowledge_of_job hj]
  · have hjob : (t.acknowledge waits query).job? = t.job? := (t.alike_acknowledge waits query).job
    rw [he, putTask_of_ne (hjob ▸ hne), acknowledge_park]

theorem holdReply_putTask (hs : t.Sound) (task : TaskRecord) (now : Instant) (p : Packet) :
    (t.putTask task).holdReply now p = (t.holdReply now p).putTask task := by
  have hholds : (t.putTask task).holdsReply p = t.holdsReply p := by
    rw [holdsReply, holdsReply, isOutgoing_putTask, packet?_putTask]
  unfold holdReply
  rw [hholds]
  split
  · rfl
  · rw [retired_putTask hs, id_putTask]
    rfl

theorem accept_of_valid {p : Packet} (h : p.validate = .ok ()) (waits : WaitTimes)
    (query : Instant) :
    t.accept waits query p = (Job.ofPacket p (t.retired.getD p.packetId ∅)).map fun job =>
      { t with
        held := some ⟨.incoming job, Timer.set waits query .human⟩
        parked := t.retired.erase p.packetId } := by
  unfold accept
  rw [h]
  rfl

/-- A packet that is accepted finds the same tasks whether the last of them came before it or
after. -/
theorem accept_putTask (hs : t.Sound) (task : TaskRecord) (waits : WaitTimes) (query : Instant)
    (p : Packet) :
    (t.putTask task).accept waits query p = (t.accept waits query p).map (·.putTask task) := by
  cases hv : p.validate with
  | error e =>
    rw [accept_error hv, accept_error hv]
    rfl
  | ok _ =>
    obtain ⟨n, hn⟩ := Packet.recordId_of_validate hv
    obtain ⟨job, hjob, hpacket, -, -⟩ := Job.ofPacket_eq hn (t.retired.getD p.packetId ∅)
    rw [accept_of_valid hv, accept_of_valid hv, retired_putTask hs, id_putTask, hjob]
    by_cases hp : p.packetId = task.keys.packetId
    · rw [← hp, Std.ExtTreeMap.getD_insert_self, Job.ofPacket_put, hjob]
      refine congrArg Except.ok ?_
      have hid : job.packetId = task.keys.packetId := by rw [Job.packetId, hpacket, hp]
      dsimp only
      rw [putTask_of_job rfl hid, mapJob]
      refine congrArg (Transaction.mk _ _) (Std.ExtTreeMap.ext_getElem? fun {k} => ?_)
      by_cases hk : p.packetId = k <;>
        simp [hk, Std.ExtTreeMap.getElem?_erase, Std.ExtTreeMap.getElem?_insert]
    · have hget : (t.retired.insert task.keys.packetId
          ((t.retired.getD task.keys.packetId ∅).put task)).getD p.packetId ∅ =
            t.retired.getD p.packetId ∅ := by
        simp [Std.ExtTreeMap.getD_insert, Ne.symm hp]
      rw [hget, hjob]
      refine congrArg Except.ok ?_
      have hne : job.packetId ≠ task.keys.packetId := by rwa [Job.packetId, hpacket]
      dsimp only
      rw [putTask_of_ne (by rintro job' ⟨⟩; exact hne), park]
      refine congrArg (Transaction.mk _ _) (Std.ExtTreeMap.ext_getElem? fun {k} => ?_)
      have herase : (t.retired.erase p.packetId).getD task.keys.packetId ∅ =
          t.retired.getD task.keys.packetId ∅ := by
        simp [Std.ExtTreeMap.getD_erase, hp]
      dsimp only
      rw [herase]
      by_cases hk : p.packetId = k
      · subst hk
        simp [Ne.symm hp]
      · simp [hk, Std.ExtTreeMap.getElem?_erase, Std.ExtTreeMap.getElem?_insert]

theorem receive_of_held {p : Packet} (he : ¬ t.Echoed p) (hr : t.Repeated p) {timer : Timer}
    (ht : t.timer? = some timer) (waits : WaitTimes) (query : Instant) :
    t.receive waits query p = .ok
      (if timer.target < query then t.rearm waits query .human else t, .duplicate) := by
  obtain ⟨q, hq, hs⟩ := hr
  obtain ⟨held, hh, rfl⟩ := held_of_packet? hq
  have htimer : held.timer = timer := by simpa [timer?, hh] using ht
  have hne : ¬ (t.isOutgoing = true ∧ p.isEchoOf held.content.packet = true) :=
    fun h => he ⟨h.1, _, hq, h.2⟩
  simp only [receive, hh, Bool.and_eq_true, hne, if_false, hs, if_true, htimer]

theorem timer?_of_packet? {q : Packet} (h : t.packet? = some q) :
    ∃ timer, t.timer? = some timer := by
  obtain ⟨held, hh, -⟩ := held_of_packet? h
  exact ⟨held.timer, by simp [timer?, hh]⟩

/-- A task and a packet leave the same transaction behind and the packet becomes the same,
whichever of them comes first. -/
theorem receive_putTask (hs : t.Sound) (task : TaskRecord) (waits : WaitTimes) (query : Instant)
    (p : Packet) :
    (t.putTask task).receive waits query p =
      (t.receive waits query p).map fun (t', disposition) => (t'.putTask task, disposition) := by
  have hecho : (t.putTask task).Echoed p ↔ t.Echoed p := by
    rw [Echoed, Echoed, isOutgoing_putTask, packet?_putTask]
  have hrepeat : (t.putTask task).Repeated p ↔ t.Repeated p := by
    rw [Repeated, Repeated, packet?_putTask]
  by_cases he : t.Echoed p
  · rw [receive_of_echoed he, receive_of_echoed (hecho.mpr he), acknowledge_putTask]
    rfl
  · by_cases hr : t.Repeated p
    · have ⟨q, hq, _⟩ := hr
      obtain ⟨timer, ht⟩ := timer?_of_packet? hq
      rw [receive_of_held he hr ht, receive_of_held (hecho.not.mpr he) (hrepeat.mpr hr)
        ((timer?_putTask task).trans ht)]
      refine congrArg (fun t => Except.ok (t, Disposition.duplicate)) ?_
      split
      · exact rearm_putTask task waits query .human
      · rfl
    · rw [receive_of_new he hr, receive_of_new (hecho.not.mpr he) (hrepeat.not.mpr hr),
        accept_putTask hs]
      cases t.accept waits query p <;> rfl

/-- What a transaction makes of a packet that does not close it, an invalid one included. -/
def deliver (t : Transaction) (waits : WaitTimes) (query : Instant) (p : Packet) :
    Transaction × Disposition :=
  match t.receive waits query p with
  | .ok result => result
  | .error e => (t.holdReply query (p.failureReply e.message), .rejected e.message)

theorem deliver_putTask (hs : t.Sound) (task : TaskRecord) (waits : WaitTimes) (query : Instant)
    (p : Packet) :
    (t.putTask task).deliver waits query p =
      ((t.deliver waits query p).1.putTask task, (t.deliver waits query p).2) := by
  unfold deliver
  rw [receive_putTask hs]
  cases t.receive waits query p with
  | ok result => rfl
  | error e => exact congrArg (·, _) (holdReply_putTask hs task query _)

end Transaction

end SiteBroker
