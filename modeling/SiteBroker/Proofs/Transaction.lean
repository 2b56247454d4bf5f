import SiteBroker.Proofs.TaskList
import SiteBroker.Transaction

/-! What the operations on a transaction do to the packet it holds and to the tasks it keeps,
whether these are with its job or set aside. -/

namespace SiteBroker

theorem Packet.recordId_of_validate {p : Packet} (h : p.validate = .ok ()) :
    ∃ n, p.header.recordId = some n := by
  cases hr : p.header.recordId with
  | some n => exact ⟨n, rfl⟩
  | none => simp [validate, missingFields, hr] at h

theorem Job.ofPacket_eq {p : Packet} {n : Int64} (h : p.header.recordId = some n)
    (tasks : TaskList) :
    ∃ job, Job.ofPacket p tasks = .ok job ∧ job.packet = p ∧ job.tasks = tasks ∧
      job.progress = {} := by
  unfold ofPacket
  split
  · next hn => rw [hn] at h; cases h
  · exact ⟨_, rfl, rfl, rfl, rfl⟩

theorem Job.of_ofPacket {p : Packet} {tasks : TaskList} {job : Job}
    (h : ofPacket p tasks = .ok job) :
    job.packet = p ∧ job.tasks = tasks ∧ job.progress = {} := by
  unfold ofPacket at h
  split at h <;> cases h
  exact ⟨rfl, rfl, rfl⟩

namespace Job

@[simp] theorem packet_putTask (job : Job) (t : TaskRecord) :
    (job.putTask t).packet = job.packet := by
  unfold putTask
  split <;> rfl

@[simp] theorem progress_putTask (job : Job) (t : TaskRecord) :
    (job.putTask t).progress = job.progress := by
  unfold putTask
  split <;> rfl

@[simp] theorem tasks_putTask (job : Job) (t : TaskRecord) :
    (job.putTask t).tasks = job.tasks.put t := by
  unfold putTask
  split
  · next h => simp [TaskList.put, h]
  · rfl

@[simp] theorem packetId_putTask (job : Job) (t : TaskRecord) :
    (job.putTask t).packetId = job.packetId := by
  simp [packetId]

end Job

namespace Transaction

theorem packet?_of_job? {t : Transaction} {job : Job} (h : t.job? = some job) :
    t.packet? = some job.packet := by
  simp only [job?, packet?] at *
  cases hc : t.content? with
  | none => simp [hc] at h
  | some c => cases c <;> simp_all [Content.job?, Content.packet]

theorem isOutgoing_iff {t : Transaction} :
    t.isOutgoing = true ↔ t.packet?.isSome = true ∧ t.job? = none := by
  simp only [isOutgoing, direction, packet?, job?]
  cases t.content? with
  | none => simp
  | some c => cases c <;> simp [Content.job?]

/-- The record that a transaction has of a task for one of its packets. -/
def record? (t : Transaction) (packetId name : String) : Option TaskRecord :=
  (t.tasks? packetId).bind (·.get? name)

theorem record?_of_job? {t : Transaction} {job : Job} (h : t.job? = some job) (p n : String) :
    t.record? p n =
      if job.packetId = p then job.tasks.get? n else t.parked[p]?.bind (·.get? n) := by
  unfold record? tasks?
  rw [h]
  dsimp only
  split <;> rfl

theorem record?_of_no_job {t : Transaction} (h : t.job? = none) (p n : String) :
    t.record? p n = t.parked[p]?.bind (·.get? n) := by
  unfold record? tasks?
  rw [h]

/-- What holds of a transaction whatever was done to it: it is about the packet it holds, a job is
for a packet that is complete, no tasks are set aside for the packet of the job, and no empty lists
are kept. -/
structure Sound (t : Transaction) : Prop where
  keyed : ∀ {p}, t.packet? = some p → p.transactionId = t.id
  valid : ∀ {job}, t.job? = some job → job.packet.validate = .ok ()
  apart : ∀ {job}, t.job? = some job → t.parked[job.packetId]? = none
  filled : ∀ {p : String} {l}, t.parked[p]? = some l → l.isEmpty = false

theorem sound_new (id : TransactionId) : Sound { id } :=
  ⟨by simp [packet?, content?], by simp [job?, content?], by simp [job?, content?], by simp⟩

@[simp] theorem record?_new (id : TransactionId) (p n : String) :
    ({ id } : Transaction).record? p n = none := by
  rw [record?_of_no_job (by simp [job?, content?])]
  simp

/-- Two states of a transaction that differ in nothing but its timer and in whether its reply was
acknowledged. -/
structure Alike (t t' : Transaction) : Prop where
  id : t'.id = t.id
  packet : t'.packet? = t.packet?
  job : t'.job? = t.job?
  parked : t'.parked = t.parked

namespace Alike

variable {t t' : Transaction}

theorem refl (t : Transaction) : Alike t t := ⟨rfl, rfl, rfl, rfl⟩

theorem isOutgoing_eq (h : Alike t t') : t'.isOutgoing = t.isOutgoing := by
  rw [Bool.eq_iff_iff, isOutgoing_iff, isOutgoing_iff, h.packet, h.job]

theorem record?_eq (h : Alike t t') (p n : String) : t'.record? p n = t.record? p n := by
  unfold record? tasks?
  rw [h.job, h.parked]

theorem sound (h : Alike t t') (hs : t.Sound) : t'.Sound where
  keyed hp := by rw [h.id]; exact hs.keyed (h.packet ▸ hp)
  valid hj := hs.valid (h.job ▸ hj)
  apart hj := by rw [h.parked]; exact hs.apart (h.job ▸ hj)
  filled hl := hs.filled (h.parked ▸ hl)

end Alike

theorem alike_rearm (t : Transaction) (waits : WaitTimes) (base : Instant) (c : DelayClass) :
    Alike t (t.rearm waits base c) := by
  constructor <;> cases h : t.held <;> simp [rearm, packet?, job?, content?, h]

theorem alike_acknowledge (t : Transaction) (waits : WaitTimes) (query : Instant) :
    Alike t (t.acknowledge waits query) := by
  unfold acknowledge
  split
  · next h => constructor <;> simp [packet?, job?, content?, h, Content.packet, Content.job?]
  · exact .refl t

theorem alike_afterDue (t : Transaction) (waits : WaitTimes) (now : Instant) :
    Alike t (t.afterDue waits now) := by
  unfold afterDue
  split
  · exact t.alike_rearm waits now .imminent
  · exact .refl t

theorem alike_refresh (t : Transaction) (waits : WaitTimes) (query : Instant) :
    Alike t (t.refresh waits query) := by
  unfold refresh
  split
  · exact .refl t
  · split
    · exact t.alike_rearm waits query .human
    · exact .refl t
  · exact .refl t

end Transaction

end SiteBroker
