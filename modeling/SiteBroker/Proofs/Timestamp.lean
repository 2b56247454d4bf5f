import Mathlib.Data.List.Induction
import SiteBroker.Proofs.Arrivals

/-! The time of a job, which goes on with each piece of news, against the time that its packet and
its tasks alone would give it. -/

namespace SiteBroker

namespace Job

variable {p : Packet} {tasks : TaskList} {times : List Instant} {job : Job}

/-- What comes to a job: a record of a task, or another delivery of a packet with tasks. -/
inductive News where
  | task (t : TaskRecord)
  | delivery (p : Packet) (tasks : TaskList)

/-- The time that a delivery tells of itself. -/
def News.time? : News → Option Instant
  | .task _ => none
  | .delivery p _ => p.header.timestamp

def told (news : List News) : List Instant := news.filterMap News.time?

def take (job : Job) : News → Job
  | .task t => job.putTask t
  | .delivery p tasks => job.update p tasks

def takeAll (job : Job) (news : List News) : Job := news.foldl take job

theorem told_concat (news : List News) (n : News) :
    told (news ++ [n]) = told news ++ n.time?.toList := by
  rw [told, List.filterMap_append]
  cases h : n.time? <;> simp [told, h]

theorem takeAll_append (job : Job) (news more : List News) :
    job.takeAll (news ++ more) = (job.takeAll news).takeAll more := List.foldl_append ..

theorem tasks_advance (job : Job) (t : Instant) : (job.advance t).tasks = job.tasks := rfl

/-- It makes no difference whether a job is taken on to a time before a task comes or after. -/
theorem putTask_advance (job : Job) (t : Instant) (u : TaskRecord) :
    (job.advance t).putTask u = (job.putTask u).advance t := by
  cases hc : job.tasks.covers u with
  | true => simp [putTask, tasks_advance, hc]
  | false =>
    have hlate : ((job.advance t).putTask u).timestamp =
        max u.timestamp (job.advance t).timestamp := timestamp_putTask hc
    refine ext ?_ ?_ ?_ ?_
    · rw [packet_putTask]
      exact (packet_putTask job u).symm
    · rw [hlate, timestamp_advance, timestamp_advance, timestamp_putTask hc]
      ac_rfl
    · rw [tasks_putTask, tasks_advance, tasks_advance, tasks_putTask]
    · rw [progress_putTask]
      exact (progress_putTask job u).symm

section Times

variable (times : List Instant) (job : Job)

theorem putTask_foldl_advance (u : TaskRecord) :
    (times.foldl advance job).putTask u = times.foldl advance (job.putTask u) := by
  induction times generalizing job with
  | nil => rfl
  | cons t times ih => rw [List.foldl_cons, ih, putTask_advance, List.foldl_cons]

theorem timestamp_foldl_advance :
    (times.foldl advance job).timestamp = times.foldl max job.timestamp := by
  induction times generalizing job with
  | nil => rfl
  | cons t times ih =>
    have hcomm : max t job.timestamp = max job.timestamp t := by ac_rfl
    rw [List.foldl_cons, ih, timestamp_advance, hcomm, List.foldl_cons]

theorem foldl_max_eq_self_iff {t : Instant} : times.foldl max t = t ↔ ∀ u ∈ times, u ≤ t := by
  rw [← Option.some_inj, ← List.max?_cons', List.max?_eq_some_iff]
  simp [Std.le_refl]

end Times

/-- The time of a new job is the latest among those of its packet and its tasks. -/
theorem timestamp_eq_foldl (h : ofPacket p tasks = .ok job) :
    job.timestamp = (tasks.toList.map (·.timestamp)).foldl max (packetTime p) := by
  rw [timestamp_of_ofPacket h, List.foldl_max, TaskList.latest?]
  cases (tasks.toList.map (·.timestamp)).max? with
  | none => exact Std.max_self.symm
  | some t =>
    show max t (packetTime p) = max (packetTime p) t
    ac_rfl

/-- The job is what its packet and its present tasks make it, taken on to the times of the
deliveries. -/
def Tracks (p : Packet) (times : List Instant) (job : Job) : Prop :=
  ∃ fresh, ofPacket p job.tasks = .ok fresh ∧ job = times.foldl advance fresh

theorem tracks_of_ofPacket (h : ofPacket p tasks = .ok job) : Tracks p [] job := by
  obtain ⟨-, rfl, -⟩ := of_ofPacket h
  exact ⟨job, h, rfl⟩

namespace Tracks

/-- A record that is replaced is older than the one that replaces it, so that nothing is lost with
its time. -/
theorem putTask (h : Tracks p times job) (u : TaskRecord) : Tracks p times (job.putTask u) := by
  obtain ⟨fresh, hfresh, hjob⟩ := h
  refine ⟨fresh.putTask u, ?_, ?_⟩
  · rw [tasks_putTask, ofPacket_put, hfresh]
    rfl
  · rw [hjob, putTask_foldl_advance]

theorem foldl_putTask (h : Tracks p times job) (us : List TaskRecord) :
    Tracks p times (us.foldl Job.putTask job) := by
  induction us generalizing job with
  | nil => exact h
  | cons u us ih => exact ih (h.putTask u)

theorem advance (h : Tracks p times job) (t : Instant) :
    Tracks p (times ++ [t]) (job.advance t) := by
  obtain ⟨fresh, hfresh, hjob⟩ := h
  refine ⟨fresh, hfresh, ?_⟩
  rw [List.foldl_concat, ← hjob]

theorem take (h : Tracks p times job) (n : News) :
    Tracks p (times ++ n.time?.toList) (job.take n) := by
  cases n with
  | task u =>
    have hnone : times ++ (News.task u).time?.toList = times := List.append_nil times
    rw [hnone]
    exact h.putTask u
  | delivery q tasks =>
    have hput := h.foldl_putTask tasks.toList
    show Tracks p (times ++ q.header.timestamp.toList) (job.update q tasks)
    unfold update
    cases q.header.timestamp with
    | none => rwa [Option.toList_none, List.append_nil]
    | some t => exact hput.advance t

theorem takeAll (h : Tracks p [] job) (news : List News) :
    Tracks p (told news) (job.takeAll news) := by
  induction news using List.reverseRecOn with
  | nil => exact h
  | append_singleton news n ih =>
    rw [told_concat, takeAll_append]
    exact ih.take n

end Tracks

theorem timestamp_le_putTask (job : Job) (u : TaskRecord) :
    job.timestamp ≤ (job.putTask u).timestamp := by
  cases hc : job.tasks.covers u with
  | true => simp [putTask, hc, Std.le_refl]
  | false =>
    rw [timestamp_putTask hc]
    exact Std.right_le_max

theorem timestamp_le_foldl_putTask (job : Job) (us : List TaskRecord) :
    job.timestamp ≤ (us.foldl putTask job).timestamp := by
  induction us generalizing job with
  | nil => exact Std.le_refl _
  | cons u us ih => exact Std.le_trans (job.timestamp_le_putTask u) (ih _)

theorem timestamp_le_take (job : Job) (n : News) : job.timestamp ≤ (job.take n).timestamp := by
  cases n with
  | task u => exact job.timestamp_le_putTask u
  | delivery q tasks =>
    have hput := job.timestamp_le_foldl_putTask tasks.toList
    show job.timestamp ≤ (job.update q tasks).timestamp
    unfold update
    cases q.header.timestamp with
    | none => exact hput
    | some t =>
      dsimp only
      rw [timestamp_advance]
      exact Std.le_trans hput Std.right_le_max

theorem timestamp_le_takeAll (job : Job) (news : List News) :
    job.timestamp ≤ (job.takeAll news).timestamp := by
  induction news generalizing job with
  | nil => exact Std.le_refl _
  | cons n news ih => exact Std.le_trans (job.timestamp_le_take n) (ih _)

/-- The time of a job is at all times the latest among those of its packet, of the deliveries and of
its present tasks. It is the time that the packet and these tasks would give a new job, unless a
delivery told of a later one. -/
theorem timestamp_takeAll (h : ofPacket p tasks = .ok job) (news : List News) :
    let job' := job.takeAll news
    (packetTime p :: (job'.tasks.toList.map (·.timestamp) ++ told news)).max? =
        some job'.timestamp ∧
      (∀ more, job'.timestamp ≤ (job.takeAll (news ++ more)).timestamp) ∧
      ∃ fresh, ofPacket p job'.tasks = .ok fresh ∧
        ((∀ t ∈ told news, t ≤ packetTime p) → fresh.timestamp = job'.timestamp) ∧
        (fresh.timestamp = job'.timestamp ↔ ∀ t ∈ told news, t ≤ fresh.timestamp) := by
  intro job'
  obtain ⟨fresh, hfresh, hjob⟩ : Tracks p (told news) job' := (tracks_of_ofPacket h).takeAll news
  have htime : job'.timestamp = (told news).foldl max fresh.timestamp := by
    rw [hjob, timestamp_foldl_advance]
  have hstart := timestamp_eq_foldl hfresh
  have hsame : fresh.timestamp = job'.timestamp ↔ ∀ t ∈ told news, t ≤ fresh.timestamp := by
    rw [htime, eq_comm, foldl_max_eq_self_iff]
  have hpacket : packetTime p ≤ fresh.timestamp := by
    rw [hstart, List.foldl_max]
    exact Std.left_le_max
  refine ⟨?_, fun more => ?_, fresh, hfresh, fun hle => ?_, hsame⟩
  · rw [List.max?_cons', List.foldl_append, ← hstart, htime]
  · rw [takeAll_append]
    exact timestamp_le_takeAll _ more
  · exact hsame.mpr fun t ht => Std.le_trans (hle t ht) hpacket

/-- A delivery of the packet `projectEnd` that tells of its time, and then an older task. -/
def lateNews : List News :=
  [.delivery { Docket.projectEnd with
      header := { Docket.projectEnd.header with timestamp := some (.ofMillis 90000) } } ∅,
    .task { Docket.projectEndTask with timestamp := .ofMillis 70000 }]

/-- The new job for it. -/
def projectEndJob : Job := ⟨Docket.projectEnd, 101, .epoch, ∅, {}, rfl⟩

theorem timestamp_takeAll_lateNews :
    ofPacket Docket.projectEnd ∅ = .ok projectEndJob ∧
      (projectEndJob.takeAll lateNews).timestamp = .ofMillis 90000 ∧
      (∀ more, Instant.ofMillis 90000 ≤ (projectEndJob.takeAll (lateNews ++ more)).timestamp) ∧
      ∃ fresh, ofPacket Docket.projectEnd (projectEndJob.takeAll lateNews).tasks = .ok fresh ∧
        fresh.timestamp = .ofMillis 70000 := by
  have hjob : ofPacket Docket.projectEnd ∅ = .ok projectEndJob := by rfl
  have htime : (projectEndJob.takeAll lateNews).timestamp = .ofMillis 90000 := by decide +kernel
  obtain ⟨-, hle, fresh, hfresh, -, -⟩ := timestamp_takeAll hjob lateNews
  refine ⟨hjob, htime, htime ▸ hle, fresh, hfresh, ?_⟩
  rw [timestamp_of_ofPacket hfresh]
  decide +kernel

end Job

end SiteBroker
