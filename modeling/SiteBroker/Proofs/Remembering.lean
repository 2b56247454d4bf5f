import SiteBroker.Proofs.Asking
import SiteBroker.Proofs.Success

/-! What is remembered of a task that was submitted. The answer is recorded like any other news of
the task: a record that is at least as new stays, and while it is open, the task is submitted each
time that it is run. -/

namespace SiteBroker

open Program Desk Workflow

namespace Services

variable {σ : Type} {s : Services σ} {operation : Operation} {role : Option Role} {extra : Fields}
  {x y : Desk σ} {name : String} {request : TaskRequest} {t old : TaskRecord}

/-- The request that running a task makes, and the status that it is answered with. -/
def submission? (s : Services σ) (operation : Operation) (role : Option Role) (extra : Fields)
    (x : Desk σ) : Option (TaskRequest × TaskRecord) :=
  match since x (left (s.runTask operation role extra x)) with
  | [⟨.submit request, .ok t⟩] => some (request, t)
  | _ => none

theorem runTask_of_closed (hname : s.taskName? operation = some name)
    (ht : x.job.tasks.get? name = some t) (hclosed : t.isOpen = false) :
    s.runTask operation role extra x = Desk.lift t.settled x := by
  unfold runTask
  simp [hname, currentJob_bind, ht, Option.filter, hclosed]

theorem runTask_of_open (hname : s.taskName? operation = some name)
    (hopen : (x.job.tasks.get? name).all (·.isOpen) = true) : s.runTask operation role extra x =
      (s.submit operation name role extra >>= fun t => Desk.lift t.settled) x := by
  unfold runTask
  cases ht : x.job.tasks.get? name with
  | none => simp [hname, currentJob_bind, ht]
  | some old =>
    have hold : old.isOpen = true := by simpa [ht] using hopen
    simp [hname, currentJob_bind, ht, Option.filter, hold]

theorem left_lift_settled (t : TaskRecord) (x : Desk σ) :
    left ((Desk.lift t.settled : Work σ TaskRecord) x) = x := by
  rcases lift_settled_cases t x with h | ⟨e, h⟩ <;> rw [h] <;> rfl

theorem left_submit_settled (operation : Operation) (name : String) (role : Option Role)
    (extra : Fields) (x : Desk σ) :
    left ((s.submit operation name role extra >>= fun t => Desk.lift t.settled) x) =
      left (s.submit operation name role extra x) := by
  cases h : s.submit operation name role extra x with
  | ok t y => rw [bind_of_ok h, left_lift_settled, left_ok]
  | error e y => rw [bind_of_error h, left_error]

theorem since_of_submission (h : s.submission? operation role extra x = some (request, t)) :
    since x (left (s.runTask operation role extra x)) = [⟨.submit request, .ok t⟩] := by
  unfold submission? at h
  split at h
  · next hsince =>
    cases h
    exact hsince
  · cases h

/-- A task is submitted only if its record, if there is one, is open, and the answer is put to the
job. -/
theorem of_submission (h : s.submission? operation role extra x = some (request, t)) :
    s.taskName? operation = some request.taskName ∧
      (x.job.tasks.get? request.taskName).all (·.isOpen) = true ∧
      (left (s.runTask operation role extra x)).job = x.job.putTask t := by
  have hsince := since_of_submission h
  rcases s.runTask_cases operation role extra x with
    ⟨e, hrun⟩ | ⟨name, hname, ⟨u, -, hrun⟩ | ⟨hopen, hrun⟩⟩ <;> rw [hrun] at hsince ⊢
  · rw [left_error, since_self] at hsince
    cases hsince
  · rw [left_lift_settled, since_self] at hsince
    cases hsince
  · rw [left_submit_settled] at hsince ⊢
    rcases s.submit_cases operation name role extra x with
      ⟨u, y, request', hsubmit, hrequest, hj, hc⟩ |
        ⟨e, y, hsubmit, -, hc | ⟨request', e', -, hc⟩⟩ <;> rw [hsubmit] at hsince ⊢
    · rw [left_ok, since_eq hc] at hsince
      cases hsince
      rw [hrequest.name]
      exact ⟨hname, hopen, hj⟩
    · rw [left_error, since_eq (by rw [hc, List.append_nil])] at hsince
      cases hsince
    · rw [left_error, since_eq hc] at hsince
      cases hsince

/-- A task is run again and again, each time as some role and with some fields. -/
def runs (s : Services σ) (operation : Operation) (x : Desk σ)
    (attempts : List (Option Role × Fields)) : Desk σ :=
  attempts.foldl (fun x (role, extra) => left (s.runTask operation role extra x)) x

theorem told_runs (attempts : List (Option Role × Fields)) :
    Told x (s.runs operation x attempts) := by
  induction attempts generalizing x with
  | nil => exact refl_of Told x
  | cons attempt attempts ih =>
    exact ((upheld_told s).runTask operation attempt.1 attempt.2 x).trans ih

/-- Once a task on record is not open, it is never submitted again. -/
theorem runs_of_closed (hname : s.taskName? operation = some name)
    (ht : x.job.tasks.get? name = some t) (hclosed : t.isOpen = false)
    (attempts : List (Option Role × Fields)) : s.runs operation x attempts = x := by
  induction attempts with
  | nil => rfl
  | cons attempt attempts ih =>
    have hrun : left (s.runTask operation attempt.1 attempt.2 x) = x := by
      rw [runTask_of_closed hname ht hclosed, left_lift_settled]
    show s.runs operation (left (s.runTask operation attempt.1 attempt.2 x)) attempts = x
    rw [hrun, ih]

/-- An answer that comes late for an open record. -/
def Late (old : TaskRecord) : Exchange → Prop
  | ⟨.submit _, .ok t⟩ => TaskRecord.timestamp t ≤ old.timestamp
  | _ => True

theorem get?_runTask_of_late (hname : s.taskName? operation = some name)
    (hold : x.job.tasks.get? name = some old) (hopen : old.isOpen = true)
    (hlate : ∀ e ∈ since x (left (s.runTask operation role extra x)), Late old e) :
    (left (s.runTask operation role extra x)).job.tasks.get? name = some old := by
  have hrun : left (s.runTask operation role extra x) =
      left (s.submit operation name role extra x) := by
    rw [runTask_of_open hname (by simpa [hold] using hopen), left_submit_settled]
  rw [hrun] at hlate ⊢
  rcases s.submit_cases operation name role extra x with
    ⟨t, y, request, hsubmit, -, hj, hc⟩ | ⟨e, y, hsubmit, hj, -⟩ <;> rw [hsubmit] at hlate ⊢
  · rw [left_ok, since_eq hc] at hlate
    have ht : t.timestamp ≤ old.timestamp := hlate _ (List.mem_singleton_self _)
    rw [left_ok, hj, Job.tasks_putTask, TaskList.get?_put, hold]
    simp [TaskRecord.overlay, ht]
  · rw [left_error, hj, hold]

/-- However often the task is run, an open record stays as long as all answers come late for it. -/
theorem get?_runs_of_late (hname : s.taskName? operation = some name)
    (hold : x.job.tasks.get? name = some old) (hopen : old.isOpen = true)
    {attempts : List (Option Role × Fields)}
    (hlate : ∀ e ∈ since x (s.runs operation x attempts), Late old e) :
    (s.runs operation x attempts).job.tasks.get? name = some old := by
  induction attempts generalizing x with
  | nil => exact hold
  | cons attempt attempts ih =>
    let y := left (s.runTask operation attempt.1 attempt.2 x)
    have hruns : s.runs operation x (attempt :: attempts) = s.runs operation y attempts := rfl
    have htold : Told x y := (upheld_told s).runTask operation attempt.1 attempt.2 x
    rw [hruns, since_append htold (told_runs attempts)] at hlate
    rw [hruns]
    refine ih (get?_runTask_of_late hname hold hopen fun e he => ?_) fun e he => ?_
    · exact hlate e (List.mem_append_left _ he)
    · exact hlate e (List.mem_append_right _ he)

/-- The answer to a request for a task is on record afterwards, and if it leaves nothing open, then
the task is not submitted again. A record that is at least as new as the answer stays instead. It is
open, and so the task is submitted again whatever the answer was. -/
theorem recorded_of_submission (h : s.submission? operation role extra x = some (request, t))
    (hn : t.name = request.taskName) (hy : left (s.runTask operation role extra x) = y) :
    (x.job.tasks.covers t = false → y.job.tasks.get? t.name = some t ∧
      (t.isOpen = false → ∀ (z : Desk σ) role' extra', z.job = y.job →
        s.runTask operation role' extra' z = Desk.lift t.settled z)) ∧
    (x.job.tasks.covers t = true → ∃ old, old.isOpen = true ∧
      x.job.tasks.get? t.name = some old ∧ y.job.tasks.get? t.name = some old ∧
      ∀ (z : Desk σ) role' extra', z.job = y.job → s.runTask operation role' extra' z =
        (s.submit operation t.name role' extra' >>= fun u => Desk.lift u.settled) z) := by
  obtain ⟨hname, hopen, hjob⟩ := of_submission h
  rw [hy] at hjob
  rw [← hn] at hname hopen
  have htasks : y.job.tasks = x.job.tasks.put t := by rw [hjob, Job.tasks_putTask]
  refine ⟨fun hnews => ?_, fun hcovers => ?_⟩
  · have hrecord : y.job.tasks.get? t.name = some t := by
      rw [htasks, TaskList.get?_put_of_news hnews, if_pos rfl]
    exact ⟨hrecord, fun hclosed z role' extra' hz =>
      runTask_of_closed hname (by rw [hz, hrecord]) hclosed⟩
  · obtain ⟨old, hold, -⟩ := TaskList.covers_iff.mp hcovers
    have hstays : y.job.tasks.get? t.name = some old := by
      rw [htasks, TaskList.put, if_pos hcovers, hold]
    have hold' : old.isOpen = true := by simpa [hold] using hopen
    refine ⟨old, hold', hold, hstays, fun z role' extra' hz => runTask_of_open hname ?_⟩
    rw [hz, hstays]
    exact hold'

/-- A desk at which the organization of an account is to be set up. The records of the task for it
were dropped at some time. -/
def clearedDesk (millis : Int) : Desk Unit where
  job := accountJob.putTask
    ⟨accountJob.taskKeys, "choose_or_add_org", .cleared, .ofMillis millis, []⟩
  world := { outside := () }

theorem recorded_of_submission_clearedDesk : ∃ request t,
    obliging.submission? .chooseOrAddOrg (some .user) ∅ (clearedDesk (-1000)) = some (request, t) ∧
    t.name = request.taskName ∧ (clearedDesk (-1000)).job.tasks.covers t = false ∧
    t.isOpen = false ∧
    ∀ y, left (obliging.runTask .chooseOrAddOrg (some .user) ∅ (clearedDesk (-1000))) = y →
      y.job.tasks.get? t.name = some t ∧ ∀ (z : Desk Unit) role extra, z.job = y.job →
        obliging.runTask .chooseOrAddOrg role extra z = Desk.lift t.settled z := by
  have hanswer : (obliging.submission? .chooseOrAddOrg (some .user) ∅ (clearedDesk (-1000))).any
      (fun (request, t) => t.name == request.taskName &&
        !(clearedDesk (-1000)).job.tasks.covers t && !t.isOpen) = true := by
    decide +kernel
  rw [Option.any_eq_true] at hanswer
  obtain ⟨⟨request, t⟩, h, hanswer⟩ := hanswer
  simp only [Bool.and_eq_true, beq_iff_eq, Bool.not_eq_true'] at hanswer
  obtain ⟨⟨hn, hnews⟩, hclosed⟩ := hanswer
  refine ⟨request, t, h, hn, hnews, hclosed, fun y hy => ?_⟩
  obtain ⟨hrecord, hrest⟩ := (recorded_of_submission h hn hy).1 hnews
  exact ⟨hrecord, hrest hclosed⟩

/-- The task has been done, but that is not on record, and it is submitted again. -/
theorem submitted_twice_clearedDesk : ∃ request t y,
    obliging.submission? .chooseOrAddOrg (some .user) ∅ (clearedDesk 1000) = some (request, t) ∧
    t.name = request.taskName ∧ t.state = .successful ∧
    left (obliging.runTask .chooseOrAddOrg (some .user) ∅ (clearedDesk 1000)) = y ∧
    y.job.tasks.get? t.name ≠ some t ∧
    (obliging.submission? .chooseOrAddOrg (some .user) ∅ y).isSome = true := by
  have hanswer : (obliging.submission? .chooseOrAddOrg (some .user) ∅ (clearedDesk 1000)).any
      (fun (request, t) => t.name == request.taskName && t.state == .successful &&
        ((left (obliging.runTask .chooseOrAddOrg (some .user) ∅
          (clearedDesk 1000))).job.tasks.get? t.name).all (·.state == .cleared)) = true := by
    decide +kernel
  rw [Option.any_eq_true] at hanswer
  obtain ⟨⟨request, t⟩, h, hanswer⟩ := hanswer
  simp only [Bool.and_eq_true, beq_iff_eq] at hanswer
  obtain ⟨⟨hn, hdone⟩, hstays⟩ := hanswer
  refine ⟨request, t, _, h, hn, hdone, rfl, fun hrecord => ?_, by decide +kernel⟩
  simp [hrecord, hdone] at hstays

end Services

end SiteBroker
