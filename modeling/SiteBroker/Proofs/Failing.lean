import SiteBroker.Proofs.Rebuilding
import SiteBroker.Proofs.Round

/-! What becomes of a job when one of its tasks has failed or errored: the first is answered, the
second ends the round. No finished task is ever waited for. -/

namespace SiteBroker

open Program Desk

namespace TaskRecord

/-- The task that stands for an operation that the local service does not support. -/
def unsupported (job : Job) (operation : Operation) (now : Instant) : TaskRecord :=
  ⟨job.taskKeys, operation.name, .failed, now,
    [⟨Product.failedName, .str "Unsupported operation"⟩]⟩

variable {t u : TaskRecord}

theorem settled_of_failed (h : t.state = .failed) :
    t.settled = .error (.requestFailed (t.message?.getD "task failed")) := by
  simp only [settled, h]

theorem settled_of_errored (h : t.state = .errored) :
    t.settled = .error (.internal (t.name ++ ": " ++ t.message?.getD "task errored")) := by
  simp only [settled, h]

theorem settled_unsupported (job : Job) (operation : Operation) (now : Instant) :
    (unsupported job operation now).settled =
      .error (.requestFailed "Unsupported operation") := rfl

theorem of_settled_eq_ok (h : t.settled = .ok u) :
    u = t ∧ t.state ≠ .failed ∧ t.state ≠ .errored := by
  unfold settled at h
  split at h
  · cases h
  · cases h
  · next hfailed herrored =>
    cases h
    exact ⟨rfl, hfailed, herrored⟩

end TaskRecord

namespace Services

variable {σ : Type} (s : Services σ)

/-- A task that is met where one has to be run, and the desk after that: the one on record, the
one that is submitted, or the one that stands for an operation that is not supported. -/
inductive Meets (operation : Operation) (role : Option Role) (extra : Fields) (x : Desk σ) :
    TaskRecord → Desk σ → Prop where
  | unsupported (hname : s.taskName? operation = none) (now : Instant) :
      Meets operation role extra x (.unsupported x.job operation now) x
  | recorded {name : String} {t : TaskRecord} (hname : s.taskName? operation = some name)
      (ht : x.job.tasks.get? name = some t) (hclosed : t.isOpen = false) :
      Meets operation role extra x t x
  | submitted {name : String} {t : TaskRecord} {y : Desk σ}
      (hname : s.taskName? operation = some name)
      (hopen : (x.job.tasks.get? name).all (·.isOpen) = true)
      (ht : s.submit operation name role extra x = .ok t y) : Meets operation role extra x t y

variable {s} {operation : Operation} {role : Option Role} {extra : Fields} {x y : Desk σ}
  {t : TaskRecord}

theorem runTask_of_meets (h : s.Meets operation role extra x t y) :
    s.runTask operation role extra x = Desk.lift t.settled y := by
  unfold runTask
  cases h with
  | unsupported hname now =>
    rw [hname, TaskRecord.settled_unsupported]
    rfl
  | recorded hname ht hclosed =>
    simp only [hname, currentJob_bind, ht, Option.filter, hclosed]
    rfl
  | @submitted name t y hname hopen ht =>
    have hnone : (x.job.tasks.get? name).filter (!·.isOpen) = none := by
      cases hrecord : x.job.tasks.get? name with
      | none => rfl
      | some u => simp_all [Option.filter]
    simp only [hname, currentJob_bind, hnone]
    exact bind_of_ok ht _

theorem state_of_runTask (h : s.runTask operation role extra x = .ok t y) :
    t.state ≠ .failed ∧ t.state ≠ .errored := by
  have hsettled : ∀ {u : TaskRecord} {z : Desk σ}, Desk.lift u.settled z = .ok t y →
      t.state ≠ .failed ∧ t.state ≠ .errored := by
    intro u z hu
    cases hs : u.settled with
    | error e =>
      rw [hs] at hu
      cases hu
    | ok u' =>
      rw [hs] at hu
      cases hu
      obtain ⟨rfl, hstate⟩ := TaskRecord.of_settled_eq_ok hs
      exact hstate
  rcases s.runTask_cases operation role extra x with ⟨e, he⟩ | ⟨name, -, ⟨u, -, hu⟩ | ⟨-, hu⟩⟩
  · rw [he] at h
    cases h
  · exact hsettled (hu.symm.trans h)
  · obtain ⟨u, z, -, hlift⟩ := bind_eq_ok (hu.symm.trans h)
    exact hsettled hlift

end Services

namespace Milestone

variable {σ : Type} (s : Services σ) (m : Milestone)

/-- A task is met on the way to a milestone that neither the progress nor a lookup spares. -/
def Meets (x : Desk σ) (t : TaskRecord) : Prop :=
  m.isReached x.job.progress = false ∧ ∃ y z, m.look s x = .ok none y ∧
    s.Meets m.operation m.role (m.extra y.job) y t z

variable {s m} {x y : Desk σ} {t : TaskRecord}

theorem run_of_meets (h : m.Meets s x t) {e : ServiceError} (he : t.settled = .error e) :
    ∃ y, m.run s x = .error e y := by
  obtain ⟨hreached, y, z, hlook, hmeets⟩ := h
  have hperform : m.perform s y = .error e z := by
    have hrun := Services.runTask_of_meets hmeets
    rw [he] at hrun
    unfold perform
    rw [currentJob_bind]
    exact bind_of_error hrun _
  refine ⟨z, ?_⟩
  unfold run
  rw [currentJob_bind, if_neg (by simp [hreached]), bind_of_ok hlook]
  exact hperform

theorem state_of_perform (h : m.perform s x = .ok (.waiting t) y) :
    t.state ∉ [.successful, .failed, .errored] := by
  unfold perform at h
  rw [currentJob_bind] at h
  obtain ⟨u, z, hrun, hrest⟩ := bind_eq_ok h
  obtain ⟨hfailed, herrored⟩ := Services.state_of_runTask hrun
  split at hrest
  · obtain ⟨p, z', -, hset⟩ := bind_eq_ok hrest
    cases hset
  · next hsuccessful =>
    cases hrest
    simp [hsuccessful, hfailed, herrored]

theorem state_of_run (h : m.run s x = .ok (.waiting t) y) :
    t.state ∉ [.successful, .failed, .errored] := by
  unfold run at h
  rw [currentJob_bind] at h
  split at h
  · cases h
  · obtain ⟨found, z, -, hrest⟩ := bind_eq_ok h
    cases found with
    | some p => cases hrest
    | none => exact state_of_perform hrest

end Milestone

namespace Step

variable {σ : Type} (s : Services σ)

/-- A task is met by one of some steps that are run in order. -/
inductive Meet : List Step → Desk σ → TaskRecord → Prop where
  | here {m : Milestone} {rest : List Step} {x : Desk σ} {t : TaskRecord} (h : m.Meets s x t) :
      Meet (.milestone m :: rest) x t
  | later {step : Step} {rest : List Step} {x y : Desk σ} {t : TaskRecord}
      (hstep : step.run s x = .ok .done y) (h : Meet rest y t) : Meet (step :: rest) x t

variable {s} {steps : List Step} {x y : Desk σ} {t : TaskRecord}

theorem runAll_of_meet (h : Meet s steps x t) {e : ServiceError} (he : t.settled = .error e) :
    ∃ y, runAll s steps x = .error e y := by
  induction h with
  | here h =>
    obtain ⟨y, hy⟩ := Milestone.run_of_meets h he
    exact ⟨y, bind_of_error hy _⟩
  | later hstep _ ih =>
    obtain ⟨z, hz⟩ := ih he
    exact ⟨z, (bind_of_ok hstep _).trans hz⟩

theorem state_of_run {step : Step} (h : step.run s x = .ok (.waiting t) y) :
    t.state ∉ [.successful, .failed, .errored] := by
  cases step with
  | milestone m => exact Milestone.state_of_run h
  | adopt f =>
    obtain ⟨p, z, -, hset⟩ := bind_eq_ok ((currentJob_bind _ x).symm.trans h)
    cases hset
  | clear =>
    rcases runClear_cases s x with ⟨-, hc⟩ | ⟨z, -, -, hc⟩ | ⟨e, z, -, hc⟩ <;>
      cases hc.symm.trans h
  | findProject =>
    rcases runFindProject_cases s x with ⟨found, z, hc, -⟩ | ⟨z, -, hc | ⟨e, hc⟩⟩ <;>
      cases hc.symm.trans h

theorem state_of_runAll (h : runAll s steps x = .ok (.waiting t) y) :
    t.state ∉ [.successful, .failed, .errored] := by
  induction steps generalizing x with
  | nil => cases h
  | cons step rest ih =>
    obtain ⟨result, z, hstep, hrest⟩ := bind_eq_ok h
    cases result with
    | done => exact ih hrest
    | waiting u =>
      cases hrest
      exact state_of_run hstep
    | settled => cases hrest

end Step

namespace Registry

variable {σ : Type} {s : Services σ} {type : PacketType} {x y : Desk σ} {t : TaskRecord}

theorem work_of_some {w : Workflow} (hw : Workflow.ofType? type = some w) :
    (catalog s).work type = w.work s := by
  simp [work, catalog, hw]

theorem state_of_pending (h : (catalog s).work type x = .ok (.pending t) y) :
    t.state ∉ [.successful, .failed, .errored] := by
  cases hw : Workflow.ofType? type with
  | none =>
    have hrefuse : (catalog s).work type = refuse := by simp [work, catalog, hw]
    rw [hrefuse] at h
    cases h
  | some w =>
    rw [work_of_some hw] at h
    rcases hr : Step.runAll s (w.steps x.job) x with ⟨_ | u | _, z⟩ | ⟨e, z⟩
    · cases (w.work_of_end hr (by simp)).symm.trans h
    · cases (w.work_of_waiting hr).symm.trans h
      exact Step.state_of_runAll hr
    · cases (w.work_of_end hr (by simp)).symm.trans h
    · cases (w.work_of_error hr).symm.trans h

end Registry

namespace Visit

variable {σ : Type} (s : Services σ) (v : Visit σ)

/-- A task is met in the work on the job. -/
def Meets (t : TaskRecord) : Prop :=
  ∃ w, Workflow.ofType? v.job.packet.type = some w ∧
    Step.Meet s (w.steps v.job) ⟨v.job, v.world⟩ t

/-- A failed task that was met is answered with its message, and no errored one was met. -/
def Reports (answer : Option Packet) : Prop :=
  ∀ t, v.Meets s t → t.state ≠ .errored ∧ (t.state = .failed →
    answer = some (v.job.failureReply (t.message?.getD "task failed")))

variable {s v} {d : Docket} {t : TaskRecord}

theorem result_of_meets (h : v.Meets s t) {e : ServiceError} (he : t.settled = .error e) :
    ∃ y, v.result s = .error e y := by
  obtain ⟨w, hw, hmeet⟩ := h
  obtain ⟨y, hy⟩ := Step.runAll_of_meet hmeet he
  exact ⟨y, by rw [result, Registry.work_of_some hw, w.work_of_error hy]⟩

theorem Settled.reports {answer : Option Packet} (h : v.Settled s d answer) :
    v.Reports s answer := by
  intro t hmeets
  constructor
  · intro herrored
    obtain ⟨y, hy⟩ := result_of_meets hmeets (TaskRecord.settled_of_errored herrored)
    cases h with
    | waiting hwork _ _ => cases hwork.symm.trans hy
    | overdue hwork _ _ => cases hwork.symm.trans hy
    | replied hgives _ _ _ =>
      rcases hgives with ⟨z, hz⟩ | ⟨message, hm, -⟩
      · cases hz.symm.trans hy
      · rw [hy] at hm
        cases hm
  · intro hfailed
    obtain ⟨y, hy⟩ := result_of_meets hmeets (TaskRecord.settled_of_failed hfailed)
    cases h with
    | waiting hwork _ _ => cases hwork.symm.trans hy
    | overdue hwork _ _ => cases hwork.symm.trans hy
    | replied hgives _ _ _ =>
      rcases hgives with ⟨z, hz⟩ | ⟨message, hm, rfl⟩
      · cases hz.symm.trans hy
      · rw [hy] at hm
        cases hm
        rfl

/-- Work that stops a round ended in an error of a service, which is neither answered nor a task
that was finished. -/
theorem Stopped.result {e : BrokerError} (h : v.Stopped s d e) :
    ∃ e' y, v.result s = .error e' y ∧ e = .service e' ∧
      (∀ detail, e' ≠ .requestFailed detail) := by
  obtain ⟨y, hattend, -⟩ := h
  unfold Office.attend at hattend
  have hwork : v.result s = (Registry.catalog s).work v.job.packet.type ⟨v.job, v.world⟩ := rfl
  rw [← hwork] at hattend
  rcases hr : v.result s with ⟨⟨t⟩ | ⟨p⟩, z⟩ | ⟨e', z⟩ <;> rw [hr] at hattend
  · have hstate := Registry.state_of_pending (hwork.symm.trans hr)
    obtain ⟨ha, -⟩ := Prod.mk.inj hattend
    unfold Office.ofPending at ha
    split at ha <;> simp_all
  · cases hattend
  · obtain ⟨ha, -⟩ := Prod.mk.inj hattend
    unfold Office.ofError at ha
    split at ha
    · split at ha <;> cases ha
      exact ⟨_, z, rfl, rfl, by simp⟩
    · cases ha
    · cases ha
    · next hnot _ =>
      cases ha
      exact ⟨e', z, rfl, rfl, hnot⟩

end Visit

namespace Visit

variable {σ : Type} {s : Services σ} {v : Visit σ} {d : Docket}

/-- Of the tasks that were met in work that stopped a round none had failed, and an errored one is
the error that stopped it. -/
def Breaks (s : Services σ) (v : Visit σ) (e : BrokerError) : Prop :=
  (∀ detail, e ≠ .handler detail) ∧ ∀ t, v.Meets s t → t.state ≠ .failed ∧
    (t.state = .errored → e.isRestartable = false ∧
      e = .service (.internal (t.name ++ ": " ++ t.message?.getD "task errored")))

theorem Stopped.breaks {e : BrokerError} (h : v.Stopped s d e) : v.Breaks s e := by
  obtain ⟨e', y, hy, rfl, hnot⟩ := h.result
  refine ⟨fun _ => by simp, fun t hmeets => ⟨fun hfailed => ?_, fun herrored => ?_⟩⟩
  · obtain ⟨z, hz⟩ := result_of_meets hmeets (TaskRecord.settled_of_failed hfailed)
    cases hy.symm.trans hz
    exact hnot _ rfl
  · obtain ⟨z, hz⟩ := result_of_meets hmeets (TaskRecord.settled_of_errored herrored)
    cases hy.symm.trans hz
    exact ⟨rfl, rfl⟩

end Visit

namespace Office

variable {σ : Type}

/-- The jobs that are served in turn up to the first error, each with the world in which it is
worked on. -/
def visits (s : Services σ) : Office σ → List TransactionId → List (Visit σ)
  | _, [] => []
  | o, id :: rest =>
    match o.docket.job? id with
    | none => visits s o rest
    | some job => ⟨job, o.world⟩ ::
      match o.serveAll s (Registry.catalog s) [] [id] with
      | .ok _ o₁ => visits s o₁ rest
      | .error _ _ => []

variable {s : Services σ} {o o₁ o' : Office σ}

/-- The visits were settled, in a docket where all but some transactions are as they were, and the
tasks that were met are reported. -/
def Accounts (s : Services σ) (o o' : Office σ) (ids : List TransactionId) (visits : List (Visit σ))
    (answers : List (Option Packet)) : Prop :=
  List.Forall₂ (fun v answer => v.Settled s o'.docket answer ∧ v.Reports s answer) visits answers ∧
    ∀ id, id ∉ ids → o'.docket.get? id = o.docket.get? id

theorem Accounts.cons {job : Job} {answer : Option Packet} {ids : List TransactionId}
    {visits : List (Visit σ)} {answers : List (Option Packet)}
    (hkept : ∀ i, i ≠ job.transactionId → o₁.docket.get? i = o.docket.get? i)
    (hnew : job.transactionId ∉ ids)
    (hsettled : Visit.Settled s ⟨job, o.world⟩ o₁.docket answer)
    (h : Accounts s o₁ o' ids visits answers) :
    Accounts s o o' (job.transactionId :: ids) (⟨job, o.world⟩ :: visits) (answer :: answers) := by
  obtain ⟨hall, hrest⟩ := h
  refine ⟨.cons ⟨hsettled.of_get?_eq (hrest _ hnew), hsettled.reports⟩ hall, fun id hid => ?_⟩
  obtain ⟨hne, hid⟩ := List.ne_and_not_mem_of_not_mem_cons hid
  exact (hrest id hid).trans (hkept id hne)

theorem serveAll_accounts (hs : o.docket.Sound) {jobs : List Job}
    (hjobs : ∀ job ∈ jobs, o.docket.job? job.transactionId = some job)
    (hnd : (jobs.map (·.transactionId)).Nodup) (replies : List Packet) :
    match o.serveAll s (Registry.catalog s) replies (jobs.map (·.transactionId)) with
    | .ok replies' o' => ∃ answers, replies' = replies ++ answers.reduceOption ∧
        Accounts s o o' (jobs.map (·.transactionId)) (visits s o (jobs.map (·.transactionId)))
          answers
    | .error e o' => ∃ front last answers,
        visits s o (jobs.map (·.transactionId)) = front ++ [last] ∧
        Accounts s o o' (jobs.map (·.transactionId)) front answers ∧
        last.Stopped s o'.docket e := by
  induction jobs generalizing o replies with
  | nil => exact ⟨[], (List.append_nil _).symm, .nil, fun _ _ => rfl⟩
  | cons job jobs ih =>
    -- A visit leaves all other jobs as they are, so the rest is served as if it came first.
    have hjob := hjobs job (by simp)
    obtain ⟨o₁, hs₁, -, hkept, hvisit⟩ := serve_visit (s := s) hs hjob
    obtain ⟨hnew, hrest⟩ := List.nodup_cons.mp hnd
    rw [List.map_cons]
    rcases hvisit with ⟨e, hstopped, hstop⟩ | ⟨answer, hsettled, hgo⟩
    · rw [hstop]
      refine ⟨[], ⟨job, o.world⟩, [], ?_, ⟨.nil, fun id hid => ?_⟩, hstopped⟩
      · simp only [visits, hjob, hstop]
        rfl
      · exact hkept id (List.ne_and_not_mem_of_not_mem_cons hid).1
    · have hone : o.serveAll s (Registry.catalog s) [] [job.transactionId] =
          .ok answer.toList o₁ := hgo [] []
      have hvisits : visits s o (job.transactionId :: jobs.map (·.transactionId)) =
          ⟨job, o.world⟩ :: visits s o₁ (jobs.map (·.transactionId)) := by
        simp only [visits, hjob, hone]
      have hjobs₁ : ∀ other ∈ jobs, o₁.docket.job? other.transactionId = some other := by
        intro other hother
        have hne : other.transactionId ≠ job.transactionId := by
          rintro he
          exact hnew (List.mem_map.mpr ⟨other, hother, he⟩)
        rw [Docket.job?, hkept _ hne]
        exact hjobs other (List.mem_cons_of_mem job hother)
      have hlater := ih hs₁ hjobs₁ hrest (replies ++ answer.toList)
      rw [hgo, hvisits]
      rcases hr : o₁.serveAll s (Registry.catalog s) (replies ++ answer.toList)
        (jobs.map (·.transactionId)) with ⟨replies', o'⟩ | ⟨e, o'⟩ <;> rw [hr] at hlater ⊢
      · obtain ⟨answers, rfl, h⟩ := hlater
        refine ⟨answer :: answers, ?_, h.cons hkept hnew hsettled⟩
        rw [List.append_assoc]
        cases answer <;> rfl
      · obtain ⟨front, last, answers, hv, h, hlast⟩ := hlater
        exact ⟨⟨job, o.world⟩ :: front, last, answer :: answers, by rw [hv]; rfl,
          h.cons hkept hnew hsettled, hlast⟩

/-- A task that is waited for is not finished, whatever the local service answers and whatever is on
record. So a round of work never ends in the error of a handler: a failed task is answered with its
message, and an errored one ends the round for good. -/
theorem serve_reports (s : Services σ) (waits : WaitTimes) (moves : List Docket.Move)
    (book : SnapshotBook) (world : World σ) :
    (∀ (type : PacketType) (x y : Desk σ) (t : TaskRecord),
      (Registry.catalog s).work type x = .ok (.pending t) y →
        t.state ∉ [.successful, .failed, .errored]) ∧
    let o : Office σ := ⟨Docket.run waits moves, book, world⟩
    let vs := visits s o (o.docket.jobsInOrder.map (·.transactionId))
    match o.serve s (Registry.catalog s) with
    | .ok replies o' => ∃ answers, replies = answers.reduceOption ∧ List.Forall₂
        (fun v answer => v.Settled s o'.docket answer ∧ v.Reports s answer) vs answers
    | .error e o' => ∃ front last answers, vs = front ++ [last] ∧ List.Forall₂
        (fun v answer => v.Settled s o'.docket answer ∧ v.Reports s answer) front answers ∧
        last.Stopped s o'.docket e ∧ last.Breaks s e := by
  refine ⟨fun type x y t => Registry.state_of_pending, ?_⟩
  intro o vs
  have hs : o.docket.Sound := Docket.sound_run waits moves
  have hjobs : ∀ job ∈ o.docket.jobsInOrder, o.docket.job? job.transactionId = some job := by
    intro job hjob
    obtain ⟨id, hid⟩ := Docket.mem_jobsInOrder.mp hjob
    rwa [hs.transactionId_of_job? hid]
  have haccounts := serveAll_accounts (s := s) hs hjobs hs.nodup_jobsInOrder []
  rw [serve]
  rcases hr : o.serveAll s (Registry.catalog s) [] (o.docket.jobsInOrder.map (·.transactionId))
    with ⟨replies, o'⟩ | ⟨e, o'⟩ <;> rw [hr] at haccounts ⊢
  · obtain ⟨answers, rfl, hall, -⟩ := haccounts
    exact ⟨answers, List.nil_append _, hall⟩
  · obtain ⟨front, last, answers, hv, ⟨hall, -⟩, hlast⟩ := haccounts
    exact ⟨front, last, answers, hv, hall, hlast, hlast.breaks⟩

open Workflow (accountDesk obliging unhurried)

/-- A request whose only task fails. -/
def setback : List Docket.Move :=
  [.receive .epoch Docket.projectEnd,
    .record Docket.projectEnd.transactionId ⟨⟨"101", Docket.projectEnd.transactionId,
      Docket.projectEnd.packetId, Docket.projectEnd.type.name⟩, "inactivate_project", .failed,
      .epoch, [⟨Product.failedName, .str "no such project"⟩]⟩]

def failing : Office Unit :=
  ⟨Docket.run ⟨10000, 60000, 3600000⟩ setback, { folder := {} }, { outside := () }⟩

theorem visits_failing : ∃ v t, visits obliging failing
      (failing.docket.jobsInOrder.map (·.transactionId)) = [v] ∧ v.Meets obliging t ∧
    t.state = .failed ∧ t.message? = some "no such project" := by
  have hids : failing.docket.jobsInOrder.map (·.transactionId) =
      [Docket.projectEnd.transactionId] := by decide +kernel
  have hjob : (failing.docket.job? Docket.projectEnd.transactionId).any (fun job =>
      job.packet.type == .requestProjectInactivate && job.progress.projectInactivated.isNone &&
      (job.tasks.get? "inactivate_project").any (fun t =>
        t.state == .failed && t.message? == some "no such project")) = true := by
    decide +kernel
  simp only [Option.any_eq_true, Bool.and_eq_true, beq_iff_eq, Option.isNone_iff_eq_none] at hjob
  obtain ⟨job, hj, ⟨htype, hnew⟩, t, ht, hfailed, hmessage⟩ := hjob
  refine ⟨⟨job, failing.world⟩, t, ?_, ?_, hfailed, hmessage⟩
  · rw [hids]
    simp only [visits, hj]
    cases failing.serveAll obliging (Registry.catalog obliging) []
      [Docket.projectEnd.transactionId] <;> rfl
  · refine ⟨Workflow.projectInactivate, by rw [htype]; rfl,
      .here ⟨?_, ⟨job, failing.world⟩, ⟨job, failing.world⟩, rfl, ?_⟩⟩
    · simp [Milestone.projectEnd, Milestone.flagged, hnew]
    · exact .recorded rfl ht (by simp [TaskRecord.isOpen, hfailed])

/-- Work ends in a task to wait for. -/
def pends : EStateM.Result ServiceError (Desk σ) Outcome → Bool
  | .ok (.pending _) _ => true
  | _ => false

theorem of_pends {result : EStateM.Result ServiceError (Desk σ) Outcome}
    (h : pends result = true) : ∃ t y, result = .ok (.pending t) y := by
  unfold pends at h
  split at h
  · exact ⟨_, _, rfl⟩
  · cases h

theorem serve_reports_failing :
    (∃ t y, (Registry.catalog unhurried).work .requestAccountCreate accountDesk =
        .ok (.pending t) y ∧ t.state ∉ [.successful, .failed, .errored]) ∧
    ∃ v replies o', visits obliging failing
        (failing.docket.jobsInOrder.map (·.transactionId)) = [v] ∧
      failing.serve obliging (Registry.catalog obliging) = .ok replies o' ∧
      replies = [v.job.failureReply "no such project"] := by
  constructor
  · obtain ⟨t, y, h⟩ : ∃ t y, (Registry.catalog unhurried).work .requestAccountCreate accountDesk =
        .ok (.pending t) y := of_pends (by decide +kernel)
    obtain ⟨hpending, -⟩ :=
      serve_reports unhurried ⟨10000, 60000, 3600000⟩ [] { folder := {} } accountDesk.world
    exact ⟨t, y, h, hpending _ _ _ _ h⟩
  · obtain ⟨v, t, hvisits, hmeets, hfailed, hmessage⟩ := visits_failing
    obtain ⟨-, hserve⟩ :=
      serve_reports obliging ⟨10000, 60000, 3600000⟩ setback { folder := {} } { outside := () }
    rw [← failing] at hserve
    dsimp only at hserve
    rw [hvisits] at hserve
    rcases hr : failing.serve obliging (Registry.catalog obliging) with
      ⟨replies, o'⟩ | ⟨e, o'⟩ <;> rw [hr] at hserve
    · obtain ⟨answers, hreplies, hall⟩ := hserve
      obtain ⟨answer, rest, ⟨-, hreports⟩, hrest, rfl⟩ := List.forall₂_cons_left_iff.mp hall
      obtain rfl := List.forall₂_nil_left_iff.mp hrest
      have hanswer := (hreports t hmeets).2 hfailed
      refine ⟨v, replies, o', hvisits, rfl, ?_⟩
      rw [hreplies, hanswer, hmessage]
      rfl
    · obtain ⟨front, last, answers, hv, -, -, -, hbreaks⟩ := hserve
      have hlast : v = last := by
        have h := congrArg List.getLast? hv
        simpa using h
      exact absurd hfailed (hbreaks t (hlast ▸ hmeets)).1

end Office

end SiteBroker
