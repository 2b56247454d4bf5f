import SiteBroker.Proofs.Asking
import SiteBroker.Proofs.Gaining
import SiteBroker.Proofs.Rebuilding

/-! The trail of what is known while a job is worked on: a step that is broken off leaves no mark on
it, and up to the first reply nothing on it is lost again. -/

namespace SiteBroker

open Program Desk

namespace Desk

variable {σ : Type} {x y z : Desk σ}

/-- The job is as it was, but for the status of a task that was returned when it was submitted. -/
structure Halted (x y : Desk σ) : Prop where
  packet : y.job.packet = x.job.packet
  fields : y.job.fields = x.job.fields
  progress : y.job.progress = x.job.progress
  tasks : y.job.tasks = x.job.tasks ∨ ∃ request t,
    ⟨.submit request, .ok t⟩ ∈ since x y ∧ y.job.tasks = x.job.tasks.put t

theorem halted_of_job_eq (h : y.job = x.job) : Halted x y :=
  ⟨by rw [h], by rw [h], by rw [h], .inl (by rw [h])⟩

theorem halted_of_putTask {request : TaskRequest} {t : TaskRecord}
    (hc : ⟨.submit request, .ok t⟩ ∈ since x y) (h : y.job = x.job.putTask t) : Halted x y where
  packet := by rw [h, Job.packet_putTask]
  fields := by simp only [h, Job.fields, Job.packet_putTask]
  progress := by simp [h]
  tasks := .inr ⟨request, t, hc, by rw [h, Job.tasks_putTask]⟩

theorem Halted.of_job_eq (h : Halted y z) (hj : y.job = x.job) (hxy : Told x y) (hyz : Told y z) :
    Halted x z := by
  refine ⟨by rw [h.packet, hj], by rw [h.fields, hj], by rw [h.progress, hj], ?_⟩
  rcases h.tasks with ht | ⟨request, t, hc, ht⟩
  · exact .inl (by rw [ht, hj])
  · refine .inr ⟨request, t, ?_, by rw [ht, hj]⟩
    rw [since_append hxy hyz]
    exact List.mem_append_right _ hc

theorem left_lift {α : Type} (r : Except ServiceError α) (x : Desk σ) :
    left ((lift r : Work σ α) x) = x := by
  cases r <;> rfl

end Desk

namespace Services

variable {σ : Type} (s : Services σ)

theorem halted_runTask (operation : Operation) (role : Option Role) (extra : Fields) (x : Desk σ) :
    Halted x (left (s.runTask operation role extra x)) := by
  rcases s.runTask_cases operation role extra x with
    ⟨e, h⟩ | ⟨name, -, ⟨t, -, h⟩ | ⟨-, h⟩⟩ <;> rw [h]
  · exact halted_of_job_eq rfl
  · rw [left_lift]
    exact halted_of_job_eq rfl
  · rcases s.submit_cases operation name role extra x with
      ⟨t, y, request, hs, -, hj, hc⟩ | ⟨e, y, hs, hj, -⟩
    · rw [bind_of_ok hs, left_lift]
      exact halted_of_putTask (by rw [since_eq hc]; exact List.mem_singleton_self _) hj
    · rw [bind_of_error hs]
      exact halted_of_job_eq hj

end Services

namespace Progress

theorem Keeps.refl (p : Progress) : p.Keeps p := (Builds.refl p).keeps

theorem Keeps.pair {p q : Progress} (h : p.Keeps q) :
    [p, q].Pairwise Keeps ∧ ∀ r ∈ [p, q], r.Keeps q :=
  ⟨List.pairwise_pair.mpr h, by simpa using ⟨h, .refl q⟩⟩

end Progress

/-- What is left by a step that is broken off, by an error or by a task to wait for. -/
def Desk.Spares {σ : Type} (x : Desk σ) :
    EStateM.Result ServiceError (Desk σ) StepResult → Prop
  | .ok .done _ | .ok .settled _ => True
  | .ok (.waiting _) y | .error _ y => Halted x y

namespace Milestone

variable {σ : Type} (s : Services σ) (m : Milestone) (x : Desk σ)

theorem job_look : (left (m.look s x)).job = x.job := by
  unfold look
  cases m.lookup with
  | none => rfl
  | some lookup =>
    obtain ⟨kind, extra⟩ := lookup
    simp only [currentJob_bind]
    split
    · rfl
    · rcases s.lookup_cases kind m.role (extra x.job) x with
        ⟨found, y, request, h, hj, -, -⟩ | ⟨e, y, h, hj, -⟩
      · rw [bind_of_ok h]
        cases found with
        | none => exact hj
        | some found => exact (congrArg Desk.job (left_lift _ y)).trans hj
      · rw [bind_of_error h]
        exact hj

theorem spares_perform : x.Spares (m.perform s x) := by
  have hrun := s.halted_runTask m.operation m.role (m.extra x.job) x
  unfold perform
  rw [currentJob_bind]
  rcases h : s.runTask m.operation m.role (m.extra x.job) x with ⟨t, y⟩ | ⟨e, y⟩ <;> rw [h] at hrun
  · rw [bind_of_ok h]
    by_cases hs : t.state = .successful
    · cases hp : m.ofTask x.job t with
      | ok p =>
        simp only [hs, if_true]
        trivial
      | error e =>
        simp only [hs, if_true]
        exact hrun
    · simp only [hs, if_false]
      exact hrun
  · rw [bind_of_error h]
    exact hrun

theorem spares_run : x.Spares (m.run s x) := by
  unfold run
  rw [currentJob_bind]
  split
  · trivial
  · have hj := m.job_look s x
    have hlook := m.goes_look (upheld_told s) x
    rcases h : m.look s x with ⟨_ | p, y⟩ | ⟨e, y⟩ <;> rw [h] at hj hlook
    · rw [bind_of_ok h]
      have hperform := m.spares_perform s y
      have htold := m.goes_perform (upheld_told s) y
      show x.Spares (m.perform s y)
      rcases hp : m.perform s y with ⟨_ | t | _, z⟩ | ⟨e, z⟩ <;> rw [hp] at hperform htold
      · trivial
      · exact hperform.of_job_eq hj hlook htold
      · trivial
      · exact hperform.of_job_eq hj hlook htold
    · rw [bind_of_ok h]
      trivial
    · rw [bind_of_error h]
      exact halted_of_job_eq hj

end Milestone

namespace Step

variable {σ : Type} (s : Services σ)

theorem spares_run (step : Step) (x : Desk σ) : x.Spares (step.run s x) := by
  cases step with
  | milestone m => exact m.spares_run s x
  | adopt f =>
    have hrun : (Step.adopt f).run s x = _ := currentJob_bind _ x
    rw [hrun]
    cases hf : f x.job with
    | ok p => trivial
    | error e => exact halted_of_job_eq rfl
  | clear =>
    show x.Spares (runClear s x)
    unfold runClear
    rw [currentJob_bind]
    split
    · trivial
    · rcases s.clear_cases x with ⟨y, h, -, -⟩ | ⟨e, e', y, h, hj, -⟩
      · rw [bind_of_ok h]
        trivial
      · rw [bind_of_error h]
        exact halted_of_job_eq hj
  | findProject =>
    show x.Spares (runFindProject s x)
    unfold runFindProject
    rw [currentJob_bind]
    split
    · trivial
    · rcases s.lookup_cases .projectTask none ∅ x with
        ⟨found, y, request, h, hj, -, -⟩ | ⟨e, y, h, hj, -⟩
      · rw [bind_of_ok h]
        cases found with
        | none => trivial
        | some found =>
          cases ho : x.job.ofFoundProject found with
          | ok p => simp only [ho]; trivial
          | error e => simp only [ho]; exact halted_of_job_eq hj
      · rw [bind_of_error h]
        exact halted_of_job_eq hj

/-- What is known after each of the steps that are run in order. -/
def trail (s : Services σ) : List Step → Desk σ → List Progress
  | [], _ => []
  | step :: rest, x =>
    match step.run s x with
    | .ok .done y => y.job.progress :: trail s rest y
    | .ok (.waiting _) y | .ok .settled y | .error _ y => [y.job.progress]

variable {s}

theorem Ladder.keeps {I P Q : Progress → Prop} {steps : List Step} (h : Ladder s I P steps Q)
    {x : Desk σ} (hp : P x.job.progress) :
    (x.job.progress :: trail s steps x).Pairwise Progress.Keeps ∧
    ∀ p ∈ x.job.progress :: trail s steps x, p.Keeps (left (runAll s steps x)).job.progress := by
  -- What is known at the foot of the ladder is kept on every rung: it is enough that each step adds
  -- to it, except for the last one, which may be broken off.
  induction h generalizing x with
  | nil => exact ⟨List.pairwise_singleton _ _, List.forall_mem_singleton.mpr (.refl _)⟩
  | @cons P Q R step rest hstep _ ih =>
    have hfirst := hstep x hp
    rw [runAll_cons]
    unfold trail
    rcases hx : step.run s x with ⟨result, y⟩ | ⟨e, y⟩ <;> rw [hx] at hfirst
    · rw [bind_of_ok hx]
      cases result with
      | done =>
        obtain ⟨hq, hb⟩ := hfirst
        obtain ⟨hpairs, hlast⟩ := ih hq
        have hkeeps : ∀ p ∈ y.job.progress :: trail s rest y, x.job.progress.Keeps p := by
          intro p hmem
          rcases List.mem_cons.mp hmem with rfl | hmem
          · exact hb.keeps
          · exact hb.keeps.trans (List.rel_of_pairwise_cons hpairs hmem)
        refine ⟨List.pairwise_cons.mpr ⟨hkeeps, hpairs⟩, List.forall_mem_cons.mpr ⟨?_, hlast⟩⟩
        exact hb.keeps.trans (hlast _ List.mem_cons_self)
      | waiting t => exact hfirst.2.keeps.pair
      | settled => exact hfirst.pair
    · rw [bind_of_error hx]
      exact hfirst.2.keeps.pair

end Step

namespace Workflow

variable {σ : Type} (w : Workflow) (s : Services σ)

/-- What is known after each step of a turn. -/
def within (x : Desk σ) : Turn → List Progress
  | .work => Step.trail s (w.steps x.job) x
  | .update _ => []

/-- What is known at first, after each step and after each turn. -/
def trail (x : Desk σ) : List Turn → List Progress
  | [] => [x.job.progress]
  | turn :: ts => x.job.progress :: (w.within s x turn ++ trail (w.turn s x turn) ts)

variable {w s} {t : PacketType} {job : Job} {I : Progress → Prop} {x : Desk σ}

theorem exists_ladder (hw : ofType? t = some w) (job : Job) :
    ∃ I : Progress → Prop, I {} ∧ Step.Ladder s I I (w.steps job) I := by
  -- What is admitted on the way is told by the type of a packet, so the job is given the type that
  -- the workflow is for. The steps do not depend on it.
  let typed : Job :=
    { job with packet := { job.packet with type := t }, recordId_eq := job.recordId_eq }
  have hsteps : w.steps typed = w.steps job := by
    unfold ofType? at hw
    split at hw <;> cases hw <;> rfl
  have hladder : Step.Ladder s typed.Admits typed.Admits (w.steps typed) typed.Admits :=
    ladder_steps hw
  exact ⟨typed.Admits, typed.admits_start, hsteps ▸ hladder⟩

theorem keeps_within (h : Step.Ladder s I I (w.steps x.job) I) (hI : I x.job.progress)
    (turn : Turn) : (x.job.progress :: w.within s x turn).Pairwise Progress.Keeps ∧
      ∀ p ∈ x.job.progress :: w.within s x turn, p.Keeps (w.turn s x turn).job.progress := by
  cases turn with
  | work =>
    have hleft : w.turn s x .work = left (Step.runAll s (w.steps x.job) x) := w.left_work s x
    rw [hleft]
    exact h.keeps hI
  | update u =>
    have hsame : (w.turn s x (.update u)).job.progress = x.job.progress := by simp [turn]
    rw [hsame]
    exact ⟨List.pairwise_singleton _ _, List.forall_mem_singleton.mpr (.refl _)⟩

theorem of_unanswered (h : Step.Ladder s I I (w.steps x.job) I) (hI : I x.job.progress)
    (hu : w.answer? s x = none) : I (w.turn s x .work).job.progress := by
  have hgains := h.gainsAll x hI
  rcases hr : Step.runAll s (w.steps x.job) x with ⟨_ | u | _, y⟩ | ⟨e, y⟩ <;> rw [hr] at hgains
  · simp [answer?, w.work_of_end hr (by simp)] at hu
  · rw [turn, w.work_of_waiting hr]
    exact hgains.1
  · simp [answer?, w.work_of_end hr (by simp)] at hu
  · rw [turn, w.work_of_error hr]
    exact hgains.1

theorem head_trail (x : Desk σ) (ts : List Turn) :
    w.trail s x ts = x.job.progress :: (w.trail s x ts).tail := by
  cases ts <;> rfl

/-- What is known in the course of a turn is known after it, and so in all turns to come. -/
theorem keeps_trail_cons (h : Step.Ladder s I I (w.steps x.job) I) (hI : I x.job.progress)
    (turn : Turn) {ts : List Turn}
    (hrest : (w.trail s (w.turn s x turn) ts).Pairwise Progress.Keeps) :
    (w.trail s x (turn :: ts)).Pairwise Progress.Keeps := by
  obtain ⟨hwithin, hafter⟩ := keeps_within h hI turn
  have hfirst : ∀ q ∈ w.trail s (w.turn s x turn) ts,
      (w.turn s x turn).job.progress.Keeps q := by
    rw [head_trail] at hrest ⊢
    exact List.forall_mem_cons.mpr ⟨.refl _, fun q hq => List.rel_of_pairwise_cons hrest hq⟩
  rw [trail, ← List.cons_append]
  exact List.pairwise_append.mpr
    ⟨hwithin, hrest, fun p hp q hq => (hafter p hp).trans (hfirst q hq)⟩

theorem keeps_trail
    (h : ∀ y : Desk σ, y.job.packet = job.packet → Step.Ladder s I I (w.steps y.job) I)
    (hx : x.job.packet = job.packet) (hI : I x.job.progress) {ts : List Turn}
    (hu : w.Unanswered s x ts) : (w.trail s x (ts ++ [.work])).Pairwise Progress.Keeps := by
  induction ts generalizing x with
  | nil => exact keeps_trail_cons (h x hx) hI .work (List.pairwise_singleton _ _)
  | cons turn ts ih =>
    have hpacket := (w.grew_turn s x turn).1.trans hx
    cases turn with
    | work =>
      obtain ⟨hnone, hu⟩ := hu
      exact keeps_trail_cons (h x hx) hI .work (ih hpacket (of_unanswered (h x hx) hI hnone) hu)
    | update u =>
      have hsame : (w.turn s x (.update u)).job.progress = x.job.progress := by simp [turn]
      exact keeps_trail_cons (h x hx) hI (.update u) (ih hpacket (hsame ▸ hI) hu)

/-- A step that ends in an error or in a task to wait for leaves the job as it was but for the task
that it submitted. From the start of the work on a job to its first reply nothing is lost that was
known. -/
theorem progress_is_kept (s : Services σ) :
    (∀ (step : Step) (x y : Desk σ),
      (∃ e, step.run s x = .error e y) ∨ (∃ t, step.run s x = .ok (.waiting t) y) → Halted x y) ∧
    ∀ {t : PacketType} {w : Workflow}, ofType? t = some w →
      ∀ (job : Job) (outside : σ) (localEpisode remoteEpisode : Option Episode) (ts : List Turn),
        w.Unanswered s (.opened job outside localEpisode remoteEpisode) ts →
        (w.trail s (.opened job outside localEpisode remoteEpisode) (ts ++ [.work])).Pairwise
          Progress.Keeps := by
  constructor
  · rintro step x y (⟨e, h⟩ | ⟨t, h⟩)
    · have hspares := step.spares_run s x
      rwa [h] at hspares
    · have hspares := step.spares_run s x
      rwa [h] at hspares
  · intro t w hw job outside localEpisode remoteEpisode ts hu
    obtain ⟨I, hstart, hladder⟩ := exists_ladder (s := s) hw job
    refine keeps_trail (fun y (hy : y.job.packet = job.packet) => ?_) rfl hstart hu
    rwa [steps_congr hw hy]

/-- A step ends in a task to wait for. -/
def waits : EStateM.Result ServiceError (Desk σ) StepResult → Bool
  | .ok (.waiting _) _ => true
  | _ => false

theorem of_waits {result : EStateM.Result ServiceError (Desk σ) StepResult}
    (h : waits result = true) : ∃ t y, result = .ok (.waiting t) y := by
  unfold waits at h
  split at h
  · exact ⟨_, _, rfl⟩
  · cases h

theorem progress_is_kept_accountCreate :
    (∃ t y, (Step.milestone .notice).run unhurried
        (accountDesk.withProgress { personId := some "u-1" }) = .ok (.waiting t) y ∧
      Halted (accountDesk.withProgress { personId := some "u-1" }) y) ∧
    accountCreate.Unanswered unhurried (.opened accountJob () none none) rounds ∧
    (accountCreate.trail unhurried (.opened accountJob () none none) (rounds ++ [.work])).Pairwise
      Progress.Keeps := by
  obtain ⟨hsteps, htrail⟩ := progress_is_kept unhurried
  obtain ⟨t, y, h⟩ : ∃ t y, (Step.milestone .notice).run unhurried
      (accountDesk.withProgress { personId := some "u-1" }) = .ok (.waiting t) y :=
    of_waits (by decide +kernel)
  have hu : accountCreate.Unanswered unhurried (.opened accountJob () none none) rounds :=
    ⟨Option.isNone_iff_eq_none.mp (by decide +kernel), trivial⟩
  exact ⟨⟨t, y, h, hsteps _ _ _ (.inr ⟨t, h⟩)⟩, hu,
    htrail (t := .requestAccountCreate) rfl accountJob () none none rounds hu⟩

end Workflow

end SiteBroker
