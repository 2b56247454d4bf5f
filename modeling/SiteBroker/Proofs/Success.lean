import SiteBroker.Proofs.Milestones
import SiteBroker.Proofs.Step

/-! No reply reports success before the local service did: each step behind it was completed by an
answer that gave its result or by a successful task. -/

namespace SiteBroker

open Program Desk

theorem Json.Supplies.congr {found : Json} {kind : LookupKind} {job job' : Job}
    {role : Option Role} (h : found.Supplies kind job role) (hp : job'.packet = job.packet) :
    found.Supplies kind job' role := by
  rcases h with h | ⟨hk, r, hr, h⟩
  · exact .inl h
  · refine .inr ⟨hk, r, hr, ?_⟩
    simpa only [Job.roleText?, Job.fieldText?, Job.field?, Job.fields, hp] using h

/-- What came in during the work on a job: the calls with their answers, and the tasks that the job
was found to have. -/
structure Hearing where
  calls : List Exchange
  recorded : TaskRecord → Prop

namespace Hearing

variable {σ : Type} (s : Services σ) (h : Hearing)

/-- A task of the operation was successful, as the answer to a request or by its record. -/
def Succeeded (operation : Operation) (t : TaskRecord) : Prop :=
  t.state = .successful ∧ (Submitted h.calls operation t ∨
    s.taskName? operation = some t.name ∧ (h.recorded t ∨ ∃ o, Submitted h.calls o t))

/-- The person was reported as active when found or added. -/
def PersonActive : Prop :=
  (∃ found, Found h.calls .person found ∧ ReportsActive (found.field? "active")) ∨
  ∃ t, h.Succeeded s .chooseOrAddPerson t ∧ ReportsActive (t.product? "active")

/-- A milestone was completed by an answer to its lookup or by a successful task. Nobody has to be
activated who is active. -/
def Accomplished (job : Job) (m : Milestone) : Prop :=
  (∃ kind extra found, m.lookup = some (kind, extra) ∧ Found h.calls kind found ∧
    found.Supplies kind job m.role) ∨
  (∃ t, h.Succeeded s m.operation t) ∨
  m.operation = .activatePerson ∧ h.PersonActive s

/-- What a step asks of the local service was done. -/
def Completes (job : Job) : Step → Prop
  | .milestone m => h.Accomplished s job m
  | .clear => ⟨.clear job.transactionId, .ok ()⟩ ∈ h.calls
  | .adopt _ | .findProject => True

def ProjectFound : Prop :=
  ∃ found, Found h.calls .projectTask found ∧ (found.foundText? "ProjectID").isSome = true

end Hearing

namespace Hearing

variable {σ : Type} {s : Services σ} {h : Hearing} {job : Job} {steps : List Step} {x y : Desk σ}

/-- What the job at a desk has to show was heard. -/
structure Backs (s : Services σ) (h : Hearing) (job : Job) (steps : List Step) (x : Desk σ) :
    Prop where
  packet : x.job.packet = job.packet
  tasks : ∀ {name t}, x.job.tasks.get? name = some t → h.recorded t ∨ ∃ o, Submitted h.calls o t
  reached : ∀ {m}, .milestone m ∈ steps → x.job.progress.shows m.operation = true →
    h.Accomplished s job m
  cleared : .clear ∈ steps → x.job.progress.transactionCleared = some true →
    ⟨.clear job.transactionId, .ok ()⟩ ∈ h.calls

/-- What is known once steps have ended: they are complete, or a project was found, or there is
still work to do at a desk that is backed. -/
def Bears (s : Services σ) (h : Hearing) (job : Job) (steps done : List Step) :
    EStateM.Result ServiceError (Desk σ) StepResult → Prop
  | .ok .done y => h.Backs s job steps y ∧ ∀ step ∈ done, h.Completes s job step
  | .ok .settled _ => .findProject ∈ done ∧ h.ProjectFound
  | .ok (.waiting _) y | .error _ y => h.Backs s job steps y

/-- The tasks of the job at a desk were heard of. -/
def Lists (h : Hearing) (x : Desk σ) : Prop := ∀ name t, x.job.tasks.get? name = some t →
  h.recorded t ∨ ∃ o, Submitted h.calls o t

theorem Lists.of_worked (hx : h.Lists x) (hw : Worked x y) (hc : y.world.calls ⊆ h.calls) :
    h.Lists y := by
  intro name t ht
  rcases hw.tasks ht with ht | ⟨o, ht⟩
  · exact hx name t ht
  · exact .inr ⟨o, ht.mono hc⟩

theorem Lists.succeeded (hx : h.Lists x) {operation : Operation} {t : TaskRecord}
    (ht : Obtained s x y operation t) (hc : y.world.calls ⊆ h.calls) (hs : t.state = .successful) :
    h.Succeeded s operation t := by
  refine ⟨hs, ?_⟩
  rcases ht with ht | ⟨hname, ht | ⟨o, ht⟩⟩
  · exact .inl (ht.mono hc)
  · exact .inr ⟨hname, hx _ _ ht⟩
  · exact .inr ⟨hname, .inr ⟨o, ht.mono hc⟩⟩

theorem Backs.lists (hb : h.Backs s job steps x) : h.Lists x := fun _ _ => hb.tasks

theorem Backs.of_worked (hb : h.Backs s job steps x) (hw : Worked x y)
    (hc : y.world.calls ⊆ h.calls) : h.Backs s job steps y where
  packet := hw.packet.trans hb.packet
  tasks := hb.lists.of_worked hw hc _ _
  reached hm hs := hb.reached hm (by rwa [hw.progress] at hs)
  cleared hm hs := hb.cleared hm (by rwa [hw.progress] at hs)

/-- New progress at a backed desk has to be backed as to the results of milestones and as to the
dropping of records. -/
theorem Backs.withProgress (hb : h.Backs s job steps x) {p : Progress}
    (hr : ∀ {m}, .milestone m ∈ steps → p.shows m.operation = true → h.Accomplished s job m)
    (hc : .clear ∈ steps → ⟨.clear job.transactionId, .ok ()⟩ ∈ h.calls) :
    h.Backs s job steps (x.withProgress p) where
  packet := hb.packet
  tasks := hb.tasks
  reached := hr
  cleared hm _ := hc hm

theorem Backs.shows_of_found (hc : Coherent steps) (hb : h.Backs s job steps x) {m : Milestone}
    (hm : .milestone m ∈ steps) {kind : LookupKind} {extra : Job → Fields} {found : Json}
    {p : Progress} (hl : m.lookup = some (kind, extra)) (hf : Found h.calls kind found)
    (hp : m.ofFound x.job found = .ok (some p)) {m' : Milestone} (hm' : .milestone m' ∈ steps)
    (hs : p.shows m'.operation = true) : h.Accomplished s job m' := by
  rcases (hc.regular _ hm).ofFound hl hp _ hs with ho | ho | ⟨ho, hk, ha⟩
  · obtain rfl := hc.alone hm' hm ho
    have hsup := (hc.regular _ hm).supplies hl hp
    exact .inl ⟨kind, extra, found, hl, hf, hsup.congr hb.packet.symm⟩
  · exact hb.reached hm' ho
  · subst hk
    exact .inr (.inr ⟨ho, .inl ⟨found, hf, ha⟩⟩)

theorem Backs.shows_of_task (hc : Coherent steps) (hb : h.Backs s job steps x) {m : Milestone}
    (hm : .milestone m ∈ steps) {t : TaskRecord} (ht : h.Succeeded s m.operation t) {job' : Job}
    (hj : job'.progress = x.job.progress) {p : Progress} (hp : m.ofTask job' t = .ok p)
    {m' : Milestone} (hm' : .milestone m' ∈ steps) (hs : p.shows m'.operation = true) :
    h.Accomplished s job m' := by
  rcases (hc.regular _ hm).ofTask hp _ hs with ho | ho | ho | ⟨ho, hop, ha⟩
  · obtain rfl := hc.alone hm' hm ho
    exact .inr (.inl ⟨t, ht⟩)
  · exact absurd ho (hc.apart _ (mem_operations hm) _ (mem_operations hm'))
  · rw [hj] at ho
    exact hb.reached hm' ho
  · rw [hop] at ht
    exact .inr (.inr ⟨ho, .inr ⟨t, ht, ha⟩⟩)

theorem Backs.runMilestone (hc : Coherent steps) {m : Milestone} (hm : .milestone m ∈ steps)
    (hb : h.Backs s job steps x) (hcalls : (left (m.run s x)).world.calls ⊆ h.calls) :
    h.Bears s job steps [.milestone m] (m.run s x) := by
  have hclear : .clear ∉ steps := fun hcl => by cases hc.clears hcl _ hm
  rcases m.run_cases s x with ⟨y, hy, hdone⟩ | ⟨y, hw, ⟨t, hy⟩ | ⟨e, hy⟩⟩ <;> rw [hy] at hcalls ⊢
  · cases hdone with
    | before hr =>
      rw [(hc.regular _ hm).isReached_eq] at hr
      exact ⟨hb, List.forall_mem_singleton.mpr (hb.reached hm hr)⟩
    | found hl hf hp hw =>
      have hf' := hf.mono hcalls
      have hsup := (hc.regular _ hm).supplies hl hp
      refine ⟨(hb.of_worked hw hcalls).withProgress ?_ fun hcl => absurd hcl hclear, ?_⟩
      · exact fun hm' hs => hb.shows_of_found hc hm hl hf' hp hm' hs
      · exact List.forall_mem_singleton.mpr (.inl ⟨_, _, _, hl, hf', hsup.congr hb.packet.symm⟩)
    | task hs ht hj hp hw =>
      have ht' := hb.lists.succeeded ht hcalls hs
      refine ⟨(hb.of_worked hw hcalls).withProgress ?_ fun hcl => absurd hcl hclear, ?_⟩
      · exact fun hm' hs => hb.shows_of_task hc hm ht' hj hp hm' hs
      · exact List.forall_mem_singleton.mpr (.inr (.inl ⟨_, ht'⟩))
  · exact hb.of_worked hw hcalls
  · exact hb.of_worked hw hcalls

theorem Backs.runClear (hc : Coherent steps) (hst : .clear ∈ steps) (hb : h.Backs s job steps x)
    (hcalls : (left (Step.runClear s x)).world.calls ⊆ h.calls) :
    h.Bears s job steps [.clear] (Step.runClear s x) := by
  have hno : ∀ {m}, .milestone m ∉ steps := fun hm => by cases hc.clears hst _ hm
  rcases Step.runClear_cases s x with ⟨hd, hy⟩ | ⟨y, hw, hx, hy⟩ | ⟨e, y, hw, hy⟩ <;>
    rw [hy] at hcalls ⊢
  · exact ⟨hb, List.forall_mem_singleton.mpr (hb.cleared hst hd)⟩
  · have hx' : ⟨.clear job.transactionId, .ok ()⟩ ∈ h.calls := by
      rw [Job.transactionId, ← hb.packet]
      exact hcalls hx
    refine ⟨(hb.of_worked hw hcalls).withProgress (fun hm => absurd hm hno) fun _ => hx', ?_⟩
    exact List.forall_mem_singleton.mpr hx'
  · exact hb.of_worked hw hcalls

theorem Backs.run (hc : Coherent steps) {step : Step} (hst : step ∈ steps)
    (hb : h.Backs s job steps x) (hcalls : (left (step.run s x)).world.calls ⊆ h.calls) :
    h.Bears s job steps [step] (step.run s x) := by
  cases step with
  | milestone m => exact hb.runMilestone hc hst hcalls
  | clear => exact hb.runClear hc hst hcalls
  | adopt f =>
    have hclear : .clear ∉ steps := fun hcl => by cases hc.clears hcl _ hst
    have hrun : (Step.adopt f).run s x = _ := currentJob_bind _ x
    rw [hrun]
    cases hf : f x.job with
    | error e => exact hb
    | ok p =>
      refine ⟨hb.withProgress (fun hm hs => ?_) fun hcl => absurd hcl hclear,
        List.forall_mem_singleton.mpr trivial⟩
      exact hb.reached hm (hc.adopts hst hf (mem_operations hm) hs)
  | findProject =>
    have hrun : Step.findProject.run s = Step.runFindProject s := rfl
    rw [hrun] at hcalls ⊢
    rcases Step.runFindProject_cases s x with
      ⟨found, y, hy, hf, hid⟩ | ⟨y, hw, hy | ⟨e, hy⟩⟩ <;> rw [hy] at hcalls ⊢
    · exact ⟨by simp, found, hf.mono hcalls, hid⟩
    · exact ⟨hb.of_worked hw hcalls, List.forall_mem_singleton.mpr trivial⟩
    · exact hb.of_worked hw hcalls

/-- Steps that are run in order leave a backed desk, or complete what was to be done. -/
theorem Backs.runAll (hc : Coherent steps) {rest : List Step} (hrest : rest ⊆ steps)
    (hb : h.Backs s job steps x) (hcalls : (left (Step.runAll s rest x)).world.calls ⊆ h.calls) :
    h.Bears s job steps rest (Step.runAll s rest x) := by
  induction rest generalizing x with
  | nil => exact ⟨hb, List.forall_mem_nil _⟩
  | cons step rest ih =>
    obtain ⟨hst, hrest⟩ := List.cons_subset.mp hrest
    cases hx : step.run s x with
    | error e y =>
      have hrun : Step.runAll s (step :: rest) x = _ := bind_of_error hx _
      rw [hrun] at hcalls ⊢
      have h' := hb.run hc hst (by rwa [hx])
      rwa [hx] at h'
    | ok result y =>
      have hrun : Step.runAll s (step :: rest) x = _ := bind_of_ok hx _
      rw [hrun] at hcalls ⊢
      cases result with
      -- Only a step that is done goes on to the rest.
      | done =>
        have hg := Step.goes_runAll (upheld_grew s) rest y
        have h' := hb.run hc hst (by rw [hx]; exact List.Subset.trans hg.2 hcalls)
        rw [hx] at h'
        obtain ⟨hb', hdone⟩ := h'
        have hlast := ih hrest hb' hcalls
        revert hlast
        dsimp only
        rcases Step.runAll s rest y with ⟨result, z⟩ | ⟨e, z⟩
        · cases result with
          | done =>
            rintro ⟨hz, hall⟩
            exact ⟨hz, List.forall_mem_cons.mpr ⟨List.forall_mem_singleton.mp hdone, hall⟩⟩
          | waiting t => exact id
          | settled => exact fun hs => ⟨List.mem_cons_of_mem _ hs.1, hs.2⟩
        · exact id
      | waiting t =>
        have h' := hb.run hc hst (by rwa [hx])
        rwa [hx] at h'
      | settled =>
        have h' := hb.run hc hst (by rwa [hx])
        rw [hx] at h'
        exact ⟨by simpa using Or.inl (List.mem_singleton.mp h'.1), h'.2⟩

end Hearing

/-- What happens to a job: it is worked on, or a task of it comes in. -/
inductive Turn where
  | work
  | update (t : TaskRecord)

/-- The desk at which the work on a job begins. -/
def Desk.opened {σ : Type} (job : Job) (outside : σ) (localEpisode remoteEpisode : Option Episode) :
    Desk σ :=
  ⟨{ job with progress := {} }, { outside, localEpisode, remoteEpisode }⟩

namespace Workflow

variable {σ : Type} (w : Workflow) (s : Services σ)

/-- The reply that a round of work ends in. -/
def answer? (x : Desk σ) : Option Packet :=
  match w.work s x with
  | .ok (.reply p) _ => some p
  | _ => none

def turn (x : Desk σ) : Turn → Desk σ
  | .work => left (w.work s x)
  | .update t => { x with job := x.job.putTask t }

def turns (x : Desk σ) (ts : List Turn) : Desk σ := ts.foldl (w.turn s) x

/-- No round of work ends in a reply. -/
def Unanswered (x : Desk σ) : List Turn → Prop
  | [] => True
  | .work :: ts => w.answer? s x = none ∧ Unanswered (w.turn s x .work) ts
  | .update t :: ts => Unanswered (w.turn s x (.update t)) ts

/-- What came in during some turns and a round of work after them. -/
def heard (x : Desk σ) (ts : List Turn) : Hearing where
  calls := (w.turns s x (ts ++ [.work])).world.calls
  recorded t := ∃ ts', ts' <+: ts ∧ (w.turns s x ts').job.tasks.get? t.name = some t

section

variable {w s} {x y : Desk σ}

theorem work_of_error {e : ServiceError} (h : Step.runAll s (w.steps x.job) x = .error e y) :
    w.work s x = .error e y := by
  unfold work
  rw [currentJob_bind, bind_of_error h]

theorem work_of_waiting {u : TaskRecord}
    (h : Step.runAll s (w.steps x.job) x = .ok (.waiting u) y) :
    w.work s x = .ok (.pending u) y := by
  unfold work
  rw [currentJob_bind, bind_of_ok h]
  rfl

/-- Steps that did not have to wait are followed by the reply, be they done or settled. -/
theorem work_of_end {result : StepResult} (h : Step.runAll s (w.steps x.job) x = .ok result y)
    (hn : ∀ u, result ≠ .waiting u) : w.work s x = .ok (.reply (w.reply y.job)) y := by
  unfold work
  rw [currentJob_bind, bind_of_ok h]
  cases result with
  | waiting u => exact absurd rfl (hn u)
  | done => rfl
  | settled => rfl

end

theorem turns_append (x : Desk σ) (ts ts' : List Turn) :
    w.turns s x (ts ++ ts') = w.turns s (w.turns s x ts) ts' := List.foldl_append

theorem calls_heard (x : Desk σ) (ts : List Turn) :
    (w.heard s x ts).calls = (left (w.work s (w.turns s x ts))).world.calls := by
  unfold heard
  rw [turns_append]
  rfl

theorem grew_turn (x : Desk σ) (turn : Turn) : Grew x (w.turn s x turn) := by
  cases turn with
  | work => exact w.goes_work (upheld_grew s) x
  | update t => exact ⟨Job.packet_putTask x.job t, List.Subset.refl _⟩

theorem grew_turns (x : Desk σ) (ts : List Turn) : Grew x (w.turns s x ts) := by
  induction ts generalizing x with
  | nil => exact refl_of Grew x
  | cons turn ts ih => exact trans_of Grew (w.grew_turn s x turn) (ih _)

variable {s}

/-- Whatever was asked and recorded up to some turn was heard. -/
theorem calls_turns_subset {x : Desk σ} {before ts : List Turn} (h : before <+: ts) :
    (w.turns s x before).world.calls ⊆ (w.heard s x ts).calls := by
  obtain ⟨after, rfl⟩ := h
  have hg := w.grew_turns s (w.turns s x before) (after ++ [.work])
  rw [← w.turns_append, ← List.append_assoc] at hg
  exact hg.2

theorem lists_turns {x : Desk σ} {before ts : List Turn} (h : before <+: ts) :
    (w.heard s x ts).Lists (w.turns s x before) := by
  intro name t ht
  refine .inl ⟨before, h, ?_⟩
  rw [TaskList.name_eq ht, ht]

end Workflow

namespace Hearing

variable {σ : Type} {s : Services σ} {h : Hearing} {job : Job} {x : Desk σ} {w : Workflow}
  {t : PacketType}

/-- A round of work at a backed desk leaves it backed, or ends in a reply that is due. -/
theorem Backs.work (hw : Workflow.ofType? t = some w) (hb : h.Backs s job (w.steps job) x)
    (hcalls : (left (w.work s x)).world.calls ⊆ h.calls) :
    (w.answer? s x = none → h.Backs s job (w.steps job) (left (w.work s x))) ∧
    ∀ p, w.answer? s x = some p → (∀ step ∈ w.steps job, h.Completes s job step) ∨
      t = .requestProjectCreate ∧ h.ProjectFound := by
  have hc := Workflow.coherent_steps hw job
  have hsteps : w.steps x.job = w.steps job := Workflow.steps_congr hw hb.packet
  cases hr : Step.runAll s (w.steps x.job) x with
  | error e y =>
    have hwork := w.work_of_error hr
    rw [hwork] at hcalls
    rw [hsteps] at hr
    have h' := hb.runAll hc (List.Subset.refl _) (by rwa [hr])
    rw [hr] at h'
    exact ⟨fun _ => by rwa [hwork], fun p hp => by simp [Workflow.answer?, hwork] at hp⟩
  | ok result y =>
    have hy : y.world.calls ⊆ h.calls := by
      cases result with
      | waiting u => rwa [w.work_of_waiting hr] at hcalls
      | done => rwa [w.work_of_end hr (by simp)] at hcalls
      | settled => rwa [w.work_of_end hr (by simp)] at hcalls
    have hr' : Step.runAll s (w.steps job) x = .ok result y := by rwa [hsteps] at hr
    have h' := hb.runAll hc (List.Subset.refl _) (by rwa [hr'])
    rw [hr'] at h'
    cases result with
    | waiting u =>
      have hwork := w.work_of_waiting hr
      exact ⟨fun _ => by rwa [hwork], fun p hp => by simp [Workflow.answer?, hwork] at hp⟩
    | done =>
      have hwork := w.work_of_end hr (by simp)
      exact ⟨fun hn => by simp [Workflow.answer?, hwork] at hn, fun _ _ => .inl h'.2⟩
    | settled =>
      have hwork := w.work_of_end hr (by simp)
      exact ⟨fun hn => by simp [Workflow.answer?, hwork] at hn,
        fun _ _ => .inr ⟨Workflow.type_of_findProject hw h'.1, h'.2⟩⟩

/-- The work opens with no progress, so there is nothing to be backed but the tasks of the job. -/
theorem Backs.opened (job : Job) (outside : σ) (localEpisode remoteEpisode : Option Episode)
    (ts : List Turn) :
    (w.heard s (Desk.opened job outside localEpisode remoteEpisode) ts).Backs s job (w.steps job)
      (w.turns s (Desk.opened job outside localEpisode remoteEpisode) []) := by
  refine ⟨rfl, w.lists_turns List.nil_prefix _ _, fun {m} _ hs => ?_, fun _ hc => ?_⟩
  · cases ho : m.operation <;> simp [Workflow.turns, Desk.opened, ho, Progress.shows] at hs
  · simp [Workflow.turns, Desk.opened] at hc

theorem Backs.turns (hw : Workflow.ofType? t = some w) {ts before after : List Turn}
    (hts : before ++ after = ts)
    (hb : (w.heard s x ts).Backs s job (w.steps job) (w.turns s x before))
    (hu : w.Unanswered s (w.turns s x before) after) :
    (w.heard s x ts).Backs s job (w.steps job) (w.turns s x ts) := by
  induction after generalizing before with
  | nil =>
    obtain rfl : before = ts := by simpa using hts
    exact hb
  | cons turn after ih =>
    have hts' : (before ++ [turn]) ++ after = ts := by simpa using hts
    have hlast : w.turns s x (before ++ [turn]) = w.turn s (w.turns s x before) turn :=
      w.turns_append s x before [turn]
    have hcalls := w.calls_turns_subset (s := s) (x := x) ⟨after, hts'⟩
    have htasks := w.lists_turns (s := s) (x := x) ⟨after, hts'⟩
    rw [hlast] at hcalls htasks
    cases turn with
    | work =>
      obtain ⟨ha, hu⟩ := hu
      have hb' := (hb.work hw hcalls).1 ha
      exact ih hts' (by rwa [hlast]) (by rwa [hlast])
    | update u =>
      refine ih hts' ?_ (by rwa [hlast])
      rw [hlast]
      refine ⟨(Job.packet_putTask _ u).trans hb.packet, htasks _ _, ?_, ?_⟩
      · exact fun hm hs => hb.reached hm (by simpa [Workflow.turn] using hs)
      · exact fun hm hs => hb.cleared hm (by simpa [Workflow.turn] using hs)

end Hearing

namespace Workflow

variable {σ : Type} {s : Services σ} {w : Workflow} {t : PacketType}

/-- When the work on a job ends in its first reply, all that its steps ask of the local service was
done. The only other reply reports a project that had been set up before. -/
theorem completes_of_answer (hw : ofType? t = some w) {job : Job} {outside : σ}
    {localEpisode remoteEpisode : Option Episode} {ts : List Turn}
    (hu : w.Unanswered s (Desk.opened job outside localEpisode remoteEpisode) ts) {p : Packet}
    (hp : w.answer? s (w.turns s (Desk.opened job outside localEpisode remoteEpisode) ts) =
      some p) :
    (∀ step ∈ w.steps job,
      (w.heard s (Desk.opened job outside localEpisode remoteEpisode) ts).Completes s job step) ∨
    t = .requestProjectCreate ∧
      (w.heard s (Desk.opened job outside localEpisode remoteEpisode) ts).ProjectFound := by
  have hb := Hearing.Backs.opened (w := w) (s := s) job outside localEpisode remoteEpisode ts
  have hlast := hb.turns hw (List.nil_append ts) hu
  have hcalls := w.calls_heard s (Desk.opened job outside localEpisode remoteEpisode) ts
  exact (hlast.work hw (hcalls ▸ List.Subset.refl _)).2 p hp

/-- Services that know of everyone but of no code for their organization, and do all that they are
asked to. -/
def obliging : Services Unit where
  environment := {
    clock := ⟨fun u => (.epoch, u), fun _ u => u⟩
    answer := fun
      | .getTasks .., u => (.ok [], u)
      | .clear _, u => (.ok (), u)
      | .lookup request, u =>
        match request.kind with
        | .org => (.ok (some (.obj [])), u)
        | .person => (.ok (some (.obj [("PersonID", .str "u-1"), ("active", .bool true)])), u)
        | _ => (.ok none, u)
      | .submit request, u =>
        (.ok ⟨request.keys, request.taskName, .successful, request.timestamp, []⟩, u)
      | .listPackets _, u => (.ok [], u)
      | .sendPacket _, u => (.ok (), u) }
  localPolicy := { name := "local" }
  remotePolicy := { name := "remote" }
  taskName? o := some o.name

/-- A job for an account. Its packet has the code of the organization. -/
def accountJob : Job where
  packet := {
    type := .requestAccountCreate
    header := ⟨some 100, 5, 42, "ORIG", "REMOTE", "LOCAL", none, none, none⟩
    body := Fields.ofList [
      ("GrantNumber", .str "TG-1"), ("ProjectID", .str "p-1"),
      ("ResourceList", .arr [.str "cluster"]), ("UserFirstName", .str "Ada"),
      ("UserLastName", .str "Lovelace"), ("UserOrganization", .str "Engines"),
      ("UserOrgCode", .str "0012345")] }
  recordId := 100
  timestamp := .epoch
  tasks := ∅
  progress := {}
  recordId_eq := rfl

/-- A notice that is queued at first and has been given later. -/
def noticeTurns : List Turn :=
  [.update ⟨accountJob.taskKeys, "notify_user", .queued, .epoch, []⟩, .work,
    .update ⟨accountJob.taskKeys, "notify_user", .successful, .ofMillis 1000, []⟩]

theorem completes_accountCreate :
    accountCreate.Unanswered obliging (.opened accountJob () none none) noticeTurns ∧
    (accountCreate.answer? obliging
      (accountCreate.turns obliging (.opened accountJob () none none) noticeTurns)).isSome = true ∧
    ∀ step ∈ accountCreate.steps accountJob,
      (accountCreate.heard obliging (.opened accountJob () none none) noticeTurns).Completes
        obliging accountJob step := by
  have hu : accountCreate.Unanswered obliging (.opened accountJob () none none) noticeTurns :=
    ⟨Option.isNone_iff_eq_none.mp (by decide +kernel), trivial⟩
  have hp : (accountCreate.answer? obliging (accountCreate.turns obliging
      (.opened accountJob () none none) noticeTurns)).isSome = true := by decide +kernel
  obtain ⟨p, hp'⟩ := Option.isSome_iff_exists.mp hp
  have ht : ofType? .requestAccountCreate = some accountCreate := rfl
  refine ⟨hu, hp, (completes_of_answer ht hu hp').resolve_right ?_⟩
  rintro ⟨h, -⟩
  cases h

/-- An answer that does not give the code of an organization, nor a task about one. -/
def silentOnOrg : Exchange → Bool
  | ⟨.lookup request, .ok (some found)⟩ =>
    request.kind != .org || (Json.foundText? "OrgCode" found).isNone
  | ⟨.submit request, .ok t⟩ =>
    request.operation != .chooseOrAddOrg && TaskRecord.name t != "choose_or_add_org"
  | _ => true

/-- The code of the organization comes from the packet alone. -/
theorem answer_without_orgCode :
    (accountCreate.answer? obliging (.opened accountJob () none none)).isSome = true ∧
    .milestone (.orgCode .user) ∈ accountCreate.steps accountJob ∧
    (¬ ∃ found,
      Found (accountCreate.heard obliging (.opened accountJob () none none) []).calls .org found ∧
      (found.foundText? "OrgCode").isSome = true) ∧
    ¬ ∃ t, (accountCreate.heard obliging (.opened accountJob () none none) []).Succeeded obliging
      .chooseOrAddOrg t := by
  have hsilent : (accountCreate.heard obliging (.opened accountJob () none none) []).calls.all
      silentOnOrg = true := by decide +kernel
  rw [List.all_eq_true] at hsilent
  refine ⟨by decide +kernel, by simp [accountCreate], ?_, ?_⟩
  · rintro ⟨found, ⟨request, hk, hx⟩, hc⟩
    have hs := hsilent _ hx
    simp [silentOnOrg, hk] at hs
    simp [hs] at hc
  · rintro ⟨t, -, ⟨request, ho, hx⟩ | ⟨hn, ⟨ts, hts, ht⟩ | ⟨o, request, -, hx⟩⟩⟩
    · simpa [silentOnOrg, ho] using hsilent _ hx
    · obtain rfl := List.prefix_nil.mp hts
      simp [turns, Desk.opened, accountJob] at ht
    · have hname : t.name = "choose_or_add_org" := (Option.some.inj hn).symm
      simpa [silentOnOrg, hname] using hsilent _ hx

end Workflow

end SiteBroker
