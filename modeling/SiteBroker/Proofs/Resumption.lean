import SiteBroker.Proofs.Rebuilding
import SiteBroker.Proofs.Thrift

/-! Work that is taken up again repeats nothing. The search for a project is the one step that
leaves it to those after it that there is no need to ask again. -/

namespace SiteBroker

open Program Desk

namespace Milestone

theorem matches_of_lookup {m : Milestone} {kind : LookupKind} {extra : Job → Fields}
    (h : m.lookup = some (kind, extra)) (hk : kind.operation = m.operation)
    (hne : kind ≠ .projectTask) : m.Matches := by
  intro kind' extra' h'
  rw [h] at h'
  cases h'
  exact ⟨hk, hne⟩

theorem matches_of_unlooked {m : Milestone} (h : m.lookup = none) : m.Matches := by
  intro kind extra h'
  rw [h] at h'
  cases h'

@[simp] theorem matches_orgCode (role : Role) : (orgCode role).Matches :=
  matches_of_lookup rfl rfl (by decide)

@[simp] theorem matches_person (role : Role) : (person role).Matches :=
  matches_of_lookup rfl rfl (by decide)

@[simp] theorem matches_localFos : localFos.Matches := matches_of_lookup rfl rfl (by decide)

@[simp] theorem matches_siteGrantKey : siteGrantKey.Matches :=
  matches_of_lookup rfl rfl (by decide)

@[simp] theorem matches_projectNameBase : projectNameBase.Matches :=
  matches_of_lookup rfl rfl (by decide)

@[simp] theorem matches_activePerson (role : Role) : (activePerson role).Matches :=
  matches_of_unlooked rfl

@[simp] theorem matches_project : project.Matches := matches_of_unlooked rfl

@[simp] theorem matches_account : account.Matches := matches_of_unlooked rfl

@[simp] theorem matches_allocation : allocation.Matches := matches_of_unlooked rfl

@[simp] theorem matches_flagged (operation : Operation) (flag : Progress → Option Bool)
    (raise : Progress → Progress) (extra : Job → Fields) :
    (flagged operation flag raise extra).Matches := matches_of_unlooked rfl

end Milestone

/-- The steps ask for no more than their milestones need, and leave no search for a project
without result. -/
structure Sober (steps : List Step) : Prop where
  matching : ∀ m, .milestone m ∈ steps → m.Matches
  founded : ∀ rest, steps = .findProject :: rest → ∃ step ∈ rest, step.Founds

namespace Step

variable {σ : Type} {s : Services σ} {x y z : Desk σ} {result : StepResult}

/-- How the search for a project can end: nothing was found, or all is known of it. -/
structure Searched (s : Services σ) (x y : Desk σ) (result : StepResult) : Prop where
  keeps : Keeps x y
  tasks : y.job.tasks = x.job.tasks
  sparing : Sparing s x y
  asked : ∀ ask ∈ asks (since x y),
    ask = .lookup .projectTask ∧ ¬ x.Needless s (.lookup .projectTask)
  nodup : (asks (since x y)).Nodup
  unwaiting : ∀ t, result ≠ .waiting t
  settles : result = .settled → y.job.progress.shows .createProject = true

theorem not_needless_of_mayBeProvisioned (h : x.job.mayBeProvisioned = true) :
    s.hasTask x.job .createProject = false ∧ ¬ x.Needless s (.lookup .projectTask) := by
  simp only [Job.mayBeProvisioned, Bool.and_eq_true] at h
  obtain ⟨⟨hid, -⟩, hempty⟩ := h
  have hhas : s.hasTask x.job .createProject = false := by
    simp [Services.hasTask, TaskList.isEmpty_iff.mp hempty]
  have hnew : x.job.progress.shows .createProject = false := by
    simpa [Progress.shows] using hid
  refine ⟨hhas, ?_⟩
  rintro (hshows | hhas' | ⟨-, hsome⟩)
  · rw [show LookupKind.projectTask.operation = .createProject from rfl, hnew] at hshows
    cases hshows
  · rw [show LookupKind.projectTask.operation = .createProject from rfl, hhas] at hhas'
    cases hhas'
  · rw [hempty] at hsome
    cases hsome

theorem shows_of_found {job : Job} {found : Json} {p : Progress}
    (h : job.ofFoundProject found = .ok p) :
    p.shows .createProject = true ∧ ∀ kind : LookupKind,
      job.progress.shows kind.operation = true → p.shows kind.operation = true := by
  unfold Job.ofFoundProject at h
  split at h <;> cases h
  refine ⟨rfl, fun kind hs => ?_⟩
  cases kind <;> simp_all [Progress.shows, LookupKind.operation]

theorem searched_of_run (h : Step.findProject.run s x = .ok result y) : Searched s x y result := by
  have hrun : Step.findProject.run s = runFindProject s := rfl
  rw [hrun] at h
  unfold runFindProject at h
  rw [currentJob_bind] at h
  split at h
  · cases h
    exact ⟨keeps_of_job_eq rfl, rfl, .of_silent rfl rfl, by simp [asks], by simp [asks], by simp,
      by simp⟩
  next hmay =>
  obtain ⟨hhas, hneed⟩ := not_needless_of_mayBeProvisioned (s := s) (by simpa using hmay)
  obtain ⟨found, z, hlook, hrest⟩ := bind_eq_ok h
  rcases s.lookup_cases .projectTask none ∅ x with
    ⟨found', z', request, hv, hj, hk, hc⟩ | ⟨e, z', hv, -⟩ <;> rw [hlook] at hv <;> cases hv
  have hask : Exchange.ask? ⟨.lookup request, .ok found⟩ = some (.lookup .projectTask) := by
    rw [Exchange.ask?, hk]
  have hsparing : Sparing s x z :=
    .of_call (e := ⟨.lookup request, .ok found⟩) (by rw [hj]; rfl) hc hask hhas
  have hasks : asks (since x z) = [.lookup .projectTask] := by
    rw [since_eq hc, asks_singleton hask]
  have hasked : ∀ ask ∈ asks (since x z),
      ask = .lookup .projectTask ∧ ¬ x.Needless s (.lookup .projectTask) := fun ask ha =>
    ⟨List.mem_singleton.mp (hasks ▸ ha), hneed⟩
  have hnodup : (asks (since x z)).Nodup := hasks ▸ List.nodup_singleton _
  cases found with
  | none =>
    cases hrest
    exact ⟨keeps_of_job_eq hj, by rw [hj], hsparing, hasked, hnodup, by simp, by simp⟩
  | some found =>
    cases hp : x.job.ofFoundProject found with
    | error e =>
      simp only [hp] at hrest
      cases hrest
    | ok p =>
      simp only [hp] at hrest
      cases hrest
      obtain ⟨hshows, hkeeps⟩ := shows_of_found hp
      exact {
        keeps := ⟨by rw [← hj], hkeeps, fun n hn => by rwa [← hj] at hn⟩
        tasks := by rw [← hj]
        sparing := ⟨hsparing.told, hsparing.spared⟩
        asked := hasked
        nodup := hnodup
        unwaiting := by simp
        settles := fun _ => hshows }

/-- There is no need for the search any more once the steps after it have come to an end. -/
theorem Searched.thrifty (h : Searched s x y result) (hrest : Thrifty s y z)
    (hunsought : .lookup .projectTask ∉ asks (since y z))
    (hneedless : z.Needless s (.lookup .projectTask)) : Thrifty s x z := by
  refine hrest.prepend (calls_eq_since h.sparing.told) h.keeps (fun ask ha => ?_)
    (fun ask ha => ?_) h.nodup (fun ask ha => ?_) <;> obtain ⟨rfl, hneed⟩ := h.asked ask ha
  · exact hneed
  · exact hneedless
  · exact hunsought

/-- A pass over the steps asks for what there is need for, once, and there is none afterwards. -/
theorem thrifty_of_runAll {steps : List Step} (ho : Orderly steps) (hs : Sober steps)
    (hx : x.job.tasks.Closed) (h : runAll s steps x = .ok result y)
    (hfair : ∀ e ∈ since x y, e.Fair) : Thrifty s x y ∧ Sparing s x y := by
  by_cases hf : .findProject ∈ steps
  · obtain ⟨rest, rfl⟩ : ∃ rest, steps = .findProject :: rest := by
      cases steps with
      | nil => cases hf
      | cons step rest =>
        rcases List.mem_cons.mp hf with rfl | hf
        · exact ⟨rest, rfl⟩
        · exact absurd hf ho.first
    rw [runAll_cons] at h
    obtain ⟨first, z, hfirst, hrest⟩ := bind_eq_ok h
    have hsearched := searched_of_run hfirst
    have hz : z.job.tasks.Closed := hsearched.tasks ▸ hx
    cases first with
    | waiting t => exact absurd rfl (hsearched.unwaiting t)
    | settled =>
      cases hrest
      have hthrifty : Thrifty s y y := .of_silent rfl (keeps_of_job_eq rfl) hz
      exact ⟨hsearched.thrifty hthrifty (unasked_of_calls_eq rfl _)
        (.inl (hsearched.settles rfl)), hsearched.sparing⟩
    | done =>
      have hsince := since_append hsearched.sparing.told (told_runAll hrest)
      have hended := runAll_ended (fun step hm => ho.lasts step (List.mem_cons_of_mem _ hm))
        (fun m hm => hs.matching m (List.mem_cons_of_mem _ hm)) ho.first hz hrest
        fun e he => hfair e (by rw [hsince]; exact List.mem_append_right _ he)
      refine ⟨hsearched.thrifty hended.thrifty hended.unsought ?_,
        hsearched.sparing.trans hended.sparing⟩
      -- The project is known now, or a task is on record, which rules out a search as well.
      cases hresult : result with
      | waiting t => exact .inr (.inr ⟨rfl, hended.waits t hresult⟩)
      | settled => exact absurd hresult hended.unsettled
      | done =>
        obtain ⟨step, hstep, hfounds⟩ := hs.founded rest rfl
        exact .inl (hended.founds hresult step hstep hfounds)
  · have hended := runAll_ended ho.lasts hs.matching hf hx h hfair
    exact ⟨hended.thrifty, hended.sparing⟩

end Step

namespace Workflow

theorem founds_adoptProject {job : Job} {p : Progress} (h : adoptProject job = .ok p) :
    p.shows .createProject = true := by
  unfold adoptProject at h
  split at h
  · next id _ hid =>
    cases h
    simp [Progress.shows, hid]
  · cases h
    rfl
  · cases h

theorem founded_projectCreate (job : Job) {rest : List Step}
    (h : projectCreate.steps job = .findProject :: rest) : ∃ step ∈ rest, step.Founds := by
  have hmem : ∀ step, step ≠ .findProject → step ∈ projectCreate.steps job → step ∈ rest :=
    fun step hne hm => (List.mem_cons.mp (h ▸ hm)).resolve_left hne
  by_cases hn : job.allocationType = "new"
  · exact ⟨.milestone .project, hmem _ (by simp) (by simp [projectCreate, provision, hn]), rfl⟩
  · exact ⟨.adopt adoptProject, hmem _ (by simp) (by simp [projectCreate, provision, hn]),
      fun job p => founds_adoptProject⟩

variable {t : PacketType} {w : Workflow}

theorem matches_projectCreate (job : Job) :
    ∀ m, .milestone m ∈ projectCreate.steps job → m.Matches := by
  simp only [projectCreate, provision]
  split <;> split <;> simp [Milestone.notice]

theorem matches_steps (hw : ofType? t = some w) (job : Job) :
    ∀ m, .milestone m ∈ w.steps job → m.Matches := by
  unfold ofType? at hw
  split at hw <;> cases hw
  · simp [accountCreate, Milestone.notice]
  · exact matches_projectCreate job
  · simp [accountInactivate, Milestone.accountEnd]
  · simp [accountReactivate, Milestone.notice, Milestone.accountReturn]
  · simp [projectInactivate, Milestone.projectEnd]
  · simp [projectReactivate, Milestone.projectReturn]
  · simp [userModify, Milestone.userChange]
  · simp [personMerge, Milestone.personMerge]
  · simp [conclude]
  · simp [conclude]

theorem sober_steps (hw : ofType? t = some w) (job : Job) : Sober (w.steps job) where
  matching := matches_steps hw job
  founded rest h := by
    obtain rfl := type_of_findProject hw (h ▸ List.mem_cons_self)
    cases hw
    exact founded_projectCreate job h

section

variable {σ : Type} {s : Services σ} {x y : Desk σ} {outcome : Outcome}

theorem runAll_of_work (h : w.work s x = .ok outcome y) :
    ∃ result, Step.runAll s (w.steps x.job) x = .ok result y := by
  cases hr : Step.runAll s (w.steps x.job) x with
  | error e z =>
    rw [w.work_of_error hr] at h
    cases h
  | ok result z =>
    obtain rfl : z = y := by
      cases result with
      | waiting u =>
        rw [w.work_of_waiting hr] at h
        cases h
        rfl
      | done =>
        rw [w.work_of_end hr (by simp)] at h
        cases h
        rfl
      | settled =>
        rw [w.work_of_end hr (by simp)] at h
        cases h
        rfl
    exact ⟨result, rfl⟩

theorem thrifty_of_work (hw : ofType? t = some w) (hx : x.job.tasks.Closed)
    (h : w.work s x = .ok outcome y) (hfair : ∀ e ∈ since x y, e.Fair) :
    Thrifty s x y ∧ Sparing s x y := by
  obtain ⟨result, hrun⟩ := runAll_of_work h
  exact Step.thrifty_of_runAll (orderly_steps hw x.job) (sober_steps hw x.job) hx hrun hfair

end

variable {σ : Type}

/-- No round of work ends in an error, all that is asked for is taken up, and so are the tasks that
come in. -/
def Smooth (w : Workflow) (s : Services σ) (x : Desk σ) : List Turn → Prop
  | [] => True
  | .work :: ts => Succeeds (w.work s x) ∧ (∀ e ∈ since x (w.turn s x .work), e.Fair) ∧
      w.Smooth s (w.turn s x .work) ts
  | .update u :: ts => u.isOpen = false ∧ w.Smooth s (w.turn s x (.update u)) ts

instance Smooth.decidable (w : Workflow) (s : Services σ) :
    (x : Desk σ) → (ts : List Turn) → Decidable (w.Smooth s x ts)
  | _, [] => .isTrue trivial
  | x, .work :: ts =>
    have := Smooth.decidable w s (w.turn s x .work) ts
    inferInstanceAs (Decidable (_ ∧ _ ∧ _))
  | x, .update u :: ts =>
    have := Smooth.decidable w s (w.turn s x (.update u)) ts
    inferInstanceAs (Decidable (_ ∧ _))

variable {s : Services σ} {x : Desk σ}

theorem thrifty_of_update (hx : x.job.tasks.Closed) {u : TaskRecord} (hu : u.isOpen = false) :
    Thrifty s x (w.turn s x (.update u)) := by
  have htasks : (x.job.putTask u).tasks = x.job.tasks.put u := x.job.tasks_putTask u
  refine .of_silent rfl ⟨x.job.packet_putTask u, fun kind hs => ?_, fun n hn => ?_⟩ ?_
  · show (x.job.putTask u).progress.shows kind.operation = true
    rwa [Job.progress_putTask]
  · show ((x.job.putTask u).tasks.get? n).isSome = true
    rw [htasks]
    exact TaskList.isSome_put u hn
  · show (x.job.putTask u).tasks.Closed
    rw [htasks]
    exact hx.put hu

theorem smooth_append {ts ts' : List Turn} :
    w.Smooth s x (ts ++ ts') ↔ w.Smooth s x ts ∧ w.Smooth s (w.turns s x ts) ts' := by
  induction ts generalizing x with
  | nil => simp [Smooth, turns]
  | cons turn ts ih =>
    cases turn with
    | work =>
      rw [List.cons_append, Smooth, Smooth, ih, and_assoc, and_assoc]
      rfl
    | update u =>
      rw [List.cons_append, Smooth, Smooth, ih, and_assoc]
      rfl

theorem sparing_of_turn (hw : ofType? t = some w) (hx : x.job.tasks.Closed) {ts : List Turn}
    (h : w.Smooth s x (.work :: ts)) :
    Thrifty s x (w.turn s x .work) ∧ Sparing s x (w.turn s x .work) := by
  obtain ⟨⟨outcome, y, hwork⟩, hfair, -⟩ := h
  have hy : w.turn s x .work = y := congrArg left hwork
  rw [hy] at hfair ⊢
  exact thrifty_of_work hw hx hwork hfair

theorem thrifty_of_turns (hw : ofType? t = some w) (hx : x.job.tasks.Closed) {ts : List Turn}
    (h : w.Smooth s x ts) : Thrifty s x (w.turns s x ts) := by
  induction ts generalizing x with
  | nil => exact .of_silent rfl (keeps_of_job_eq rfl) hx
  | cons turn ts ih =>
    obtain ⟨hthrifty, hrest⟩ : Thrifty s x (w.turn s x turn) ∧
        w.Smooth s (w.turn s x turn) ts := by
      cases turn with
      | work => exact ⟨(sparing_of_turn hw hx h).1, h.2.2⟩
      | update u => exact ⟨thrifty_of_update hx h.1, h.2⟩
    exact hthrifty.trans (ih hthrifty.closed hrest)

/-- Work on a job that is taken up again and again, with tasks coming in between, asks for no
answer and for no task twice, and for none about an operation that has a task on record. -/
theorem repeats_nothing (hw : ofType? t = some w) (hx : x.job.tasks.Closed) {ts : List Turn}
    (h : w.Smooth s x ts) : (asks (since x (w.turns s x ts))).Nodup ∧
      ∀ before, before ++ [.work] <+: ts → (w.turns s x before).job.tasks.Spared s.taskName?
        (since (w.turns s x before) (w.turns s x (before ++ [.work]))) := by
  refine ⟨(thrifty_of_turns hw hx h).nodup, ?_⟩
  rintro before ⟨after, rfl⟩
  rw [List.append_assoc, List.singleton_append, smooth_append] at h
  obtain ⟨hbefore, hround⟩ := h
  have hclosed := (thrifty_of_turns hw hx hbefore).closed
  rw [turns_append]
  exact (sparing_of_turn hw hclosed hround).2.spared

theorem repeats_nothing_accountCreate :
    accountDesk.job.tasks.Closed ∧
    accountCreate.Smooth unhurried accountDesk (rounds ++ [.work, .work]) ∧
    (asks (since accountDesk
      (accountCreate.turns unhurried accountDesk (rounds ++ [.work, .work])))).Nodup ∧
    ∀ before, before ++ [.work] <+: rounds ++ [.work, .work] →
      (accountCreate.turns unhurried accountDesk before).job.tasks.Spared unhurried.taskName?
        (since (accountCreate.turns unhurried accountDesk before)
          (accountCreate.turns unhurried accountDesk (before ++ [.work]))) := by
  have hx : accountDesk.job.tasks.Closed := fun n u hu => by simp [accountDesk, accountJob] at hu
  have h : accountCreate.Smooth unhurried accountDesk (rounds ++ [.work, .work]) := by
    decide +kernel
  exact ⟨hx, h, repeats_nothing (t := .requestAccountCreate) rfl hx h⟩

end Workflow

end SiteBroker
