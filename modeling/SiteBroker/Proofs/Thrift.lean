import SiteBroker.Proofs.Asking
import SiteBroker.Proofs.Course

/-! What a step asks for. It is what its result or its task does not show yet, and it shows from
then on. -/

namespace SiteBroker

open Program Desk

theorem Operation.not_mem_upsets (kind : LookupKind) (o : Operation) :
    kind.operation ∉ o.upsets := by
  cases kind <;> cases o <;> decide

namespace Desk

variable {σ : Type} {s : Services σ} {x y z : Desk σ}

theorem Keeps.withProgress (h : Keeps x y) {p : Progress} {lost : List Operation}
    (hp : x.job.progress.Advances lost p) (hl : ∀ kind : LookupKind, kind.operation ∉ lost) :
    Keeps x (y.withProgress p) where
  packet := h.packet
  shows kind hs := hp.keeps kind.operation (hl kind) hs
  tasks := h.tasks

/-- The task of an operation is on record, and was asked for if it was not before. -/
structure Ran (s : Services σ) (o : Operation) (x y : Desk σ) : Prop where
  hasTask : s.hasTask y.job o = true
  keeps : Keeps x y
  closed : y.job.tasks.Closed
  sparing : Sparing s x y
  asked : ∀ ask ∈ asks (since x y), ask = .submit o ∧ s.hasTask x.job o = false
  nodup : (asks (since x y)).Nodup

theorem Ran.of_recorded (hx : x.job.tasks.Closed) {o : Operation}
    (ho : s.hasTask x.job o = true) : Ran s o x x where
  hasTask := ho
  keeps := keeps_of_job_eq rfl
  closed := hx
  sparing := .of_silent rfl rfl
  asked := by simp [asks]
  nodup := by simp [asks]

theorem Ran.of_submitted (hx : x.job.tasks.Closed) {o : Operation} {name : String}
    (hname : s.taskName? o = some name) (hnone : x.job.tasks.get? name = none)
    {request : TaskRequest} (hr : Services.Requests x.job o name request) {t : TaskRecord}
    (hj : y.job = x.job.putTask t)
    (hc : y.world.calls = x.world.calls ++ [⟨.submit request, .ok t⟩])
    (hfair : Exchange.Fair ⟨.submit request, .ok t⟩) : Ran s o x y := by
  obtain ⟨hn, hclosed⟩ : t.name = request.taskName ∧ t.isOpen = false := hfair
  have hhas : s.hasTask x.job o = false := by simp [Services.hasTask, hname, hnone]
  have htasks : y.job.tasks = x.job.tasks.put t := by rw [hj, Job.tasks_putTask]
  have hprogress : y.job.progress = x.job.progress := by rw [hj, Job.progress_putTask]
  have hask : Exchange.ask? ⟨.submit request, .ok t⟩ = some (.submit o) := by
    rw [Exchange.ask?, hr.operation]
  have hasks : asks (since x y) = [.submit o] := by rw [since_eq hc, asks_singleton hask]
  refine ⟨?_, ⟨by rw [hj, Job.packet_putTask], fun _ hs => by rwa [hprogress],
    fun n hs => by rw [htasks]; exact TaskList.isSome_put t hs⟩, ?_, ?_, fun ask ha => ?_, ?_⟩
  · have hrecorded := x.job.tasks.isSome_put_name t
    rw [hn, hr.name] at hrecorded
    rw [Services.hasTask, hname, htasks]
    exact hrecorded
  · rw [htasks]
    exact hx.put hclosed
  · exact .of_call (e := ⟨.submit request, .ok t⟩) htasks hc hask hhas
  · rw [hasks, List.mem_singleton] at ha
    exact ⟨ha, hhas⟩
  · rw [hasks]
    exact List.nodup_singleton _

theorem Ran.withProgress {o : Operation} (h : Ran s o x y) {p : Progress} {lost : List Operation}
    (hp : x.job.progress.Advances lost p) (hl : ∀ kind : LookupKind, kind.operation ∉ lost) :
    Ran s o x (y.withProgress p) where
  hasTask := h.hasTask
  keeps := h.keeps.withProgress hp hl
  closed := h.closed
  sparing := ⟨h.sparing.told, h.sparing.spared⟩
  asked := h.asked
  nodup := h.nodup

theorem Ran.thrifty {o : Operation} (h : Ran s o x y) : Thrifty s x y where
  calls := calls_eq_since h.sparing.told
  keeps := h.keeps
  closed := h.closed
  new ask ha := by
    obtain ⟨rfl, hhas⟩ := h.asked ask ha
    simp [Needless, hhas]
  needless ask ha := by
    obtain ⟨rfl, -⟩ := h.asked ask ha
    exact h.hasTask
  nodup := h.nodup

theorem Ran.unasked {o : Operation} (h : Ran s o x y) (kind : LookupKind) :
    .lookup kind ∉ asks (since x y) := by
  intro ha
  cases (h.asked _ ha).1

end Desk

namespace Services

variable {σ : Type} {s : Services σ} {x y : Desk σ}

theorem eq_of_lift_settled {t u : TaskRecord} (h : Desk.lift t.settled x = .ok u y) :
    u = t ∧ y = x := by
  rcases lift_settled_cases t x with hl | ⟨e, hl⟩ <;> rw [hl] at h <;> cases h
  exact ⟨rfl, rfl⟩

theorem ran_of_runTask (hx : x.job.tasks.Closed) {o : Operation} {role : Option Role}
    {extra : Fields} {t : TaskRecord} (h : s.runTask o role extra x = .ok t y)
    (hfair : ∀ e ∈ since x y, e.Fair) : Ran s o x y := by
  rcases s.runTask_cases o role extra x with
    ⟨e, he⟩ | ⟨name, hname, ⟨u, hu, he⟩ | ⟨hopen, he⟩⟩ <;> rw [he] at h
  · cases h
  · obtain ⟨-, rfl⟩ := eq_of_lift_settled h
    exact .of_recorded hx (by simp [hasTask, hname, hu])
  · have hnone : x.job.tasks.get? name = none := by
      cases hu : x.job.tasks.get? name with
      | none => rfl
      | some u => simp [hu, hx name u hu] at hopen
    obtain ⟨u, z, hsub, hlift⟩ := bind_eq_ok h
    obtain ⟨-, rfl⟩ := eq_of_lift_settled hlift
    rcases s.submit_cases o name role extra x with
      ⟨v, z, request, hv, hr, hj, hc⟩ | ⟨e, z, hv, -⟩ <;> rw [hsub] at hv <;> cases hv
    have hmem : ⟨.submit request, .ok u⟩ ∈ since x y := by
      rw [since_eq hc]
      exact List.mem_singleton_self _
    exact .of_submitted hx hname hnone hr hj hc (hfair _ hmem)

end Services

/-- The lookup of a milestone is for what its task brings. -/
def Milestone.Matches (m : Milestone) : Prop := ∀ kind extra, m.lookup = some (kind, extra) →
  kind.operation = m.operation ∧ kind ≠ .projectTask

/-- Once it is done, the project is known. -/
def Step.Founds : Step → Prop
  | .milestone m => m.operation = .createProject
  | .adopt f => ∀ job p, f job = .ok p → p.shows .createProject = true
  | .clear | .findProject => False

/-- How some steps can end, the search for a project not among them. -/
structure Step.Ended {σ : Type} (s : Services σ) (steps : List Step) (x y : Desk σ)
    (result : StepResult) : Prop where
  thrifty : Thrifty s x y
  sparing : Sparing s x y
  unsought : .lookup .projectTask ∉ asks (since x y)
  unsettled : result ≠ .settled
  waits : ∀ t, result = .waiting t → y.job.tasks.isEmpty = false
  founds : result = .done → ∀ step ∈ steps, step.Founds →
    y.job.progress.shows .createProject = true

namespace Milestone

variable {σ : Type} {s : Services σ} {m : Milestone} {x y z : Desk σ} {result : StepResult}

/-- The lookup of a milestone was made, unless its task is on record. -/
structure Looked (s : Services σ) (m : Milestone) (x y : Desk σ) : Prop where
  job : y.job = x.job
  sparing : Sparing s x y
  asked : ∀ ask ∈ asks (since x y), s.hasTask x.job m.operation = false ∧ ∃ kind : LookupKind,
    kind.operation = m.operation ∧ kind ≠ .projectTask ∧ ask = .lookup kind
  nodup : (asks (since x y)).Nodup

theorem looked_of_eq (s : Services σ) (m : Milestone) (x : Desk σ) : Looked s m x x where
  job := rfl
  sparing := .of_silent rfl rfl
  asked := by simp [asks]
  nodup := by simp [asks]

theorem Looked.of_lookup {request : LookupRequest} {found : Option Json}
    (hhas : s.hasTask x.job m.operation = false) (hk : request.kind.operation = m.operation)
    (hne : request.kind ≠ .projectTask) (hj : y.job = x.job)
    (hc : y.world.calls = x.world.calls ++ [⟨.lookup request, .ok found⟩]) : Looked s m x y := by
  have hasks : asks (since x y) = [.lookup request.kind] := by rw [since_eq hc, asks_singleton rfl]
  refine ⟨hj, ?_, fun ask ha => ?_, ?_⟩
  · exact .of_call (e := ⟨.lookup request, .ok found⟩) (by rw [hj]; rfl) hc rfl
      (by rwa [Ask.operation, hk])
  · rw [hasks, List.mem_singleton] at ha
    exact ⟨hhas, request.kind, hk, hne, ha⟩
  · rw [hasks]
    exact List.nodup_singleton _

theorem Looked.unsought (h : Looked s m x y) : .lookup .projectTask ∉ asks (since x y) := by
  intro ha
  obtain ⟨-, kind, -, hne, he⟩ := h.asked _ ha
  cases he
  exact hne rfl

/-- There is no need to look again once the result shows or the task is on record. -/
theorem Looked.thrifty (h : Looked s m x y) (hnew : x.job.progress.shows m.operation = false)
    (hrest : Thrifty s y z) (hunasked : ∀ kind, .lookup kind ∉ asks (since y z))
    (hafter : z.job.progress.shows m.operation = true ∨ s.hasTask z.job m.operation = true) :
    Thrifty s x z := by
  refine hrest.prepend (calls_eq_since h.sparing.told) (keeps_of_job_eq h.job) (fun ask ha => ?_)
    (fun ask ha => ?_) h.nodup (fun ask ha => ?_) <;>
    obtain ⟨hhas, kind, hk, hne, rfl⟩ := h.asked ask ha
  · simp [Needless, hk, hnew, hhas, hne]
  · rcases hafter with hshows | htask
    · exact .inl (hk ▸ hshows)
    · exact .inr (.inl (hk ▸ htask))
  · exact hunasked kind

theorem looked_of_look (hm : m.Matches) {p? : Option Progress} (h : m.look s x = .ok p? y) :
    Looked s m x y ∧ ∀ p, p? = some p → ∃ found, m.ofFound x.job found = .ok (some p) := by
  have hsilent : m.look s x = .ok none x →
      Looked s m x y ∧ ∀ p, p? = some p → ∃ found, m.ofFound x.job found = .ok (some p) := by
    intro hlook
    rw [hlook] at h
    cases h
    exact ⟨looked_of_eq s m x, fun p hp => by cases hp⟩
  cases hl : m.lookup with
  | none =>
    refine hsilent ?_
    unfold look
    rw [hl]
    rfl
  | some look =>
    obtain ⟨kind, extra⟩ := look
    cases hhas : s.hasTask x.job m.operation with
    | true =>
      rw [Services.hasTask, Option.any_eq_true] at hhas
      obtain ⟨n, hn, hrec⟩ := hhas
      obtain ⟨t, ht⟩ := Option.isSome_iff_exists.mp hrec
      exact hsilent (look_of_recorded hn ht)
    | false =>
      rw [look_of_unrecorded hl hhas] at h
      obtain ⟨found, z, hlook, hrest⟩ := bind_eq_ok h
      obtain ⟨hk, hne⟩ := hm kind extra hl
      rcases s.lookup_cases kind m.role (extra x.job) x with
        ⟨found', z', request, hv, hj, rfl, hc⟩ | ⟨e, z', hv, -⟩ <;> rw [hlook] at hv <;> cases hv
      have hlooked : Looked s m x z := .of_lookup hhas hk hne hj hc
      cases found with
      | none =>
        cases hrest
        exact ⟨hlooked, fun p hp => by cases hp⟩
      | some found =>
        cases hf : m.ofFound x.job found with
        | error e =>
          simp only [hf] at hrest
          cases hrest
        | ok p' =>
          simp only [hf] at hrest
          cases hrest
          exact ⟨hlooked, fun p hp => ⟨found, by rw [hf, hp]⟩⟩

/-- The task of a milestone is run, and is successful or has to be waited for. -/
theorem perform_eq_ok (h : m.perform s x = .ok result y) :
    ∃ t z, s.runTask m.operation m.role (m.extra x.job) x = .ok t z ∧
      ((∃ p, m.ofTask x.job t = .ok p ∧ result = .done ∧ y = z.withProgress p) ∨
        result = .waiting t ∧ y = z) := by
  unfold perform at h
  rw [currentJob_bind] at h
  obtain ⟨t, z, hrun, hrest⟩ := bind_eq_ok h
  refine ⟨t, z, hrun, ?_⟩
  by_cases ht : t.state = .successful
  · simp only [ht, if_true] at hrest
    cases hp : m.ofTask x.job t with
    | error e =>
      rw [hp] at hrest
      cases hrest
    | ok p =>
      rw [hp] at hrest
      cases hrest
      exact .inl ⟨p, rfl, rfl, rfl⟩
  · simp only [ht, if_false] at hrest
    cases hrest
    exact .inr ⟨rfl, rfl⟩

theorem ran_of_perform (hl : m.Lasting) (hx : x.job.tasks.Closed)
    (h : m.perform s x = .ok result y) (hfair : ∀ e ∈ since x y, e.Fair) :
    Ran s m.operation x y ∧ result ≠ .settled ∧
      (result = .done → m.operation = .createProject →
        y.job.progress.shows .createProject = true) := by
  obtain ⟨t, z, hrun, ⟨p, hp, rfl, rfl⟩ | ⟨rfl, rfl⟩⟩ := perform_eq_ok h
  · have hran := Services.ran_of_runTask hx hrun hfair
    refine ⟨?_, by simp, fun _ hop => ?_⟩
    · exact hran.withProgress (hl.advances_of_task hp) fun kind =>
        Operation.not_mem_upsets kind m.operation
    · rcases hl.shows_of_task hp with hs | ⟨hactive, -⟩
      · rwa [hop] at hs
      · rw [hop] at hactive
        cases hactive
  · exact ⟨Services.ran_of_runTask hx hrun hfair, by simp, by simp⟩

theorem ended_of_reached (hl : m.Lasting) (hx : x.job.tasks.Closed)
    (hr : m.isReached x.job.progress = true) : Step.Ended s [.milestone m] x x .done where
  thrifty := .of_silent rfl (keeps_of_job_eq rfl) hx
  sparing := .of_silent rfl rfl
  unsought := unasked_of_calls_eq rfl _
  unsettled := by simp
  waits := by simp
  founds _ step hstep hf := by
    obtain rfl := List.mem_singleton.mp hstep
    have hop : m.operation = .createProject := hf
    rwa [hl.isReached_eq, hop] at hr

theorem ended_of_found (hl : m.Lasting) (hx : x.job.tasks.Closed)
    (hnew : x.job.progress.shows m.operation = false) (hlook : Looked s m x z) {found : Json}
    {p : Progress} (hf : m.ofFound x.job found = .ok (some p)) :
    Step.Ended s [.milestone m] x (z.withProgress p) .done := by
  obtain ⟨hshows, hadvances⟩ := hl.of_found hf
  rw [← hlook.job] at hadvances
  have hclosed : z.job.tasks.Closed := by rwa [hlook.job]
  have hkeeps : Keeps z (z.withProgress p) := (keeps_of_job_eq rfl).withProgress hadvances
    fun kind => Operation.not_mem_upsets kind m.operation
  have hthrifty : Thrifty s z (z.withProgress p) := .of_silent rfl hkeeps hclosed
  refine ⟨hlook.thrifty hnew hthrifty (fun kind => unasked_of_calls_eq rfl _) (.inl hshows),
    ⟨hlook.sparing.told, hlook.sparing.spared⟩, hlook.unsought, by simp, by simp, ?_⟩
  intro _ step hstep hfounds
  obtain rfl := List.mem_singleton.mp hstep
  have hop : m.operation = .createProject := hfounds
  rwa [← hop]

theorem ended_of_performed (hl : m.Lasting) (hx : x.job.tasks.Closed)
    (hnew : x.job.progress.shows m.operation = false) (hlook : Looked s m x z)
    (h : m.perform s z = .ok result y) (hfair : ∀ e ∈ since x y, e.Fair) :
    Step.Ended s [.milestone m] x y result := by
  have htold : Told z y := by
    have hgoes := m.goes_perform (upheld_told s) z
    rwa [h] at hgoes
  have hsince := since_append hlook.sparing.told htold
  obtain ⟨hran, hunsettled, hfounds⟩ := ran_of_perform hl (by rwa [hlook.job]) h fun e he =>
    hfair e (by rw [hsince]; exact List.mem_append_right _ he)
  refine ⟨hlook.thrifty hnew hran.thrifty hran.unasked (.inr hran.hasTask),
    hlook.sparing.trans hran.sparing, ?_, hunsettled, fun t _ => ?_, ?_⟩
  · rw [hsince, asks_append, List.mem_append, not_or]
    exact ⟨hlook.unsought, hran.unasked .projectTask⟩
  · have hhas := hran.hasTask
    rw [Services.hasTask, Option.any_eq_true] at hhas
    obtain ⟨n, -, hn⟩ := hhas
    exact TaskList.isEmpty_eq_false_of_isSome hn
  · intro hdone step hstep hf
    obtain rfl := List.mem_singleton.mp hstep
    exact hfounds hdone hf

theorem run_ended (hl : m.Lasting) (hm : m.Matches) (hx : x.job.tasks.Closed)
    (h : m.run s x = .ok result y) (hfair : ∀ e ∈ since x y, e.Fair) :
    Step.Ended s [.milestone m] x y result := by
  cases hr : m.isReached x.job.progress with
  | true =>
    unfold run at h
    rw [currentJob_bind, if_pos hr] at h
    cases h
    exact ended_of_reached hl hx hr
  | false =>
    have hnew : x.job.progress.shows m.operation = false := by rwa [hl.isReached_eq] at hr
    rw [run_of_unreached hr] at h
    obtain ⟨p?, z, hlook, hrest⟩ := bind_eq_ok h
    obtain ⟨hlooked, hfound⟩ := looked_of_look hm hlook
    cases p? with
    | some p =>
      cases hrest
      obtain ⟨found, hf⟩ := hfound p rfl
      exact ended_of_found hl hx hnew hlooked hf
    | none => exact ended_of_performed hl hx hnew hlooked hrest hfair

end Milestone

namespace Step

variable {σ : Type} {s : Services σ} {x y z : Desk σ} {result : StepResult}

/-- A step that asks for nothing. -/
theorem Ended.of_quiet {step : Step} (hx : x.job.tasks.Closed) (hsparing : Sparing s x y)
    (hquiet : asks (since x y) = []) (ht : y.job.tasks = x.job.tasks) (hkeeps : Keeps x y)
    (hfounds : step.Founds → y.job.progress.shows .createProject = true) :
    Ended s [step] x y .done where
  thrifty := by
    refine ⟨calls_eq_since hsparing.told, hkeeps, ht ▸ hx, ?_, ?_, ?_⟩ <;> rw [hquiet]
    · exact fun _ h => absurd h List.not_mem_nil
    · exact fun _ h => absurd h List.not_mem_nil
    · exact List.nodup_nil
  sparing := hsparing
  unsought := by
    rw [hquiet]
    exact List.not_mem_nil
  unsettled := by simp
  waits := by simp
  founds _ step' hstep hf := by
    obtain rfl := List.mem_singleton.mp hstep
    exact hfounds hf

theorem ended_of_cleared (hx : x.job.tasks.Closed) (hj : y.job = x.job) {id : TransactionId}
    (hc : y.world.calls = x.world.calls ++ [⟨.clear id, .ok ()⟩]) : Ended s [.clear] x
      (y.withProgress { x.job.progress with transactionCleared := some true }) .done := by
  have hc' : (y.withProgress { x.job.progress with transactionCleared := some true }).world.calls =
      x.world.calls ++ [⟨.clear id, .ok ()⟩] := hc
  have htasks : y.job.tasks = x.job.tasks := by rw [hj]
  have hadvances : x.job.progress.Advances [] { x.job.progress with
      transactionCleared := some true } := ⟨fun o _ hs => by cases o <;> exact hs, fun _ => rfl,
    fun _ => rfl⟩
  have hkeeps : Keeps x (y.withProgress { x.job.progress with transactionCleared := some true }) :=
    (keeps_of_job_eq hj).withProgress hadvances fun _ => List.not_mem_nil
  refine .of_quiet hx ⟨told_of_call (e := ⟨.clear id, .ok ()⟩) htasks hc', ?_⟩ ?_ htasks hkeeps
    False.elim
  · rw [since_eq hc']
    exact ⟨fun ask n ha => (by cases ha), trivial⟩
  · rw [since_eq hc']
    rfl

theorem run_ended {step : Step} (hl : step.Lasts) (hm : ∀ m, step = .milestone m → m.Matches)
    (hne : step ≠ .findProject) (hx : x.job.tasks.Closed) (h : step.run s x = .ok result y)
    (hfair : ∀ e ∈ since x y, e.Fair) : Ended s [step] x y result := by
  cases step with
  | milestone m => exact m.run_ended hl (hm m rfl) hx h hfair
  | findProject => exact absurd rfl hne
  | adopt f =>
    have hrun : (Step.adopt f).run s x = _ := currentJob_bind _ x
    rw [hrun] at h
    cases hf : f x.job with
    | error e =>
      rw [hf] at h
      cases h
    | ok p =>
      rw [hf] at h
      cases h
      have hlasting : Adoption f := hl
      have hkeeps : Keeps x (x.withProgress p) :=
        (keeps_of_job_eq rfl).withProgress (hlasting.advances hf) fun _ => List.not_mem_nil
      exact .of_quiet hx (.of_silent rfl rfl) (asks_since_eq_nil rfl) rfl hkeeps
        fun hfounds => hfounds x.job p hf
  | clear =>
    have hrun : Step.clear.run s = runClear s := rfl
    rw [hrun] at h
    unfold runClear at h
    rw [currentJob_bind] at h
    split at h
    · cases h
      exact .of_quiet hx (.of_silent rfl rfl) (asks_since_eq_nil rfl) rfl (keeps_of_job_eq rfl)
        False.elim
    · obtain ⟨u, z, hclear, hrest⟩ := bind_eq_ok h
      cases hrest
      rcases s.clear_cases x with ⟨z', hv, hj, hc⟩ | ⟨e, e', z', hv, -⟩ <;> rw [hclear] at hv <;>
        cases hv
      exact ended_of_cleared hx hj hc

theorem told_runAll {steps : List Step} (h : runAll s steps x = .ok result y) : Told x y := by
  have hgoes := goes_runAll (upheld_told s) steps x
  rwa [h] at hgoes

theorem Ended.cons {step : Step} {rest : List Step} (h : Ended s [step] x y .done)
    (h' : Ended s rest y z result) : Ended s (step :: rest) x z result where
  thrifty := h.thrifty.trans h'.thrifty
  sparing := h.sparing.trans h'.sparing
  unsought := by
    rw [since_append h.sparing.told h'.sparing.told, asks_append, List.mem_append, not_or]
    exact ⟨h.unsought, h'.unsought⟩
  unsettled := h'.unsettled
  waits := h'.waits
  founds hdone step' hstep hf := by
    rcases List.mem_cons.mp hstep with rfl | hstep
    · exact h'.thrifty.keeps.shows .projectTask (h.founds rfl step' (List.mem_singleton_self _) hf)
    · exact h'.founds hdone step' hstep hf

theorem runAll_ended {steps : List Step} (hl : ∀ step ∈ steps, step.Lasts)
    (hm : ∀ m, .milestone m ∈ steps → m.Matches) (hn : .findProject ∉ steps)
    (hx : x.job.tasks.Closed) (h : runAll s steps x = .ok result y)
    (hfair : ∀ e ∈ since x y, e.Fair) : Ended s steps x y result := by
  induction steps generalizing x with
  | nil =>
    cases h
    exact {
      thrifty := .of_silent rfl (keeps_of_job_eq rfl) hx
      sparing := .of_silent rfl rfl
      unsought := unasked_of_calls_eq rfl _
      unsettled := by simp
      waits := by simp
      founds := fun _ _ hstep => by cases hstep }
  | cons step rest ih =>
    rw [runAll_cons] at h
    obtain ⟨first, z, hfirst, hrest⟩ := bind_eq_ok h
    have htold : Told x z := by
      have hgoes := step.goes_run (upheld_told s) x
      rwa [hfirst] at hgoes
    have hstep : step.Lasts := hl step List.mem_cons_self
    have hstep' : step ≠ .findProject := fun he => hn (he ▸ List.mem_cons_self)
    have hmatches : ∀ m, step = .milestone m → m.Matches := fun m he =>
      hm m (he ▸ List.mem_cons_self)
    cases first with
    | done =>
      have hsince := since_append htold (told_runAll hrest)
      have hended := run_ended hstep hmatches hstep' hx hfirst fun e he =>
        hfair e (by rw [hsince]; exact List.mem_append_left _ he)
      refine hended.cons (ih (fun step' hs => hl step' (List.mem_cons_of_mem _ hs))
        (fun m hs => hm m (List.mem_cons_of_mem _ hs)) (fun hs => hn (List.mem_cons_of_mem _ hs))
        hended.thrifty.closed hrest fun e he => ?_)
      exact hfair e (by rw [hsince]; exact List.mem_append_right _ he)
    | waiting t =>
      cases hrest
      have hended := run_ended hstep hmatches hstep' hx hfirst hfair
      exact ⟨hended.thrifty, hended.sparing, hended.unsought, hended.unsettled, hended.waits,
        by simp⟩
    | settled =>
      cases hrest
      exact absurd rfl (run_ended hstep hmatches hstep' hx hfirst hfair).unsettled

end Step

end SiteBroker
