import SiteBroker.Proofs.Lasting
import SiteBroker.Proofs.Step

/-! How the result of a step is found again from the tasks of a job: the lookup that settled it is
answered as before, or its task is on record as successful. -/

namespace SiteBroker

/-- What the local service answers to lookups. -/
abbrev Directory : Type := LookupRequest → Except ServiceError (Option Json)

/-- No task of the job got lost, and those that were successful are as they were. -/
structure Job.Later (job job' : Job) : Prop where
  packet : job'.packet = job.packet
  tasks : ∀ {n t}, job.tasks.get? n = some t → ∃ t', job'.tasks.get? n = some t' ∧
    (t.state = .successful → t'.state = .successful ∧ t'.products = t.products)

theorem Job.Later.of_tasks_eq {job job' : Job} (hp : job'.packet = job.packet)
    (ht : job'.tasks = job.tasks) : job.Later job' where
  packet := hp
  tasks {n t} h := ⟨t, by rw [ht, h], fun hs => ⟨hs, rfl⟩⟩

theorem Job.Later.isSome {job job' : Job} (h : job.Later job') {n : String}
    (hn : (job.tasks.get? n).isSome = true) : (job'.tasks.get? n).isSome = true := by
  obtain ⟨t, ht⟩ := Option.isSome_iff_exists.mp hn
  obtain ⟨t', ht', -⟩ := h.tasks ht
  rw [ht']
  rfl

theorem Job.Later.withProgress {job job' : Job} (h : job.Later job') (p p' : Progress) :
    Job.Later { job with progress := p } { job' with progress := p' } := ⟨h.packet, h.tasks⟩

theorem Job.requestFields_congr {job job' : Job} (hp : job'.packet = job.packet)
    (role : Option Role) (extra : Fields) :
    job'.requestFields role extra = job.requestFields role extra := by
  simp only [Job.requestFields, Job.fields, hp]

/-- No project was set up for the job before, as far as the directory tells. -/
def Job.Unprovisioned (directory : Directory) (job : Job) : Prop :=
  job.mayBeProvisioned = true → ∃ request,
    LookupRequest.ofPacketFields .projectTask (job.requestFields none ∅) = .ok request ∧
    directory request = .ok none

theorem Job.Unprovisioned.later {directory : Directory} {job job' : Job}
    (h : job.Unprovisioned directory) (hj : job.Later job')
    (hp : job.progress.shows .createProject = true → job'.progress.shows .createProject = true) :
    job'.Unprovisioned directory := by
  intro hm
  rw [Job.requestFields_congr hj.packet]
  apply h
  simp only [mayBeProvisioned, Bool.and_eq_true] at hm ⊢
  obtain ⟨⟨hid, hrecord⟩, hempty⟩ := hm
  refine ⟨⟨?_, by simpa only [Job.field?, Job.fields, hj.packet] using hrecord⟩, ?_⟩
  · by_contra hnone
    have hshown := hp (by simpa [Progress.shows, Option.isSome_iff_ne_none] using hnone)
    simp only [Progress.shows] at hshown
    simp [Option.isNone_iff_eq_none.mp hid] at hshown
  · rw [TaskList.isEmpty_iff] at hempty ⊢
    intro n
    by_contra hn
    have hsome := hj.isSome (Option.isSome_iff_ne_none.mpr hn)
    rw [hempty n] at hsome
    cases hsome

section

variable (taskName? : Operation → Option String) (directory : Directory)

/-- The progress that a step makes of what the directory answers and of the tasks on record. A task
whose name is known may be on record, and then there is no lookup. -/
inductive Recalled (known : String → Prop) (job : Job) : Step → Progress → Prop where
  | reached {m : Milestone} {p : Progress} (h : m.isReached p = true) (hp : p = job.progress) :
      Recalled known job (.milestone m) p
  | found {m : Milestone} {kind : LookupKind} {extra : Job → Fields} {request : LookupRequest}
      {found : Json} {p : Progress} (hnew : m.isReached job.progress = false)
      (hlookup : m.lookup = some (kind, extra))
      (hname : ∀ n, taskName? m.operation = some n → ¬ known n)
      (hrequest : LookupRequest.ofPacketFields kind (job.requestFields m.role (extra job)) =
        .ok request)
      (hanswer : directory request = .ok (some found))
      (hfound : m.ofFound job found = .ok (some p)) : Recalled known job (.milestone m) p
  | task {m : Milestone} {n : String} {t : TaskRecord} {p : Progress}
      (hnew : m.isReached job.progress = false) (hname : taskName? m.operation = some n)
      (ht : job.tasks.get? n = some t) (hs : t.state = .successful)
      (hp : m.ofTask job t = .ok p) : Recalled known job (.milestone m) p
  | adopted {f : Job → Except ServiceError Progress} {p : Progress} (h : f job = .ok p) :
      Recalled known job (.adopt f) p
  | cleared {p : Progress} (h : p = { job.progress with transactionCleared := some true }) :
      Recalled known job .clear p
  | unprovisioned {p : Progress} (h : job.Unprovisioned directory) (hp : p = job.progress) :
      Recalled known job .findProject p

/-- The progress that steps make one after the other. -/
def Recalls (known : String → Prop) (job : Job) : List Step → Progress → Prop
  | [], p => p = job.progress
  | step :: steps, p => ∃ q, Recalled taskName? directory known job step q ∧
      Recalls known { job with progress := q } steps p

end

section

variable {taskName? : Operation → Option String} {directory : Directory}
  {known known' : String → Prop} {job job' : Job} {step : Step} {p q : Progress}

theorem Recalls.append {done : List Step} (h : Recalls taskName? directory known job done q)
    (hstep : Recalled taskName? directory known { job with progress := q } step p) :
    Recalls taskName? directory known job (done ++ [step]) p := by
  induction done generalizing job with
  | nil =>
    cases h
    exact ⟨p, hstep, rfl⟩
  | cons first done ih =>
    obtain ⟨q', hfirst, hrest⟩ := h
    exact ⟨q', hfirst, ih hrest hstep⟩

theorem Recalled.later (h : Recalled taskName? directory known job step p) (hl : step.Lasts)
    (hj : job.Later job') (hg : job'.progress = job.progress)
    (hk : ∀ m n, step = .milestone m → taskName? m.operation = some n → known' n → known n) :
    Recalled taskName? directory known' job' step p := by
  cases h with
  | reached h hp => exact .reached h (hp.trans hg.symm)
  | @found m kind extra request found p hnew hlookup hname hrequest hanswer hfound =>
    replace hl : m.Lasting := hl
    have hextra : extra job' = extra job := (hl.lookup_blind hlookup).eq hj.packet hg
    refine .found (by rwa [hg]) hlookup (fun n hn hkn => hname n hn (hk m n rfl hn hkn)) ?_
      hanswer (((hl.found_blind found).eq hj.packet hg).trans hfound)
    rwa [hextra, Job.requestFields_congr hj.packet]
  | @task m n t p hnew hname ht hs hp =>
    replace hl : m.Lasting := hl
    obtain ⟨t', ht', hsame⟩ := hj.tasks ht
    obtain ⟨hs', hproducts⟩ := hsame hs
    have hn : t'.name = t.name := (TaskList.name_eq ht').trans (TaskList.name_eq ht).symm
    have hp' : m.ofTask job' t' = m.ofTask job t :=
      (hl.task_congr hn hproducts).trans ((hl.task_blind t).eq hj.packet hg)
    exact .task (by rwa [hg]) hname ht' hs' (hp'.trans hp)
  | @adopted f p h =>
    replace hl : Adoption f := hl
    exact .adopted ((hl.blind.eq hj.packet hg).trans h)
  | cleared h => exact .cleared (by rwa [hg])
  | unprovisioned h hp =>
    exact .unprovisioned (h.later hj (by rw [hg]; exact id)) (hp.trans hg.symm)

theorem Recalls.later {steps : List Step} (h : Recalls taskName? directory known job steps p)
    (hl : ∀ step ∈ steps, step.Lasts) (hj : job.Later job') (hg : job'.progress = job.progress)
    (hk : ∀ m n, .milestone m ∈ steps → taskName? m.operation = some n → known' n → known n) :
    Recalls taskName? directory known' job' steps p := by
  induction steps generalizing job job' with
  | nil =>
    cases h
    exact hg.symm
  | cons step steps ih =>
    obtain ⟨q, hstep, hrest⟩ := h
    obtain ⟨hfirst, hl⟩ := List.forall_mem_cons.mp hl
    refine ⟨q, hstep.later hfirst hj hg fun m n hm => ?_, ?_⟩
    · exact hk m n (by simp [hm])
    · exact ih hrest hl (hj.withProgress q q) rfl fun m n hm => hk m n (by simp [hm])

/-- The results that the work on a step may take back. -/
def Step.upsets : Step → List Operation
  | .milestone m => m.operation.upsets
  | .adopt _ | .clear | .findProject => []

theorem Recalled.advances (h : Recalled taskName? directory known job step p) (hl : step.Lasts) :
    job.progress.Advances step.upsets p := by
  cases h with
  | reached h hp =>
    subst hp
    exact .refl _ _
  | @found m _ _ _ _ _ _ _ _ _ _ hfound =>
    replace hl : m.Lasting := hl
    exact (hl.of_found hfound).2
  | @task m _ _ _ _ _ _ _ hp =>
    replace hl : m.Lasting := hl
    exact hl.advances_of_task hp
  | @adopted f _ h =>
    replace hl : Adoption f := hl
    exact hl.advances h
  | cleared h =>
    subst h
    exact ⟨fun o _ hs => by cases o <;> simp_all [Progress.shows], fun _ => rfl, fun _ => rfl⟩
  | unprovisioned h hp =>
    subst hp
    exact .refl _ _

/-- A step that was done makes nothing more of the progress, even after others were done. -/
theorem Recalled.again (h : Recalled taskName? directory known job step q) (hl : step.Lasts)
    {lost : List Operation} (ha : q.Advances lost p)
    (hspared : ∀ m, step = .milestone m → m.operation ∉ lost)
    (hids : ∀ o, o = .chooseOrAddPerson ∨ o = .createProject → o ∉ lost) :
    Recalled taskName? directory known { job with progress := p } step p := by
  have hreached : ∀ {m : Milestone}, step = .milestone m → m.Lasting →
      q.shows m.operation = true →
      Recalled taskName? directory known { job with progress := p } (.milestone m) p :=
    fun {m} hm hlast hs => by
      refine .reached ?_ rfl
      rw [hlast.isReached_eq]
      exact ha.keeps _ (hspared m hm) hs
  cases h with
  | @reached m _ h hp =>
    replace hl : m.Lasting := hl
    exact hreached rfl hl (by rwa [← hl.isReached_eq])
  | @found m _ _ _ _ _ _ _ _ _ _ hfound =>
    replace hl : m.Lasting := hl
    exact hreached rfl hl (hl.of_found hfound).1
  | @task m n t _ _ hname ht hs hp =>
    replace hl : m.Lasting := hl
    -- That a person is not active leaves nothing behind that shows, so the task is read again.
    rcases hl.shows_of_task hp with hshown | ⟨hop, hdenied⟩
    · exact hreached rfl hl hshown
    · have hsame : p.personActive = q.personActive := ha.active (hop ▸ hspared m rfl)
      by_cases hr : m.isReached p = true
      · exact .reached hr rfl
      · exact .task (by simpa using hr) hname ht hs (hdenied { job with progress := p } hsame)
  | @adopted f _ h =>
    replace hl : Adoption f := hl
    exact .adopted (hl.again h fun o ho => ha.keeps o (hids o ho))
  | cleared h =>
    have hp : p.transactionCleared = some true := ha.cleared (by rw [h])
    exact .cleared (by rw [← hp])
  | unprovisioned h hp =>
    subst hp
    have hkept := ha.keeps _ (hids .createProject (.inr rfl))
    exact .unprovisioned (h.later (.of_tasks_eq rfl rfl) hkept) rfl

end

open Program Desk

/-- No task was asked for between two desks. -/
def Desk.Quiet {σ : Type} (x y : Desk σ) : Prop :=
  ∀ request outcome, ⟨.submit request, outcome⟩ ∈ y.world.calls →
    ⟨.submit request, outcome⟩ ∈ x.world.calls

theorem Desk.quiet_of_calls_eq {σ : Type} {x y : Desk σ} (h : y.world.calls = x.world.calls) :
    Quiet x y := fun _ _ hm => h ▸ hm

theorem Desk.quiet_of_call {σ : Type} {x y : Desk σ} {e : Exchange}
    (h : y.world.calls = x.world.calls ++ [e]) (hn : ∀ request, e.call ≠ .submit request) :
    Quiet x y := by
  intro request outcome hm
  rw [h, List.mem_append, List.mem_singleton] at hm
  rcases hm with hm | rfl
  · exact hm
  · exact absurd rfl (hn request)

theorem Desk.Quiet.trans {σ : Type} {x y z : Desk σ} (h : Quiet x y) (h' : Quiet y z) :
    Quiet x z := fun request outcome hm => h request outcome (h' request outcome hm)

namespace Services

variable {σ : Type} (s : Services σ) {directory : Directory}

/-- A lookup that is answered is answered as the directory tells. -/
def Serves (directory : Directory) : Prop :=
  ∀ request o found, (s.environment.answer (.lookup request) o).1 = .ok found →
    directory request = .ok found

/-- All lookups are answered, and as the directory tells. -/
def Honours (directory : Directory) : Prop :=
  ∀ request o, (s.environment.answer (.lookup request) o).1 = directory request

theorem Honours.serves {s : Services σ} (h : s.Honours directory) : s.Serves directory :=
  fun request o found ho => by rwa [h request o] at ho

theorem outside_call_answered (c : Call) (x : Desk σ) :
    (∃ o a y, (s.environment.answer c o).1 = .ok a ∧ Desk.outside (s.call c) x = .ok a y ∧
      y.job = x.job ∧ y.world.calls = x.world.calls ++ [⟨c, .ok a⟩]) ∨
    ∃ o e e' y, (s.environment.answer c o).1 = .error e' ∧
      Desk.outside (s.call c) x = .error e y ∧ y.job = x.job ∧
      y.world.calls = x.world.calls ++ [⟨c, .error e'⟩] := by
  obtain ⟨o, ho⟩ := s.calls_call c x.world
  have hworld : (left (Desk.outside (s.call c) x)).world = left (s.call c x.world) := by
    unfold Desk.outside
    cases s.call c x.world <;> rfl
  rw [← hworld] at ho
  rcases s.outside_call_cases c x with ⟨a, y, h, hj, hc⟩ | ⟨e, e', y, h, hj, hc⟩
  · rw [h, left_ok, hc] at ho
    have hanswer : (.ok a : Except ServiceError c.Answer) = (s.environment.answer c o).1 := by
      simpa using ho
    exact .inl ⟨o, a, y, hanswer.symm, h, hj, hc⟩
  · rw [h, left_error, hc] at ho
    have hanswer : (.error e' : Except ServiceError c.Answer) = (s.environment.answer c o).1 := by
      simpa using ho
    exact .inr ⟨o, e, e', y, hanswer.symm, h, hj, hc⟩

theorem lookup_served {s : Services σ} (hs : s.Serves directory) (kind : LookupKind)
    (role : Option Role) (extra : Fields) (x : Desk σ) :
    (∃ request found y,
      LookupRequest.ofPacketFields kind (x.job.requestFields role extra) = .ok request ∧
      directory request = .ok found ∧ s.lookup kind role extra x = .ok found y ∧ y.job = x.job ∧
      y.world.calls = x.world.calls ++ [⟨.lookup request, .ok found⟩]) ∨
    ∃ e y, s.lookup kind role extra x = .error e y ∧ y.job = x.job ∧ Quiet x y ∧
      ∀ request, LookupRequest.ofPacketFields kind (x.job.requestFields role extra) = .ok request →
        ∃ o e', (s.environment.answer (.lookup request) o).1 = .error e' := by
  unfold lookup
  rw [currentJob_bind]
  cases hr : LookupRequest.ofPacketFields kind (x.job.requestFields role extra) with
  | error e => exact .inr ⟨.validation e, x, rfl, rfl, quiet_of_calls_eq rfl, by simp⟩
  | ok request =>
    have hv : (Desk.validated (.ok request) : Work σ LookupRequest) x = .ok request x := rfl
    rw [bind_of_ok hv]
    rcases s.outside_call_answered (.lookup request) x with
      ⟨o, found, y, ho, h, hj, hc⟩ | ⟨o, e, e', y, ho, h, hj, hc⟩
    · exact .inl ⟨request, found, y, rfl, hs request o found ho, h, hj, hc⟩
    · refine .inr ⟨e, y, h, hj, quiet_of_call hc (by simp), fun request' hr' => ?_⟩
      cases hr'
      exact ⟨o, e', ho⟩

theorem runTask_of_successful {operation : Operation} {n : String} {t : TaskRecord} {x : Desk σ}
    (hn : s.taskName? operation = some n) (ht : x.job.tasks.get? n = some t)
    (hs : t.state = .successful) (role : Option Role) (extra : Fields) :
    s.runTask operation role extra x = .ok t x := by
  have hopen : t.isOpen = false := by
    simp only [TaskRecord.isOpen, hs]
    rfl
  have hsettled : t.settled = .ok t := by simp [TaskRecord.settled, hs]
  unfold runTask
  simp only [hn, currentJob_bind, ht, Option.filter, hopen, Bool.not_false, if_true, hsettled]
  rfl

end Services

section

variable {σ : Type} {s : Services σ} {directory : Directory} {known : String → Prop} {x : Desk σ}
  {step : Step} {p : Progress}

theorem Milestone.look_of_recorded {m : Milestone} {n : String} {t : TaskRecord}
    (hn : s.taskName? m.operation = some n) (ht : x.job.tasks.get? n = some t) :
    m.look s x = .ok none x := by
  unfold look
  cases m.lookup with
  | none => rfl
  | some look =>
    have hhas : s.hasTask x.job m.operation = true := by simp [Services.hasTask, hn, ht]
    simp only [currentJob_bind, hhas, if_true]
    rfl

theorem Milestone.look_of_unrecorded {m : Milestone} {kind : LookupKind} {extra : Job → Fields}
    (hl : m.lookup = some (kind, extra)) (hhas : s.hasTask x.job m.operation = false) :
    m.look s x = (s.lookup kind m.role (extra x.job) >>= fun
      | none => return none
      | some found => Desk.lift (m.ofFound x.job found)) x := by
  unfold look
  rw [hl]
  exact (currentJob_bind _ x).trans (congrFun (if_neg (by simp [hhas])) x)

theorem Milestone.run_of_unreached {m : Milestone} (h : m.isReached x.job.progress = false) :
    m.run s x = (m.look s >>= fun
      | some progress => do
        Desk.setProgress progress
        return .done
      | none => m.perform s) x := by
  unfold run
  rw [currentJob_bind]
  exact congrFun (if_neg (by simp [h])) x

/-- A step makes what is recalled of it, and asks for no task, unless a lookup or the dropping of
records fails. -/
theorem Step.run_of_recalled (hs : s.Serves directory)
    (hk : ∀ n, (x.job.tasks.get? n).isSome = true → known n)
    (h : Recalled s.taskName? directory known x.job step p) :
    (∃ y, step.run s x = .ok .done y ∧ y.job = { x.job with progress := p } ∧ Quiet x y) ∨
    ∃ e y, step.run s x = .error e y ∧ y.job = x.job ∧ Quiet x y ∧ (¬ s.Honours directory ∨
      step = .clear ∧ ∃ id e', ⟨.clear id, .error e'⟩ ∈ y.world.calls) := by
  cases h with
  | @reached m _ h hp =>
    subst hp
    refine .inl ⟨x, ?_, rfl, quiet_of_calls_eq rfl⟩
    show m.run s x = _
    unfold Milestone.run
    rw [currentJob_bind, if_pos h]
    rfl
  | @found m kind extra request found p hnew hlookup hname hrequest hanswer hfound =>
    have hhas : s.hasTask x.job m.operation = false := by
      by_contra hhas
      rw [Bool.not_eq_false, Services.hasTask, Option.any_eq_true] at hhas
      obtain ⟨n, hn, ht⟩ := hhas
      exact hname n hn (hk n ht)
    have hrun : (Step.milestone m).run s x = _ := m.run_of_unreached hnew
    have hlook := m.look_of_unrecorded (s := s) (x := x) hlookup hhas
    rcases Services.lookup_served hs kind m.role (extra x.job) x with
      ⟨request', found', y, hr, ha, hy, hj, hc⟩ | ⟨e, y, hy, hj, hq, hfail⟩
    · rw [hrequest] at hr
      cases hr
      rw [hanswer] at ha
      cases ha
      rw [bind_of_ok hy] at hlook
      simp only [hfound] at hlook
      exact .inl ⟨y.withProgress p, hrun.trans (bind_of_ok hlook _),
        by simp [Desk.withProgress, hj], quiet_of_call hc (by simp)⟩
    · rw [bind_of_error hy] at hlook
      obtain ⟨o, e', ho⟩ := hfail request hrequest
      refine .inr ⟨e, y, hrun.trans (bind_of_error hlook _), hj, hq, .inl fun hh => ?_⟩
      rw [hh request o, hanswer] at ho
      cases ho
  | @task m n t p hnew hname ht hst hp =>
    refine .inl ⟨x.withProgress p, ?_, rfl, quiet_of_calls_eq rfl⟩
    have hrun : m.perform s x = .ok .done (x.withProgress p) := by
      unfold Milestone.perform
      rw [currentJob_bind, bind_of_ok (s.runTask_of_successful hname ht hst _ _), if_pos hst, hp]
      rfl
    show m.run s x = _
    rw [m.run_of_unreached hnew, bind_of_ok (m.look_of_recorded hname ht)]
    exact hrun
  | @adopted f p h =>
    refine .inl ⟨x.withProgress p, ?_, rfl, quiet_of_calls_eq rfl⟩
    show (currentJob >>= _) x = _
    rw [currentJob_bind, h]
    rfl
  | cleared h =>
    have hrun : Step.clear.run s = runClear s := rfl
    rw [hrun]
    unfold runClear
    rw [currentJob_bind]
    split
    · next hc =>
      have hp : p = x.job.progress := by rw [h, ← hc]
      exact .inl ⟨x, rfl, by rw [hp], quiet_of_calls_eq rfl⟩
    · have hclear : s.clear x = Desk.outside (s.call (.clear x.job.transactionId)) x := rfl
      rcases s.outside_call_cases (.clear x.job.transactionId) x with
        ⟨⟨⟩, y, hy, hj, hc⟩ | ⟨e, e', y, hy, hj, hc⟩ <;> rw [← hclear] at hy
      · refine .inl ⟨y.withProgress p, ?_, by simp [Desk.withProgress, hj],
          quiet_of_call hc (by simp)⟩
        rw [bind_of_ok hy, h]
        rfl
      · refine .inr ⟨e, y, bind_of_error hy _, hj, quiet_of_call hc (by simp), .inr ⟨rfl, ?_⟩⟩
        exact ⟨x.job.transactionId, e', by simp [hc]⟩
  | unprovisioned h hp =>
    subst hp
    have hrun : Step.findProject.run s = runFindProject s := rfl
    rw [hrun]
    unfold runFindProject
    rw [currentJob_bind]
    split
    · exact .inl ⟨x, rfl, rfl, quiet_of_calls_eq rfl⟩
    · next hm =>
      obtain ⟨request, hrequest, hanswer⟩ := h (by simpa using hm)
      rcases Services.lookup_served hs .projectTask none ∅ x with
        ⟨request', found, y, hr, ha, hy, hj, hc⟩ | ⟨e, y, hy, hj, hq, hfail⟩
      · rw [hrequest] at hr
        cases hr
        rw [hanswer] at ha
        cases ha
        exact .inl ⟨y, bind_of_ok hy _, hj, quiet_of_call hc (by simp)⟩
      · obtain ⟨o, e', ho⟩ := hfail request hrequest
        refine .inr ⟨e, y, bind_of_error hy _, hj, hq, .inl fun hh => ?_⟩
        rw [hh request o, hanswer] at ho
        cases ho

end

end SiteBroker
