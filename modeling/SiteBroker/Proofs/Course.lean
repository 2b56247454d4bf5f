import SiteBroker.Proofs.Tracing

/-! The course of the work on a job: steps that are done can be recalled, one is worked on, and no
task of the others was asked for. A pass over the steps keeps it so. -/

namespace SiteBroker

open Program Desk

theorem pairwise_operations {steps : List Step} {R : Operation → Operation → Prop} :
    (operations steps).Pairwise R ↔ steps.Pairwise fun a b => ∀ m m', a = .milestone m →
      b = .milestone m' → R m.operation m'.operation := by
  unfold operations milestones
  rw [List.pairwise_map, List.pairwise_filterMap]
  have hof : ∀ {step : Step} {m : Milestone}, step.milestone? = some m ↔ step = .milestone m := by
    intro step m
    cases step <;> simp [Step.milestone?]
  simp only [hof]
  constructor
  · intro h
    refine h.imp fun hab m m' ha hb => hab m ha m' hb
  · intro h
    refine h.imp fun hab m ha m' hb => hab m m' ha hb

/-- Steps that last and that neither share a task nor take back what an earlier one brought. -/
structure Course {σ : Type} (s : Services σ) (steps : List Step) : Prop where
  lasts : ∀ step ∈ steps, step.Lasts
  apart : steps.Pairwise fun a b => ∀ n, a.Names s n → ¬ b.Names s n
  spared : steps.Pairwise fun a b => ∀ m, a = .milestone m → m.operation ∉ b.upsets
  first : .findProject ∉ steps.tail

theorem course_steps {σ : Type} {s : Services σ} {t : PacketType} {w : Workflow}
    (hw : Workflow.ofType? t = some w)
    (hnames : ∀ o o' n, s.taskName? o = some n → s.taskName? o' = some n → o = o') (job : Job) :
    Course s (w.steps job) where
  lasts := (Workflow.orderly_steps hw job).lasts
  apart := by
    have hnodup := (Workflow.coherent_steps hw job).nodup
    rw [List.Nodup, pairwise_operations] at hnodup
    refine hnodup.imp fun hab n => ?_
    rintro ⟨m, ha, hn⟩ ⟨m', hb, hn'⟩
    exact hab m m' ha hb (hnames _ _ n hn hn')
  spared := by
    have hspared := (Workflow.orderly_steps hw job).spared
    rw [pairwise_operations] at hspared
    refine hspared.imp fun {a b} hab m ha => ?_
    cases b with
    | milestone m' => exact hab m m' ha rfl
    | adopt f => exact List.not_mem_nil
    | clear => exact List.not_mem_nil
    | findProject => exact List.not_mem_nil
  first := (Workflow.orderly_steps hw job).first

section

variable {σ : Type} {s : Services σ} {directory : Directory} {x y : Desk σ}
  {done rest : List Step} {step : Step}

/-- Of the steps on the way, those that are done can be recalled from the start and would be passed
over now. No task was asked for the others, except the first of them. -/
structure Traced (s : Services σ) (directory : Directory) (done rest : List Step) (x : Desk σ) :
    Prop where
  recalls : Recalls s.taskName? directory x.Known { x.job with progress := {} } done
    x.job.progress
  again : ∀ step ∈ done, Recalled s.taskName? directory x.Known x.job step x.job.progress
  tasked : ∀ step ∈ rest.head?, x.Tasked s directory step
  ahead : ∀ step ∈ rest.tail, ∀ n, step.Names s n → ¬ x.Asked n

theorem Traced.recalled_of_moved (h : Traced s directory done rest x) {names : String → Prop}
    (hl : ∀ step ∈ done, step.Lasts) (hn : ∀ step ∈ done, ∀ n, step.Names s n → ¬ names n)
    (hm : Moved names x y) :
    Recalls s.taskName? directory y.Known { y.job with progress := {} } done x.job.progress ∧
    ∀ step ∈ done, Recalled s.taskName? directory y.Known
      { y.job with progress := x.job.progress } step x.job.progress := by
  have hknown : ∀ step ∈ done, ∀ n, step.Names s n → y.Known n → x.Known n := by
    intro step hstep n hname hy
    exact (hm.known n hy).resolve_right (hn step hstep n hname)
  constructor
  · refine h.recalls.later hl (hm.later.withProgress _ _) rfl fun m n hstep hname => ?_
    exact hknown _ hstep n ⟨m, rfl, hname⟩
  · intro step hstep
    refine (h.again step hstep).later (hl step hstep) (hm.later.withProgress _ _) rfl ?_
    intro m n he hname
    exact hknown step hstep n ⟨m, he, hname⟩

theorem Traced.of_moved (h : Traced s directory done rest x)
    (hl : ∀ step ∈ done ++ rest, step.Lasts) (hm : Moved (fun _ => False) x y)
    (hg : y.job.progress = x.job.progress) : Traced s directory done rest y := by
  obtain ⟨hrecalls, hagain⟩ := h.recalled_of_moved
    (fun step hs => hl step (List.mem_append_left _ hs)) (fun _ _ _ _ => id) hm
  rw [← hg] at hrecalls hagain
  refine ⟨hrecalls, hagain, fun step hs => ?_, fun step hs n hn ha => ?_⟩
  · have hmem : step ∈ done ++ rest := List.mem_append_right _ (List.mem_of_mem_head? hs)
    exact (h.tasked step hs).of_moved (hl step hmem) hm hg
  · exact h.ahead step hs n hn ((hm.asked n ha).resolve_right id)

theorem Traced.advance (h : Traced s directory done (step :: rest) x)
    (hc : Course s (done ++ step :: rest)) (hm : Moved (step.Names s) x y)
    (hr : Recalled s.taskName? directory y.Known { y.job with progress := x.job.progress } step
      y.job.progress) : Traced s directory (done ++ [step]) rest y := by
  obtain ⟨-, hafter, hbefore⟩ := List.pairwise_append.mp hc.apart
  obtain ⟨hnext, -⟩ := List.pairwise_cons.mp hafter
  obtain ⟨-, -, hspared⟩ := List.pairwise_append.mp hc.spared
  have hl : ∀ step' ∈ done, step'.Lasts := fun step' hs => hc.lasts step' (by simp [hs])
  have hstep : step.Lasts := hc.lasts step (by simp)
  obtain ⟨hrecalls, hagain⟩ := h.recalled_of_moved hl
    (fun step' hs n hn => hbefore step' hs step (by simp) n hn) hm
  -- The ids that are taken over from packets are lost in no step.
  have hids : ∀ o, o = .chooseOrAddPerson ∨ o = .createProject → o ∉ step.upsets := by
    intro o ho
    cases step with
    | milestone m =>
      rcases ho with rfl | rfl <;> cases hop : m.operation <;>
        simp [Step.upsets, Operation.upsets, hop]
    | adopt f => exact List.not_mem_nil
    | clear => exact List.not_mem_nil
    | findProject => exact List.not_mem_nil
  have hasked : ∀ step' ∈ rest, ∀ n, step'.Names s n → ¬ y.Asked n := by
    intro step' hs n hn ha
    rcases hm.asked n ha with ha | hname
    · exact h.ahead step' hs n hn ha
    · exact hnext step' hs n hname hn
  refine ⟨hrecalls.append hr, ?_, ?_, ?_⟩
  · intro step' hs
    rw [List.mem_append, List.mem_singleton] at hs
    rcases hs with hs | rfl
    · refine (hagain step' hs).again (hl step' hs) (hr.advances hstep) ?_ hids
      exact hspared step' hs step (by simp)
    · exact hr.again hstep (.refl [] _) (by simp) (by simp)
  · intro step' hs
    have hmem := List.mem_of_mem_head? hs
    cases step' with
    | milestone m => exact fun n hn ha => absurd ha (hasked _ hmem n ⟨m, rfl, hn⟩)
    | adopt f => trivial
    | clear => trivial
    | findProject => trivial
  · exact fun step' hs => hasked step' (List.mem_of_mem_tail hs)

/-- A step that is not done is still the one that is worked on. -/
theorem Traced.stay (h : Traced s directory done (step :: rest) x)
    (hc : Course s (done ++ step :: rest)) (hm : Moved (step.Names s) x y)
    (hg : y.job.progress = x.job.progress) (ht : y.Tasked s directory step) :
    Traced s directory done (step :: rest) y := by
  obtain ⟨-, hafter, hbefore⟩ := List.pairwise_append.mp hc.apart
  obtain ⟨hnext, -⟩ := List.pairwise_cons.mp hafter
  obtain ⟨hrecalls, hagain⟩ := h.recalled_of_moved
    (fun step' hs => hc.lasts step' (by simp [hs]))
    (fun step' hs n hn => hbefore step' hs step (by simp) n hn) hm
  rw [← hg] at hrecalls hagain
  refine ⟨hrecalls, hagain, fun step' hs => ?_, fun step' hs n hn ha => ?_⟩
  · obtain rfl : step = step' := by simpa using hs
    exact ht
  · rcases hm.asked n ha with ha | hname
    · exact h.ahead step' hs n hn ha
    · exact hnext step' hs n hname hn

theorem Step.runAll_cons (step : Step) (rest : List Step) :
    runAll s (step :: rest) = step.run s >>= fun
      | .done => runAll s rest
      | result => pure result := rfl

theorem Step.runAll_append (before after : List Step) : runAll s (before ++ after) =
    runAll s before >>= fun
      | .done => runAll s after
      | result => pure result := by
  induction before with
  | nil => exact (pure_bind _ _).symm
  | cons first before ih =>
    rw [List.cons_append, runAll_cons, runAll_cons, ih, bind_assoc]
    refine congrArg _ (funext fun result => ?_)
    cases result with
    | done => rfl
    | waiting t => exact (pure_bind _ _).symm
    | settled => exact (pure_bind _ _).symm

theorem Step.runAll_of_again (hs : s.Serves directory) {known : String → Prop}
    (hk : ∀ n, (x.job.tasks.get? n).isSome = true → known n)
    (h : ∀ step ∈ done, Recalled s.taskName? directory known x.job step x.job.progress) :
    (∃ y, runAll s done x = .ok .done y ∧ y.job = x.job ∧ Quiet x y) ∨
    ∃ e y, runAll s done x = .error e y ∧ y.job = x.job ∧ Quiet x y := by
  induction done generalizing x with
  | nil => exact .inl ⟨x, rfl, rfl, fun _ _ => id⟩
  | cons first done ih =>
    obtain ⟨hfirst, hrest⟩ := List.forall_mem_cons.mp h
    rcases first.run_of_recalled hs hk hfirst with ⟨y, hy, hj, hq⟩ | ⟨e, y, hy, hj, hq, -⟩
    · have hrun : runAll s (first :: done) x = runAll s done y := bind_of_ok hy _
      replace hj : y.job = x.job := hj
      rw [hrun]
      rcases ih (x := y) (by rwa [hj]) (by rwa [hj]) with ⟨z, hz, hj', hq'⟩ | ⟨e, z, hz, hj', hq'⟩
      · exact .inl ⟨z, hz, hj'.trans hj, hq.trans hq'⟩
      · exact .inr ⟨e, z, hz, hj'.trans hj, hq.trans hq'⟩
    · exact .inr ⟨e, y, bind_of_error hy _, hj, hq⟩

inductive Passes (s : Services σ) (directory : Directory) (steps : List Step) :
    EStateM.Result ServiceError (Desk σ) StepResult → Prop where
  | done {y : Desk σ} (h : Traced s directory steps [] y) : Passes s directory steps (.ok .done y)
  | waiting {done rest : List Step} {y : Desk σ} {t : TaskRecord} (hd : done ++ rest = steps)
      (h : Traced s directory done rest y) : Passes s directory steps (.ok (.waiting t) y)
  | error {done rest : List Step} {y : Desk σ} {e : ServiceError} (hd : done ++ rest = steps)
      (h : Traced s directory done rest y) : Passes s directory steps (.error e y)
  | settled {y : Desk σ} (hd : steps.head? = some .findProject)
      (hp : Job.Provisioned directory { y.job with progress := {} } y.job.progress) :
      Passes s directory steps (.ok .settled y)

theorem Traced.runAll (h : Traced s directory done rest x) (hs : s.Serves directory)
    (hc : Course s (done ++ rest)) (hf : Freshly x (left (Step.runAll s rest x))) :
    Passes s directory (done ++ rest) (Step.runAll s rest x) := by
  induction rest generalizing done x with
  | nil =>
    rw [List.append_nil]
    exact .done h
  | cons step rest ih =>
    have hstep : step.Lasts := hc.lasts step (by simp)
    rw [Step.runAll_cons] at hf ⊢
    obtain ⟨hfirst, hrest⟩ := hf.bind (step.goes_run (upheld_told s)) fun result => by
      cases result with
      | done => exact Step.goes_runAll (upheld_told s) rest
      | waiting t => exact .pure _
      | settled => exact .pure _
    have hends := step.run_ends hs hstep (h.tasked step rfl) hfirst
    cases hr : step.run s x with
    | error e y =>
      rw [hr] at hends
      rw [bind_of_error hr]
      cases hends with
      | error hm hp ht => exact .error rfl (h.stay hc hm hp ht)
    | ok result y =>
      rw [hr] at hends
      rw [bind_of_ok hr]
      cases hends with
      | done hm hrecalled =>
        have h' := h.advance hc hm hrecalled
        have hsteps : done ++ step :: rest = (done ++ [step]) ++ rest := by simp
        rw [hsteps] at hc ⊢
        exact ih h' hc (hrest .done y hr)
      | waiting hm hp ht => exact .waiting rfl (h.stay hc hm hp ht)
      | settled hfind hq hp hj =>
        -- The project is looked for before anything else is done.
        obtain rfl : done = [] := by
          cases done with
          | nil => rfl
          | cons first done => exact absurd (by simp [hfind]) hc.first
        have hstart : x.job.progress = {} := h.recalls
        refine .settled (by simp [hfind]) ?_
        have hjob : { y.job with progress := ({} : Progress) } = x.job := by rw [hj, ← hstart]
        rwa [hjob]

theorem Traced.pass (h : Traced s directory done rest x) (hs : s.Serves directory)
    (hc : Course s (done ++ rest)) (hf : Freshly x (left (Step.runAll s (done ++ rest) x))) :
    Passes s directory (done ++ rest) (Step.runAll s (done ++ rest) x) := by
  rw [Step.runAll_append] at hf ⊢
  obtain ⟨-, hrest⟩ := hf.bind (Step.goes_runAll (upheld_told s) done) fun result => by
    cases result with
    | done => exact Step.goes_runAll (upheld_told s) rest
    | waiting t => exact .pure _
    | settled => exact .pure _
  rcases Step.runAll_of_again hs (fun n hn => .inl hn) h.again with
    ⟨y, hy, hj, hq⟩ | ⟨e, y, hy, hj, hq⟩
  · have h' := h.of_moved hc.lasts (moved_of_quiet hj hq) (by rw [hj])
    rw [bind_of_ok hy]
    exact h'.runAll hs hc (hrest .done y hy)
  · rw [bind_of_error hy]
    exact .error rfl (h.of_moved hc.lasts (moved_of_quiet hj hq) (by rw [hj]))

end

section

variable {σ : Type} {s : Services σ} {directory : Directory} {known : String → Prop} {x : Desk σ}
  {p : Progress}

theorem Step.runAll_of_recalls (hs : s.Honours directory) {steps : List Step}
    (hclear : .clear ∈ steps →
      ∀ id e, ⟨.clear id, .error e⟩ ∉ (left (runAll s steps x)).world.calls)
    (hk : ∀ n, (x.job.tasks.get? n).isSome = true → known n)
    (h : Recalls s.taskName? directory known x.job steps p) :
    ∃ y, runAll s steps x = .ok .done y ∧ y.job = { x.job with progress := p } ∧ Quiet x y := by
  induction steps generalizing x with
  | nil =>
    cases h
    exact ⟨x, rfl, rfl, fun _ _ => id⟩
  | cons step steps ih =>
    obtain ⟨q, hstep, hrest⟩ := h
    rw [runAll_cons] at hclear ⊢
    rcases step.run_of_recalled hs.serves hk hstep with
      ⟨y, hy, hj, hq⟩ | ⟨e, y, hy, hj, hq, hno | ⟨rfl, id, e', hm⟩⟩
    · rw [bind_of_ok hy] at hclear ⊢
      rw [← hj] at hrest
      obtain ⟨z, hz, hj', hq'⟩ := ih (x := y) (fun hm => hclear (by simp [hm])) (by rwa [hj]) hrest
      exact ⟨z, hz, by rw [hj', hj], hq.trans hq'⟩
    · exact absurd hs hno
    · rw [bind_of_error hy] at hclear
      exact absurd hm (hclear (by simp) id e')

theorem Step.runAll_of_provisioned (hs : s.Honours directory) {steps : List Step}
    (hd : steps.head? = some .findProject) (h : x.job.Provisioned directory p) :
    ∃ y, runAll s steps x = .ok .settled y ∧ y.job = { x.job with progress := p } ∧ Quiet x y := by
  obtain ⟨rest, rfl⟩ := List.head?_eq_some_iff.mp hd
  obtain ⟨hm, request, found, hrequest, hanswer, hp⟩ := h
  rcases Services.lookup_served hs.serves .projectTask none ∅ x with
    ⟨request', answer, y, hr, ha, hy, hj, hc⟩ | ⟨e, y, hy, hj, hq, hfail⟩
  · rw [hrequest] at hr
    cases hr
    rw [hanswer] at ha
    cases ha
    have hrun : Step.findProject.run s x = .ok .settled (y.withProgress p) := by
      show runFindProject s x = _
      unfold runFindProject
      rw [currentJob_bind, if_neg (by simp [hm]), bind_of_ok hy]
      simp only [hp]
      rfl
    refine ⟨y.withProgress p, ?_, by simp [Desk.withProgress, hj], quiet_of_call hc (by simp)⟩
    rw [runAll_cons, bind_of_ok hrun]
    rfl
  · obtain ⟨o, e', ho⟩ := hfail request hrequest
    rw [hs request o, hanswer] at ho
    cases ho

end

end SiteBroker
