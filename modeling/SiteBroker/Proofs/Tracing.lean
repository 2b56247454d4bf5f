import SiteBroker.Proofs.Recall

/-! What a step leaves behind when the requests for tasks are answered with news: if it is done,
then what came of it can be recalled, and if it is not, then it is still to be worked on. -/

namespace SiteBroker

open Program Desk

/-- A request for a task is answered with its name, and with news of it. -/
def Exchange.isNews (l : TaskList) : Exchange → Bool
  | ⟨.submit request, .ok t⟩ => TaskRecord.name t == request.taskName && !l.covers t
  | _ => true

namespace TaskList

/-- What an exchange brings to the tasks of a job. -/
def tell (l : TaskList) : Exchange → TaskList
  | ⟨.submit _, .ok t⟩ => l.put t
  | _ => l

/-- Each of some exchanges is news to those before it. -/
def hearsNews (l : TaskList) : List Exchange → Bool
  | [] => true
  | e :: es => e.isNews l && (l.tell e).hearsNews es

theorem hearsNews_append (l : TaskList) (es es' : List Exchange) :
    l.hearsNews (es ++ es') = (l.hearsNews es && (es.foldl tell l).hearsNews es') := by
  induction es generalizing l with
  | nil => rfl
  | cons e es ih =>
    rw [List.cons_append, hearsNews, hearsNews, ih, Bool.and_assoc]
    rfl

end TaskList

namespace Desk

variable {σ : Type} {x y z : Desk σ}

def Asked (x : Desk σ) (n : String) : Prop :=
  ∃ request outcome, ⟨.submit request, outcome⟩ ∈ x.world.calls ∧ request.taskName = n

/-- The task is on record or was asked for. -/
def Known (x : Desk σ) (n : String) : Prop := (x.job.tasks.get? n).isSome = true ∨ x.Asked n

theorem asked_of_submit {request : TaskRequest} {outcome : Except ServiceError TaskRecord}
    (hc : y.world.calls = x.world.calls ++ [⟨.submit request, outcome⟩]) {n : String}
    (hn : y.Asked n) : x.Asked n ∨ n = request.taskName := by
  obtain ⟨request', outcome', hm, hr⟩ := hn
  rw [hc, List.mem_append, List.mem_singleton] at hm
  rcases hm with hm | hm
  · exact .inl ⟨request', outcome', hm, hr⟩
  · cases hm
    exact .inr hr.symm

theorem Quiet.asked (h : Quiet x y) {n : String} (hn : y.Asked n) : x.Asked n := by
  obtain ⟨request, outcome, hm, hr⟩ := hn
  exact ⟨request, outcome, h request outcome hm, hr⟩

/-- Calls were made, and the tasks that they brought are on record. -/
def Told (x y : Desk σ) : Prop := ∃ news,
  y.world.calls = x.world.calls ++ news ∧ y.job.tasks = news.foldl TaskList.tell x.job.tasks

theorem told_of_calls_eq (ht : y.job.tasks = x.job.tasks) (hc : y.world.calls = x.world.calls) :
    Told x y := ⟨[], by simp [hc], ht⟩

theorem told_of_call {e : Exchange} (ht : y.job.tasks = x.job.tasks.tell e)
    (hc : y.world.calls = x.world.calls ++ [e]) : Told x y := ⟨[e], hc, ht⟩

theorem Told.trans (h : Told x y) (h' : Told y z) : Told x z := by
  obtain ⟨news, hc, ht⟩ := h
  obtain ⟨news', hc', ht'⟩ := h'
  exact ⟨news ++ news', by rw [hc', hc, List.append_assoc], by rw [ht', ht, List.foldl_append]⟩

instance : IsPreorder (Desk σ) Told where
  refl _ := told_of_calls_eq rfl rfl
  trans _ _ _ := Told.trans

theorem goes_told_submit (s : Services σ) (operation : Operation) (name : String)
    (role : Option Role) (extra : Fields) : Goes Told (s.submit operation name role extra) := by
  intro x
  rcases s.submit_cases operation name role extra x with
    ⟨t, y, request, h, -, hj, hc⟩ | ⟨e, y, h, hj, hc | ⟨request, e', -, hc⟩⟩ <;> rw [h]
  · exact told_of_call (by rw [left_ok, hj, Job.tasks_putTask]; rfl) hc
  · exact told_of_calls_eq (by rw [left_error, hj]) hc
  · exact told_of_call (by rw [left_error, hj]; rfl) hc

theorem upheld_told (s : Services σ) : Upheld s Told where
  lookup kind role extra x := by
    rcases s.lookup_cases kind role extra x with
      ⟨found, y, request, h, hj, -, hc⟩ | ⟨e, y, h, hj, hc | ⟨request, e', hc⟩⟩ <;> rw [h]
    · exact told_of_call (by rw [left_ok, hj]; rfl) hc
    · exact told_of_calls_eq (by rw [left_error, hj]) hc
    · exact told_of_call (by rw [left_error, hj]; rfl) hc
  clear x := by
    rcases s.clear_cases x with ⟨y, h, hj, hc⟩ | ⟨e, e', y, h, hj, hc⟩ <;> rw [h]
    · exact told_of_call (by rw [left_ok, hj]; rfl) hc
    · exact told_of_call (by rw [left_error, hj]; rfl) hc
  runTask operation role extra x := by
    rcases s.runTask_cases operation role extra x with
      ⟨e, h⟩ | ⟨name, -, ⟨t, -, h⟩ | ⟨-, h⟩⟩ <;> rw [h]
    · exact refl_of Told x
    · exact goes_lift _ x
    · exact left_bind (goes_told_submit s operation name role extra x) fun t y _ => goes_lift _ y
  setProgress _ _ := told_of_calls_eq rfl rfl

/-- The answers to the requests for tasks that were made from one desk to another are news. -/
def Freshly (x y : Desk σ) : Prop :=
  x.job.tasks.hearsNews (y.world.calls.drop x.world.calls.length) = true

theorem Freshly.split (h : Freshly x z) (hxy : Told x y) (hyz : Told y z) :
    Freshly x y ∧ Freshly y z := by
  obtain ⟨news, hc, ht⟩ := hxy
  obtain ⟨news', hc', -⟩ := hyz
  unfold Freshly at h ⊢
  have hfirst : y.world.calls.drop x.world.calls.length = news := by rw [hc, List.drop_left]
  have hsecond : z.world.calls.drop y.world.calls.length = news' := by rw [hc', List.drop_left]
  have hboth : z.world.calls.drop x.world.calls.length = news ++ news' := by
    rw [hc', hc, List.append_assoc, List.drop_left]
  rw [hfirst, hsecond, ht]
  rwa [hboth, TaskList.hearsNews_append, Bool.and_eq_true] at h

theorem Freshly.bind {α β : Type} {f : Work σ α} {g : α → Work σ β}
    (h : Freshly x (left ((f >>= g) x))) (hf : Goes Told f) (hg : ∀ a, Goes Told (g a)) :
    Freshly x (left (f x)) ∧ ∀ a y, f x = .ok a y → Freshly y (left (g a y)) := by
  have hx := hf x
  cases hr : f x with
  | ok a y =>
    rw [bind_of_ok hr] at h
    rw [hr] at hx
    obtain ⟨hfirst, hrest⟩ := h.split hx (hg a y)
    refine ⟨hfirst, fun a' y' he => ?_⟩
    cases he
    exact hrest
  | error e y =>
    rw [bind_of_error hr] at h
    exact ⟨h, fun a' y' he => by cases he⟩

/-- No task got lost, and only tasks of some names were asked for or became known. -/
structure Moved (names : String → Prop) (x y : Desk σ) : Prop where
  later : x.job.Later y.job
  known : ∀ n, y.Known n → x.Known n ∨ names n
  asked : ∀ n, y.Asked n → x.Asked n ∨ names n

variable {names : String → Prop}

theorem Moved.mono {names' : String → Prop} (h : Moved names x y) (hn : ∀ n, names n → names' n) :
    Moved names' x y :=
  ⟨h.later, fun n hk => (h.known n hk).imp_right (hn n),
    fun n ha => (h.asked n ha).imp_right (hn n)⟩

theorem Quiet.known (h : Quiet x y) (hj : y.job = x.job) {n : String} (hn : y.Known n) :
    x.Known n := by
  unfold Known at hn ⊢
  rw [hj] at hn
  exact hn.imp_right h.asked

theorem moved_of_quiet (hj : y.job = x.job) (hq : Quiet x y) : Moved names x y where
  later := .of_tasks_eq (by rw [hj]) (by rw [hj])
  known _ hn := .inl (hq.known hj hn)
  asked _ hn := .inl (hq.asked hn)

theorem Moved.of_quiet (h : Moved names y z) (hj : y.job = x.job) (hq : Quiet x y) :
    Moved names x z where
  later := hj ▸ h.later
  known n hn := (h.known n hn).imp_left (hq.known hj)
  asked n hn := (h.asked n hn).imp_left hq.asked

theorem Moved.withProgress (h : Moved names x y) (p : Progress) :
    Moved names x (y.withProgress p) :=
  ⟨⟨h.later.packet, h.later.tasks⟩, h.known, h.asked⟩

end Desk

namespace Services

variable {σ : Type} (s : Services σ)

theorem submit_fresh {operation : Operation} {name : String} {role : Option Role} {extra : Fields}
    {x : Desk σ} (ho : (x.job.tasks.get? name).all (·.isOpen) = true)
    (hf : Freshly x (left (s.submit operation name role extra x))) :
    ∃ y, y.job.progress = x.job.progress ∧ Moved (· = name) x y ∧
      ((∃ t, s.submit operation name role extra x = .ok t y ∧ y.job.tasks.get? name = some t) ∨
      ∃ e, s.submit operation name role extra x = .error e y) := by
  rcases s.submit_cases operation name role extra x with
    ⟨t, y, request, h, hr, hj, hc⟩ | ⟨e, y, h, hj, hc⟩
  · rw [h, left_ok] at hf
    obtain ⟨hname, hnews⟩ : t.name = name ∧ x.job.tasks.covers t = false := by
      simpa [Freshly, hc, TaskList.hearsNews, Exchange.isNews, hr.name] using hf
    -- What was on record before is open, so that no successful task is replaced.
    have htasks : ∀ n, y.job.tasks.get? n = if n = name then some t else x.job.tasks.get? n := by
      intro n
      rw [hj, Job.tasks_putTask, TaskList.get?_put, hname]
      split
      · next hn =>
        subst hn
        cases hold : x.job.tasks.get? n with
        | none => rfl
        | some u =>
          have hlt : ¬ t.timestamp ≤ u.timestamp := fun hle => by
            rw [TaskList.covers_iff.mpr ⟨u, by rw [hname, hold], hle⟩] at hnews
            cases hnews
          simp [TaskRecord.overlay, hlt]
      · rfl
    have hasked : ∀ n, y.Asked n → x.Asked n ∨ n = name := fun n hn => by
      rw [← hr.name]
      exact asked_of_submit hc hn
    have hknown : ∀ n, y.Known n → x.Known n ∨ n = name := by
      rintro n (hn | hn)
      · by_cases hname' : n = name
        · exact .inr hname'
        · exact .inl (.inl (by simpa [htasks, hname'] using hn))
      · exact (hasked n hn).imp_left .inr
    have hlater : x.job.Later y.job := by
      refine ⟨by simp [hj], fun {n u} hu => ?_⟩
      by_cases hn : n = name
      · refine ⟨t, by simp [htasks, hn], fun hs => ?_⟩
        rw [hn] at hu
        rw [hu] at ho
        simp [TaskRecord.isOpen, hs] at ho
      · exact ⟨u, by simp [htasks, hn, hu], fun hs => ⟨hs, rfl⟩⟩
    exact ⟨y, by simp [hj], ⟨hlater, hknown, hasked⟩, .inl ⟨t, h, by simp [htasks]⟩⟩
  · have hasked : ∀ n, y.Asked n → x.Asked n ∨ n = name := fun n hn => by
      rcases hc with hc | ⟨request, e', hr, hc⟩
      · exact .inl ((quiet_of_calls_eq hc).asked hn)
      · rw [← hr.name]
        exact asked_of_submit hc hn
    have hknown : ∀ n, y.Known n → x.Known n ∨ n = name := by
      rintro n (hn | hn)
      · exact .inl (.inl (hj ▸ hn))
      · exact (hasked n hn).imp_left .inr
    exact ⟨y, by rw [hj], ⟨.of_tasks_eq (by rw [hj]) (by rw [hj]), hknown, hasked⟩, .inr ⟨e, h⟩⟩

theorem lift_settled_cases (t : TaskRecord) (x : Desk σ) : Desk.lift t.settled x = .ok t x ∨
    ∃ e, (Desk.lift t.settled : Work σ TaskRecord) x = .error e x := by
  unfold TaskRecord.settled
  split
  · exact .inr ⟨_, rfl⟩
  · exact .inr ⟨_, rfl⟩
  · exact .inl rfl

theorem runTask_fresh {operation : Operation} {role : Option Role} {extra : Fields} {x : Desk σ}
    (hf : Freshly x (left (s.runTask operation role extra x))) :
    ∃ y, y.job.progress = x.job.progress ∧ Moved (s.taskName? operation = some ·) x y ∧
      ((∃ t n, s.runTask operation role extra x = .ok t y ∧ s.taskName? operation = some n ∧
        y.job.tasks.get? n = some t) ∨ ∃ e, s.runTask operation role extra x = .error e y) := by
  have hstay : Moved (s.taskName? operation = some ·) x x := moved_of_quiet rfl fun _ _ => id
  rcases s.runTask_cases operation role extra x with
    ⟨e, h⟩ | ⟨name, hname, ⟨t, ht, h⟩ | ⟨ho, h⟩⟩ <;> rw [h] at hf ⊢
  · exact ⟨x, rfl, hstay, .inr ⟨e, rfl⟩⟩
  · rcases lift_settled_cases t x with hl | ⟨e, hl⟩ <;> rw [hl]
    · exact ⟨x, rfl, hstay, .inl ⟨t, name, rfl, hname, ht⟩⟩
    · exact ⟨x, rfl, hstay, .inr ⟨e, rfl⟩⟩
  · obtain ⟨hsubmit, -⟩ := hf.bind (goes_told_submit s operation name role extra)
      fun t => goes_lift t.settled
    obtain ⟨y, hp, hm, hy⟩ := s.submit_fresh ho hsubmit
    have hm' : Moved (s.taskName? operation = some ·) x y := by
      refine hm.mono fun n hn => ?_
      rw [hname, hn]
    rcases hy with ⟨t, hy, ht⟩ | ⟨e, hy⟩
    · rw [bind_of_ok hy]
      rcases lift_settled_cases t y with hl | ⟨e, hl⟩ <;> rw [hl]
      · exact ⟨y, hp, hm', .inl ⟨t, name, rfl, hname, ht⟩⟩
      · exact ⟨y, hp, hm', .inr ⟨e, rfl⟩⟩
    · rw [bind_of_error hy]
      exact ⟨y, hp, hm', .inr ⟨e, rfl⟩⟩

end Services

section

variable {σ : Type} {s : Services σ} {directory : Directory} {x y : Desk σ} {m : Milestone}
  {step : Step}

/-- The lookup of a milestone, if it has one, leaves it to the task. -/
def Milestone.Unsettled (m : Milestone) (directory : Directory) (job : Job) : Prop :=
  ∀ kind extra request found p, m.lookup = some (kind, extra) →
    LookupRequest.ofPacketFields kind (job.requestFields m.role (extra job)) = .ok request →
    directory request = .ok (some found) → m.ofFound job found ≠ .ok (some p)

theorem Milestone.Unsettled.congr {job job' : Job} (h : m.Unsettled directory job) (hm : m.Lasting)
    (hp : job'.packet = job.packet) (hg : job'.progress = job.progress) :
    m.Unsettled directory job' := by
  intro kind extra request found p hl hr hd
  have hextra : extra job' = extra job := (hm.lookup_blind hl).eq hp hg
  have hfound : m.ofFound job' found = m.ofFound job found := (hm.found_blind found).eq hp hg
  rw [hextra, Job.requestFields_congr hp] at hr
  rw [hfound]
  exact h kind extra request found p hl hr hd

/-- If the task of a milestone was asked for, then it is on record, or the lookup leaves all to
it. -/
def Desk.Tasked (s : Services σ) (directory : Directory) (x : Desk σ) : Step → Prop
  | .milestone m => ∀ n, s.taskName? m.operation = some n → x.Asked n →
    (x.job.tasks.get? n).isSome = true ∨ m.Unsettled directory x.job
  | .adopt _ | .clear | .findProject => True

theorem Desk.Tasked.of_moved (h : x.Tasked s directory step) (hl : step.Lasts)
    (hm : Moved (fun _ => False) x y) (hg : y.job.progress = x.job.progress) :
    y.Tasked s directory step := by
  cases step with
  | milestone m =>
    intro n hn ha
    rcases h n hn ((hm.asked n ha).resolve_right id) with hr | hu
    · exact .inl (hm.later.isSome hr)
    · exact .inr (hu.congr hl hm.later.packet hg)
  | adopt f => trivial
  | clear => trivial
  | findProject => trivial

def Step.Names (s : Services σ) (step : Step) (n : String) : Prop :=
  ∃ m, step = .milestone m ∧ s.taskName? m.operation = some n

/-- A project is found that was set up for the job before. -/
def Job.Provisioned (directory : Directory) (job : Job) (p : Progress) : Prop :=
  job.mayBeProvisioned = true ∧ ∃ request found,
    LookupRequest.ofPacketFields .projectTask (job.requestFields none ∅) = .ok request ∧
    directory request = .ok (some found) ∧ job.ofFoundProject found = .ok p

inductive Step.Ends (s : Services σ) (directory : Directory) (step : Step) (x : Desk σ) :
    EStateM.Result ServiceError (Desk σ) StepResult → Prop where
  | done {y : Desk σ} (hm : Moved (step.Names s) x y)
      (h : Recalled s.taskName? directory y.Known { y.job with progress := x.job.progress } step
        y.job.progress) : Ends s directory step x (.ok .done y)
  | waiting {y : Desk σ} {t : TaskRecord} (hm : Moved (step.Names s) x y)
      (hp : y.job.progress = x.job.progress) (ht : y.Tasked s directory step) :
      Ends s directory step x (.ok (.waiting t) y)
  | error {y : Desk σ} {e : ServiceError} (hm : Moved (step.Names s) x y)
      (hp : y.job.progress = x.job.progress) (ht : y.Tasked s directory step) :
      Ends s directory step x (.error e y)
  | settled {y : Desk σ} (hs : step = .findProject) (hq : Quiet x y)
      (hp : x.job.Provisioned directory y.job.progress)
      (hj : y.job = { x.job with progress := y.job.progress }) :
      Ends s directory step x (.ok .settled y)

theorem Step.Ends.of_quiet {r : EStateM.Result ServiceError (Desk σ) StepResult}
    (h : Ends s directory step y r) (hj : y.job = x.job) (hq : Quiet x y) :
    Ends s directory step x r := by
  cases h with
  | done hm h => exact .done (hm.of_quiet hj hq) (by rwa [hj] at h)
  | waiting hm hp ht => exact .waiting (hm.of_quiet hj hq) (by rwa [hj] at hp) ht
  | error hm hp ht => exact .error (hm.of_quiet hj hq) (by rwa [hj] at hp) ht
  | settled hs hq' hp hj' =>
    exact .settled hs (hq.trans hq') (by rwa [hj] at hp) (by rwa [hj] at hj')

theorem Milestone.perform_ends (hm : m.Lasting) (hnew : m.isReached x.job.progress = false)
    (ht : ∀ n, s.taskName? m.operation = some n →
      (x.job.tasks.get? n).isSome = true ∨ m.Unsettled directory x.job)
    (hf : Freshly x (left (m.perform s x))) :
    (Step.milestone m).Ends s directory x (m.perform s x) := by
  unfold perform at hf ⊢
  rw [currentJob_bind] at hf ⊢
  obtain ⟨hf, -⟩ := hf.bind ((upheld_told s).runTask m.operation m.role (m.extra x.job)) fun t => by
    split
    · exact .bind (goes_lift _) fun p => .bind ((upheld_told s).setProgress p) fun _ => .pure _
    · exact .pure _
  obtain ⟨y, hp, hmoved, hy⟩ := s.runTask_fresh hf
  replace hmoved : Moved ((Step.milestone m).Names s) x y := hmoved.mono fun n hn => ⟨m, rfl, hn⟩
  have htasked : y.Tasked s directory (.milestone m) := fun n hn _ => by
    rcases ht n hn with hr | hu
    · exact .inl (hmoved.later.isSome hr)
    · exact .inr (hu.congr hm hmoved.later.packet hp)
  rcases hy with ⟨t, n, hy, hn, hrecord⟩ | ⟨e, hy⟩
  · rw [bind_of_ok hy]
    by_cases hs : t.state = .successful
    · have htask : m.ofTask y.job t = m.ofTask x.job t :=
        (hm.task_blind t).eq hmoved.later.packet hp
      rw [if_pos hs]
      cases ho : m.ofTask x.job t with
      | error e => exact .error hmoved hp htasked
      | ok p =>
        have hjob : { y.job with progress := x.job.progress } = y.job := by rw [← hp]
        refine .done (y := y.withProgress p) (hmoved.withProgress p) ?_
        show Recalled _ _ _ { y.job with progress := x.job.progress } _ p
        rw [hjob]
        exact .task (by rwa [hp]) hn hrecord hs (htask.trans ho)
    · rw [if_neg hs]
      exact .waiting hmoved hp htasked
  · rw [bind_of_error hy]
    exact .error hmoved hp htasked

theorem Milestone.unsettled_of_request {job : Job} {kind : LookupKind} {extra : Job → Fields}
    {request : LookupRequest} (hl : m.lookup = some (kind, extra))
    (hr : LookupRequest.ofPacketFields kind (job.requestFields m.role (extra job)) = .ok request)
    (hd : ∀ found p, directory request = .ok (some found) → m.ofFound job found ≠ .ok (some p)) :
    m.Unsettled directory job := by
  intro kind' extra' request' found p hl' hr' hd'
  rw [hl] at hl'
  cases hl'
  rw [hr] at hr'
  cases hr'
  exact hd found p hd'

/-- A lookup leaves a milestone to its task, or settles it for good, or fails. -/
theorem Milestone.look_served (hs : s.Serves directory)
    (hnew : m.isReached x.job.progress = false) (ht : x.Tasked s directory (.milestone m)) :
    (∃ y, m.look s x = .ok none y ∧ y.job = x.job ∧ Quiet x y ∧
      ∀ n, s.taskName? m.operation = some n →
        (x.job.tasks.get? n).isSome = true ∨ m.Unsettled directory x.job) ∨
    (∃ p y, m.look s x = .ok (some p) y ∧ y.job = x.job ∧ Quiet x y ∧
      Recalled s.taskName? directory y.Known x.job (.milestone m) p) ∨
    ∃ e y, m.look s x = .error e y ∧ y.job = x.job ∧ Quiet x y := by
  cases hl : m.lookup with
  | none =>
    have hlook : m.look s x = .ok none x := by
      unfold look
      rw [hl]
      rfl
    have hleft : m.Unsettled directory x.job := fun _ _ _ _ _ hl' => by
      rw [hl] at hl'
      cases hl'
    exact .inl ⟨x, hlook, rfl, fun _ _ => id, fun n _ => .inr hleft⟩
  | some look =>
    obtain ⟨kind, extra⟩ := look
    cases hhas : s.hasTask x.job m.operation with
    | true =>
      rw [Services.hasTask, Option.any_eq_true] at hhas
      obtain ⟨n, hn, hrecord⟩ := hhas
      obtain ⟨u, hu⟩ := Option.isSome_iff_exists.mp hrecord
      refine .inl ⟨x, m.look_of_recorded hn hu, rfl, fun _ _ => id, fun n' hn' => .inl ?_⟩
      rw [hn] at hn'
      cases hn'
      exact hrecord
    | false =>
      have hlook := m.look_of_unrecorded (s := s) hl hhas
      rcases Services.lookup_served hs kind m.role (extra x.job) x with
        ⟨request, answer, y, hrequest, ha, hy, hj, hc⟩ | ⟨e, y, hy, hj, hq, -⟩
      · have hq : Quiet x y := quiet_of_call hc (by simp)
        rw [bind_of_ok hy] at hlook
        rcases answer with _ | found
        · have hleft : m.Unsettled directory x.job :=
            m.unsettled_of_request hl hrequest fun found p hd => by simp [ha] at hd
          exact .inl ⟨y, hlook, hj, hq, fun n _ => .inr hleft⟩
        · dsimp only at hlook
          rcases hp : m.ofFound x.job found with e | _ | p <;> rw [hp] at hlook
          · exact .inr (.inr ⟨e, y, hlook, hj, hq⟩)
          · have hleft : m.Unsettled directory x.job := by
              refine m.unsettled_of_request hl hrequest fun found' p hd hp' => ?_
              rw [ha] at hd
              cases hd
              rw [hp] at hp'
              cases hp'
            exact .inl ⟨y, hlook, hj, hq, fun n _ => .inr hleft⟩
          -- Had the task been asked for, then this lookup would not have settled anything.
          · have hunknown : ∀ n, s.taskName? m.operation = some n → ¬ y.Known n := by
              intro n hn hk
              have hrecord : (x.job.tasks.get? n).isSome = true := by
                rcases hq.known hj hk with hrecord | hasked
                · exact hrecord
                · refine (ht n hn hasked).resolve_right fun hu => ?_
                  exact hu kind extra request found p hl hrequest ha hp
              simp [Services.hasTask, hn, hrecord] at hhas
            exact .inr (.inl ⟨p, y, hlook, hj, hq, .found hnew hl hunknown hrequest ha hp⟩)
      · rw [bind_of_error hy] at hlook
        exact .inr (.inr ⟨e, y, hlook, hj, hq⟩)

theorem Milestone.run_ends (hs : s.Serves directory) (hm : m.Lasting)
    (ht : x.Tasked s directory (.milestone m)) (hf : Freshly x (left (m.run s x))) :
    (Step.milestone m).Ends s directory x (m.run s x) := by
  by_cases hr : m.isReached x.job.progress = true
  · have hrun : m.run s x = .ok .done x := by
      unfold run
      rw [currentJob_bind, if_pos hr]
      rfl
    rw [hrun]
    exact .done (moved_of_quiet rfl fun _ _ => id) (.reached hr rfl)
  have hnew : m.isReached x.job.progress = false := by simpa using hr
  rw [m.run_of_unreached hnew] at hf ⊢
  obtain ⟨-, hf⟩ := hf.bind (m.goes_look (upheld_told s)) fun found => by
    split
    · exact .bind ((upheld_told s).setProgress _) fun _ => .pure _
    · exact m.goes_perform (upheld_told s)
  rcases m.look_served hs hnew ht with
    ⟨y, hlook, hj, hq, hspared⟩ | ⟨p, y, hlook, hj, hq, hrecalled⟩ | ⟨e, y, hlook, hj, hq⟩
  -- The task is run at the desk after the lookup, where the job is still the same.
  · rw [bind_of_ok hlook]
    have hends : (Step.milestone m).Ends s directory y (m.perform s y) :=
      m.perform_ends hm (by rwa [hj]) (by rwa [hj]) (hf none y hlook)
    exact hends.of_quiet hj hq
  · rw [bind_of_ok hlook]
    refine .done (y := y.withProgress p) ((moved_of_quiet hj hq).withProgress p) ?_
    have hjob : { (y.withProgress p).job with progress := x.job.progress } = x.job := by
      rw [← hj]
      rfl
    rw [hjob]
    exact hrecalled
  · rw [bind_of_error hlook]
    exact .error (moved_of_quiet hj hq) (by rw [hj])
      (ht.of_moved hm (moved_of_quiet hj hq) (by rw [hj]))

theorem Step.run_ends (hs : s.Serves directory) (hl : step.Lasts)
    (ht : x.Tasked s directory step) (hf : Freshly x (left (step.run s x))) :
    step.Ends s directory x (step.run s x) := by
  have hstay : Moved (step.Names s) x x := moved_of_quiet rfl fun _ _ => id
  cases step with
  | milestone m => exact m.run_ends hs hl ht hf
  | adopt f =>
    have hrun : (Step.adopt f).run s x = _ := currentJob_bind _ x
    rw [hrun]
    cases hp : f x.job with
    | error e => exact .error hstay rfl trivial
    | ok p => exact .done (y := x.withProgress p) (hstay.withProgress p) (.adopted hp)
  | clear =>
    have hrun : Step.clear.run s = runClear s := rfl
    rw [hrun]
    unfold runClear
    rw [currentJob_bind]
    split
    · next hc => exact .done hstay (.cleared (by rw [← hc]))
    · rcases s.clear_cases x with ⟨y, h, hj, hc⟩ | ⟨e, e', y, h, hj, hc⟩
      · rw [bind_of_ok h]
        refine .done (y := y.withProgress { x.job.progress with transactionCleared := some true })
          ((moved_of_quiet hj (quiet_of_call hc (by simp))).withProgress _) (.cleared rfl)
      · rw [bind_of_error h]
        exact .error (moved_of_quiet hj (quiet_of_call hc (by simp))) (by rw [hj]) trivial
  | findProject =>
    have hrun : Step.findProject.run s = runFindProject s := rfl
    rw [hrun]
    unfold runFindProject
    rw [currentJob_bind]
    split
    · next hm =>
      refine .done hstay (.unprovisioned (fun hm' => ?_) rfl)
      simp [hm'] at hm
    · next hm =>
      rcases Services.lookup_served hs .projectTask none ∅ x with
        ⟨request, answer, y, hrequest, ha, hy, hj, hc⟩ | ⟨e, y, hy, hj, hq, -⟩
      · have hq : Quiet x y := quiet_of_call hc (by simp)
        rw [bind_of_ok hy]
        cases answer with
        | none =>
          have hjob : { y.job with progress := x.job.progress } = x.job := by rw [← hj]
          refine .done (moved_of_quiet hj hq) ?_
          rw [hjob]
          exact .unprovisioned (fun _ => ⟨request, hrequest, ha⟩) (by rw [hj])
        | some found =>
          dsimp only
          cases hp : x.job.ofFoundProject found with
          | error e => exact .error (moved_of_quiet hj hq) (by rw [hj]) trivial
          | ok p =>
            have hm' : x.job.mayBeProvisioned = true := by simpa using hm
            exact .settled (y := y.withProgress p) rfl hq
              ⟨hm', request, found, hrequest, ha, hp⟩ (by simp [Desk.withProgress, hj])
      · rw [bind_of_error hy]
        exact .error (moved_of_quiet hj hq) (by rw [hj]) trivial

end

end SiteBroker
