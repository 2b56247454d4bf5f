import SiteBroker.Proofs.Course
import SiteBroker.Proofs.Success

/-! A job that is built anew from the tasks of another is answered as that one was, without any new
task. -/

namespace SiteBroker

open Program Desk

theorem Operation.eq_of_some_name (o o' : Operation) (n : String) (h : some o.name = some n)
    (h' : some o'.name = some n) : o = o' := by
  have hof : ∀ o : Operation, ofName? o.name = some o := by
    intro o
    cases o <;> rfl
  have hname : o.name = o'.name := Option.some.inj (h.trans h'.symm)
  have hsome := hof o
  rw [hname, hof o'] at hsome
  exact (Option.some.inj hsome).symm

namespace Desk

variable {σ : Type} {x : Desk σ}

/-- A record that is news of a successful task tells the same of it. -/
def Firm (x : Desk σ) (t : TaskRecord) : Prop :=
  ∀ u, x.job.tasks.get? t.name = some u → u.state = .successful →
    t.timestamp ≤ u.timestamp ∨ t.state = .successful ∧ t.products = u.products

theorem moved_of_putTask {t : TaskRecord} (hk : x.Known t.name) (hf : x.Firm t) :
    Moved (fun _ => False) x { x with job := x.job.putTask t } where
  later := by
    refine ⟨Job.packet_putTask x.job t, fun {n u} hu => ?_⟩
    rw [Job.tasks_putTask, TaskList.get?_put]
    by_cases hn : n = t.name
    · subst hn
      rw [if_pos rfl, hu]
      refine ⟨t.overlay (some u), rfl, fun hs => ?_⟩
      unfold TaskRecord.overlay
      dsimp only
      split
      · exact ⟨hs, rfl⟩
      · next hnew =>
        rcases hf u hu hs with hold | hsame
        · exact absurd hold hnew
        · exact hsame
    · rw [if_neg hn]
      exact ⟨u, hu, fun hs => ⟨hs, rfl⟩⟩
  known := by
    rintro n (hn | hn)
    · rw [Job.tasks_putTask, TaskList.get?_put] at hn
      by_cases hname : n = t.name
      · exact .inl (hname ▸ hk)
      · rw [if_neg hname] at hn
        exact .inl (.inl hn)
    · exact .inl (.inr hn)
  asked _ hn := .inl hn

end Desk

namespace Workflow

variable {σ : Type} (w : Workflow) (s : Services σ)

/-- The requests of each round of work are answered with news, and only tasks come in that are known
already, and those that were successful as they were. -/
def Fair (x : Desk σ) : List Turn → Prop
  | [] => True
  | .work :: ts => Freshly x (w.turn s x .work) ∧ Fair (w.turn s x .work) ts
  | .update t :: ts => x.Known t.name ∧ x.Firm t ∧ Fair (w.turn s x (.update t)) ts

variable {w s}

theorem fair_append {x : Desk σ} {ts ts' : List Turn} :
    w.Fair s x (ts ++ ts') ↔ w.Fair s x ts ∧ w.Fair s (w.turns s x ts) ts' := by
  induction ts generalizing x with
  | nil => simp [Fair, turns]
  | cons turn ts ih =>
    cases turn with
    | work =>
      rw [List.cons_append, Fair, Fair, ih, and_assoc]
      rfl
    | update t =>
      rw [List.cons_append, Fair, Fair, ih, and_assoc, and_assoc]
      rfl

theorem left_work (w : Workflow) (s : Services σ) (x : Desk σ) :
    left (w.work s x) = left (Step.runAll s (w.steps x.job) x) := by
  rcases hr : Step.runAll s (w.steps x.job) x with ⟨result, y⟩ | ⟨e, y⟩
  · cases result with
    | waiting u => rw [w.work_of_waiting hr, left_ok, left_ok]
    | done => rw [w.work_of_end hr (by simp), left_ok, left_ok]
    | settled => rw [w.work_of_end hr (by simp), left_ok, left_ok]
  · rw [w.work_of_error hr, left_error, left_error]

theorem type_of_clear {t : PacketType} (hw : ofType? t = some w) {job : Job}
    (h : .clear ∈ w.steps job) : t = .dataAccountCreate ∨ t = .dataProjectCreate := by
  have hall := (coherent_steps hw job).clears h
  unfold ofType? at hw
  split at hw <;> cases hw <;>
    first | exact .inl rfl | exact .inr rfl | exact absurd (hall _ (.head _)) (by simp)

end Workflow

theorem traced_start {σ : Type} {s : Services σ} {directory : Directory} {x : Desk σ}
    (hg : x.job.progress = {}) (hc : x.world.calls = []) (steps : List Step) :
    Traced s directory [] steps x := by
  have hnone : ∀ n, ¬ x.Asked n := by
    rintro n ⟨request, outcome, hm, -⟩
    rw [hc] at hm
    cases hm
  refine ⟨hg, by simp, fun step _ => ?_, fun _ _ n _ => hnone n⟩
  cases step with
  | milestone m => exact fun n _ ha => absurd ha (hnone n)
  | adopt f => trivial
  | clear => trivial
  | findProject => trivial

theorem Job.Provisioned.congr {directory : Directory} {job job' : Job} {p : Progress}
    (h : job.Provisioned directory p) (hp : job'.packet = job.packet)
    (ht : job'.tasks = job.tasks) (hg : job'.progress = job.progress) :
    job'.Provisioned directory p := by
  obtain ⟨hm, request, found, hrequest, hanswer, hof⟩ := h
  refine ⟨?_, request, found, ?_, hanswer, ?_⟩
  · simpa only [Job.mayBeProvisioned, Job.field?, Job.fields, hp, ht, hg] using hm
  · rwa [Job.requestFields_congr hp]
  · simpa only [Job.ofFoundProject, hg] using hof

namespace Workflow

variable {σ τ : Type} {w : Workflow} {s : Services σ} {s' : Services τ} {t : PacketType}
  {directory : Directory} {job : Job} {x : Desk σ}

theorem passes_work (hw : ofType? t = some w) (hs : s.Serves directory)
    (hc : Course s (w.steps job)) (hp : x.job.packet = job.packet) {done rest : List Step}
    (hd : done ++ rest = w.steps job) (h : Traced s directory done rest x)
    (hf : Freshly x (w.turn s x .work)) :
    Passes s directory (w.steps job) (Step.runAll s (w.steps x.job) x) := by
  have hsteps : w.steps x.job = w.steps job := steps_congr hw hp
  have hwork : w.turn s x .work = left (Step.runAll s (w.steps x.job) x) := w.left_work s x
  rw [hwork, hsteps] at hf
  rw [hsteps]
  rw [← hd] at hc hf ⊢
  exact h.pass hs hc hf

theorem traced_turns (hw : ofType? t = some w) (hs : s.Serves directory)
    (hc : Course s (w.steps job)) {ts : List Turn} (hp : x.job.packet = job.packet)
    (h : ∃ done rest, done ++ rest = w.steps job ∧ Traced s directory done rest x)
    (hu : w.Unanswered s x ts) (hf : w.Fair s x ts) :
    ∃ done rest, done ++ rest = w.steps job ∧ Traced s directory done rest (w.turns s x ts) := by
  induction ts generalizing x with
  | nil => exact h
  | cons turn ts ih =>
    obtain ⟨done, rest, hd, htraced⟩ := h
    cases turn with
    | work =>
      obtain ⟨hnone, hu⟩ := hu
      obtain ⟨hfresh, hf⟩ := hf
      have hpass := passes_work hw hs hc hp hd htraced hfresh
      have hpacket : (w.turn s x .work).job.packet = job.packet :=
        (w.grew_turn s x .work).1.trans hp
      refine ih hpacket ?_ hu hf
      show ∃ done rest, _ ∧ Traced s directory done rest (left (w.work s x))
      rw [w.left_work s x]
      cases hr : Step.runAll s (w.steps x.job) x with
      | error e y =>
        rw [hr] at hpass
        cases hpass with
        | error hd h => exact ⟨_, _, hd, h⟩
      | ok result y =>
        rw [hr] at hpass
        cases hpass with
        | waiting hd h => exact ⟨_, _, hd, h⟩
        -- There is no reply yet, so the steps did not come to an end.
        | done h => simp [answer?, w.work_of_end hr (by simp)] at hnone
        | settled hd h => simp [answer?, w.work_of_end hr (by simp)] at hnone
    | update u =>
      obtain ⟨hk, hfirm, hf⟩ := hf
      refine ih ((Job.packet_putTask _ u).trans hp) ⟨done, rest, hd, ?_⟩ hu hf
      refine htraced.of_moved (hd ▸ hc.lasts) (moved_of_putTask hk hfirm) ?_
      exact Job.progress_putTask x.job u

theorem runAll_of_passes {steps : List Step} {result : StepResult} {y : Desk σ}
    (h : Passes s directory steps (.ok result y)) (hn : ∀ u, result ≠ .waiting u)
    (hl : ∀ step ∈ steps, step.Lasts) (hsame : s'.taskName? = s.taskName?)
    (hs' : s'.Honours directory)
    {x' : Desk τ} (hclear : .clear ∈ steps →
      ∀ id e, ⟨.clear id, .error e⟩ ∉ (left (Step.runAll s' steps x')).world.calls)
    (hp : x'.job.packet = y.job.packet) (ht : x'.job.tasks = y.job.tasks)
    (hg : x'.job.progress = {}) :
    ∃ result' z, Step.runAll s' steps x' = .ok result' z ∧ (∀ u, result' ≠ .waiting u) ∧
      z.job = { x'.job with progress := y.job.progress } ∧ Quiet x' z := by
  cases h with
  | done h =>
    have hrecalls : Recalls s'.taskName? directory y.Known x'.job steps y.job.progress := by
      rw [hsame]
      exact h.recalls.later hl (.of_tasks_eq hp ht) hg fun _ _ _ _ hk => hk
    have hk : ∀ n, (x'.job.tasks.get? n).isSome = true → y.Known n := fun n hn => .inl (ht ▸ hn)
    obtain ⟨z, hz, hj, hq⟩ := Step.runAll_of_recalls hs' hclear hk hrecalls
    exact ⟨.done, z, hz, by simp, hj, hq⟩
  | waiting _ _ => exact absurd rfl (hn _)
  | settled hd h =>
    obtain ⟨z, hz, hj, hq⟩ := Step.runAll_of_provisioned hs' hd (h.congr hp ht hg)
    exact ⟨.settled, z, hz, by simp, hj, hq⟩

theorem end_of_answer {r : Packet} (hr : w.answer? s x = some r) :
    ∃ result y, Step.runAll s (w.steps x.job) x = .ok result y ∧ (∀ u, result ≠ .waiting u) ∧
      left (w.work s x) = y ∧ w.reply y.job = r := by
  rcases hrun : Step.runAll s (w.steps x.job) x with ⟨result, y⟩ | ⟨e, y⟩
  · have hend : ∀ u, result ≠ .waiting u := fun u he => by
      subst he
      simp [answer?, w.work_of_waiting hrun] at hr
    have hwork := w.work_of_end hrun hend
    have hreply : w.reply y.job = r := by simpa [answer?, hwork] using hr
    exact ⟨result, y, rfl, hend, by rw [hwork, left_ok], hreply⟩
  · simp [answer?, w.work_of_error hrun] at hr

/-- A reply that the steps came to is given again by a job with the tasks that they left behind, and
no task is asked for. -/
theorem answer_of_passes (hw : ofType? t = some w) (hc : Course s (w.steps job))
    (hsame : s'.taskName? = s.taskName?) (hs' : s'.Honours directory)
    {result : StepResult} {y : Desk σ} (h : Passes s directory (w.steps job) (.ok result y))
    (hn : ∀ u, result ≠ .waiting u) (hy : y.job.packet = job.packet) {x' : Desk τ}
    (hp : x'.job.packet = y.job.packet) (ht : x'.job.tasks = y.job.tasks)
    (hg : x'.job.progress = {}) (hcalls : x'.world.calls = [])
    (hclear : t = .dataAccountCreate ∨ t = .dataProjectCreate →
      ∀ id e, ⟨.clear id, .error e⟩ ∉ (w.turn s' x' .work).world.calls) :
    w.answer? s' x' = some (w.reply y.job) ∧
    ∀ request outcome, ⟨.submit request, outcome⟩ ∉ (w.turn s' x' .work).world.calls := by
  have hsteps : w.steps x'.job = w.steps job := steps_congr hw (hp.trans hy)
  have hleft : left (Step.runAll s' (w.steps job) x') = w.turn s' x' .work := by
    rw [← hsteps]
    exact (w.left_work s' x').symm
  obtain ⟨result', z, hz, hend, hj, hq⟩ := runAll_of_passes h hn hc.lasts hsame hs'
    (fun hm => hleft ▸ hclear (type_of_clear hw hm)) hp ht hg
  rw [← hsteps] at hz
  have hwork := w.work_of_end hz hend
  have hreply : w.reply z.job = w.reply y.job :=
    (blind_reply hw).eq (by rw [hj]; exact hp) (by rw [hj])
  refine ⟨by simp [answer?, hwork, hreply], fun request outcome hm => ?_⟩
  have hturn : w.turn s' x' .work = z := by
    show left (w.work s' x') = z
    rw [hwork, left_ok]
  rw [hturn] at hm
  have hbefore := hq request outcome hm
  rw [hcalls] at hbefore
  cases hbefore

/-- The work on a job that is built anew from the tasks left behind ends in the reply at once, and
asks for no task. -/
theorem answer_of_rebuilt (hw : ofType? t = some w)
    (hnames : ∀ o o' n, s.taskName? o = some n → s.taskName? o' = some n → o = o')
    (hsame : s'.taskName? = s.taskName?) (hs : s.Serves directory) (hs' : s'.Honours directory)
    {p : Packet} {tasks : TaskList} (hjob : Job.ofPacket p tasks = .ok x.job)
    (hcalls : x.world.calls = []) {ts : List Turn} (hu : w.Unanswered s x ts)
    (hf : w.Fair s x (ts ++ [.work])) {r : Packet}
    (hr : w.answer? s (w.turns s x ts) = some r) :
    ∃ job', Job.ofPacket p (w.turns s x (ts ++ [.work])).job.tasks = .ok job' ∧
      ∀ x' : Desk τ, x'.job = job' → x'.world.calls = [] →
        (t = .dataAccountCreate ∨ t = .dataProjectCreate →
          ∀ id e, ⟨.clear id, .error e⟩ ∉ (w.turn s' x' .work).world.calls) →
        w.answer? s' x' = some r ∧
        ∀ request outcome, ⟨.submit request, outcome⟩ ∉ (w.turn s' x' .work).world.calls := by
  have hc := course_steps hw hnames x.job
  obtain ⟨hpacket, -, hstart⟩ := Job.of_ofPacket hjob
  have hp : (w.turns s x ts).job.packet = x.job.packet := (w.grew_turns s x ts).1
  obtain ⟨hfair, hfresh, -⟩ := fair_append.mp hf
  obtain ⟨done, rest, hd, htraced⟩ :=
    traced_turns hw hs hc rfl ⟨[], w.steps x.job, rfl, traced_start hstart hcalls _⟩ hu hfair
  have hpass := passes_work hw hs hc hp hd htraced hfresh
  obtain ⟨result, y, hrun, hend, hleft, rfl⟩ := end_of_answer hr
  rw [hrun] at hpass
  have hlast : w.turns s x (ts ++ [.work]) = y := by
    rw [w.turns_append, ← hleft]
    rfl
  have hy : y.job.packet = x.job.packet := by
    rw [← hlast]
    exact (w.grew_turns s x _).1
  have hrecord : p.header.recordId = some x.job.recordId := hpacket ▸ x.job.recordId_eq
  obtain ⟨job', hjob', hpacket', htasks', hstart'⟩ := Job.ofPacket_eq hrecord y.job.tasks
  rw [hlast]
  refine ⟨job', hjob', fun x' hx' hcalls' hclear => ?_⟩
  subst hx'
  have hp' : x'.job.packet = y.job.packet := hpacket'.trans (hpacket.symm.trans hy.symm)
  exact answer_of_passes hw hc hsame hs' hpass hend hy hp' htasks' hstart' hcalls' hclear

/-- Services that are obliging, but take their time to notify anyone. -/
def unhurried : Services Unit :=
  { obliging with
    environment := {
      clock := obliging.environment.clock
      answer := fun
        | .submit request, u =>
          let state := if request.operation = .notifyUser then .queued else .successful
          (.ok ⟨request.keys, request.taskName, state, request.timestamp, []⟩, u)
        | call, u => obliging.environment.answer call u } }

/-- What the obliging services answer to lookups, at any time. -/
def obligingDirectory : Directory := fun request =>
  (obliging.environment.answer (.lookup request) ()).1

/-- A round of work, after which the notice has been given. -/
def rounds : List Turn :=
  [.work, .update ⟨accountJob.taskKeys, "notify_user", .successful, .ofMillis 1000, []⟩]

/-- Where the work on the account begins. -/
def accountDesk : Desk Unit := ⟨accountJob, { outside := () }⟩

theorem rebuilt_accountCreate :
    accountCreate.Unanswered unhurried accountDesk rounds ∧
    accountCreate.Fair unhurried accountDesk (rounds ++ [.work]) ∧
    ∃ r, accountCreate.answer? unhurried (accountCreate.turns unhurried accountDesk rounds) =
        some r ∧
      ∃ job', Job.ofPacket accountJob.packet (accountCreate.turns unhurried accountDesk
          (rounds ++ [.work])).job.tasks = .ok job' ∧
        accountCreate.answer? unhurried ⟨job', { outside := () }⟩ = some r ∧
        ∀ request outcome, ⟨.submit request, outcome⟩ ∉
          (accountCreate.turn unhurried ⟨job', { outside := () }⟩ .work).world.calls := by
  have hu : accountCreate.Unanswered unhurried accountDesk rounds :=
    ⟨Option.isNone_iff_eq_none.mp (by decide +kernel), trivial⟩
  have hqueued : ((accountCreate.turn unhurried accountDesk .work).job.tasks.get?
      "notify_user").all (·.state == .queued) = true := by decide +kernel
  have hf : accountCreate.Fair unhurried accountDesk (rounds ++ [.work]) := by
    refine ⟨?_, .inl (by decide +kernel), fun u hrecord hs => ?_, ?_, trivial⟩
    · show _ = true
      decide +kernel
    · rw [hrecord] at hqueued
      simp [hs] at hqueued
    · show _ = true
      decide +kernel
  have hanswer : (accountCreate.answer? unhurried
      (accountCreate.turns unhurried accountDesk rounds)).isSome = true := by decide +kernel
  obtain ⟨r, hr⟩ := Option.isSome_iff_exists.mp hanswer
  have hs : unhurried.Serves obligingDirectory := fun _ _ _ => id
  have hs' : unhurried.Honours obligingDirectory := fun _ _ => rfl
  have hjob : Job.ofPacket accountJob.packet ∅ = .ok accountDesk.job := rfl
  obtain ⟨job', hjob', hagain⟩ := answer_of_rebuilt (t := .requestAccountCreate) (τ := Unit) rfl
    Operation.eq_of_some_name rfl hs hs' hjob rfl hu hf hr
  exact ⟨hu, hf, r, hr, job', hjob', hagain ⟨job', { outside := () }⟩ rfl rfl (by simp)⟩

/-- Services that drop the records of a transaction when first asked to, and fail from then on. -/
def fickle : Services Bool where
  environment := {
    clock := ⟨fun b => (.epoch, b), fun _ b => b⟩
    answer := fun
      | .getTasks .., b => (.ok [], b)
      | .clear _, b => (if b then .ok () else .error (.requestFailed "no such records"), false)
      | .lookup _, b => (.ok none, b)
      | .submit request, b =>
        (.ok ⟨request.keys, request.taskName, .successful, request.timestamp, []⟩, b)
      | .listPackets _, b => (.ok [], b)
      | .sendPacket _, b => (.ok (), b) }
  localPolicy := { name := "local" }
  remotePolicy := { name := "remote" }
  taskName? o := some o.name

/-- The job for the last word on an account that was created. -/
def closingJob : Job where
  packet := {
    type := .dataAccountCreate
    header := ⟨some 101, 5, 42, "ORIG", "REMOTE", "LOCAL", none, none, none⟩
    body := Fields.ofList [("PersonID", .str "u-1"), ("ProjectID", .str "p-1")] }
  recordId := 101
  timestamp := .epoch
  tasks := ∅
  progress := {}
  recordId_eq := rfl

/-- A desk for it, where the records are there still or no more. -/
def closingDesk (there : Bool) : Desk Bool := ⟨closingJob, { outside := there }⟩

/-- All is as it should be but for the records, which are gone when the job is built anew. -/
theorem unanswered_rebuilt_dataAccountCreate :
    ofType? closingJob.packet.type = some conclude ∧
    (∀ o o' n, fickle.taskName? o = some n → fickle.taskName? o' = some n → o = o') ∧
    (fickle.Honours fun _ => .ok none) ∧
    Job.ofPacket closingJob.packet ∅ = .ok (closingDesk true).job ∧
    conclude.Fair fickle (closingDesk true) [.work] ∧
    (conclude.answer? fickle (closingDesk true)).isSome = true ∧
    (conclude.turn fickle (closingDesk true) .work).world.outside = false ∧
    Job.ofPacket closingJob.packet (conclude.turn fickle (closingDesk true) .work).job.tasks =
      .ok (closingDesk false).job ∧
    conclude.answer? fickle (closingDesk false) = none := by
  refine ⟨rfl, Operation.eq_of_some_name, fun _ _ => rfl, rfl, ⟨?_, trivial⟩, by decide +kernel,
    rfl, rfl, Option.isNone_iff_eq_none.mp (by decide +kernel)⟩
  show _ = true
  decide +kernel

end Workflow

end SiteBroker
