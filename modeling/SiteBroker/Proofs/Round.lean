import SiteBroker.Proofs.Answers
import SiteBroker.Proofs.Sorting

/-! A round of work, job by job. Each job that is served is settled: it waits on, or its reply is
held. An error ends the round where it happens, and what was settled before stays so. -/

namespace SiteBroker

open Program

/-- A job comes before another by the time of its packet, then by its transaction. -/
def Job.Earlier (a b : Job) : Prop :=
  a.packetTimestamp < b.packetTimestamp ∨
    a.packetTimestamp = b.packetTimestamp ∧ compare a.transactionId b.transactionId = .lt

namespace Docket

variable {d : Docket}

theorem sortsBy_precedes : SortsBy Job.packetTimestamp Job.transactionId precedes := by
  simp [SortsBy, precedes]

theorem lists_jobs : Lists d.job? d.jobs :=
  Lists.filterMap (Lists.ofTreeMap d.transactions) (·.job?)

theorem mem_jobsInOrder {job : Job} : job ∈ d.jobsInOrder ↔ ∃ id, d.job? id = some job := by
  rw [jobsInOrder, List.mem_mergeSort]
  exact lists_jobs.mem_iff

theorem Sound.nodup_jobs (hs : d.Sound) : (d.jobs.map (·.transactionId)).Nodup :=
  lists_jobs.nodup_map fun _ _ hj => hs.transactionId_of_job? hj

theorem Sound.nodup_jobsInOrder (hs : d.Sound) :
    (d.jobsInOrder.map (·.transactionId)).Nodup := by
  have hperm : (d.jobsInOrder.map (·.transactionId)).Perm (d.jobs.map (·.transactionId)) :=
    (List.mergeSort_perm _ _).map _
  exact hperm.nodup_iff.mpr hs.nodup_jobs

theorem Sound.pairwise_jobsInOrder (hs : d.Sound) : d.jobsInOrder.Pairwise Job.Earlier :=
  sortsBy_precedes.pairwise_mergeSort hs.nodup_jobs

end Docket

/-- The reply of a job takes its place. -/
theorem Transaction.held_holdReply_of_job {t : Transaction} {job : Job} (hj : t.job? = some job)
    (now : Instant) (r : Packet) :
    (t.holdReply now r).held = some ⟨.outgoing r false, Timer.immediate now⟩ := by
  have hincoming : t.isOutgoing = false := by
    rw [Bool.eq_false_iff, ne_eq, isOutgoing_iff, hj]
    exact fun h => Option.some_ne_none job h.2
  have hnew : t.holdsReply r = false := by rw [holdsReply, hincoming, Bool.false_and]
  rw [holdReply, hnew, if_neg Bool.false_ne_true]

/-- A job that a round of work comes to, and the world in which it is worked on. -/
structure Visit (σ : Type) where
  job : Job
  world : World σ

namespace Visit

variable {σ : Type} (s : Services σ) (v : Visit σ)

def id : TransactionId := v.job.transactionId

/-- What the work on the job comes to. -/
def result : EStateM.Result ServiceError (Desk σ) Outcome :=
  (Registry.catalog s).work v.job.packet.type ⟨v.job, v.world⟩

/-- The work comes to a reply, or to a failure that is answered. -/
def Gives (r : Packet) : Prop :=
  (∃ y, v.result s = .ok (.reply r) y) ∨
    ∃ message, Broker.failure? (v.result s) = some message ∧ r = v.job.failureReply message

/-- What becomes of a job that is no error, and of its reply if it gives one. -/
inductive Settled (d : Docket) : Option Packet → Prop
  | waiting {t : TaskRecord} {y : Desk σ} (hwork : v.result s = .ok (.pending t) y)
      (hstate : t.state ∉ [.successful, .failed, .errored]) (hjob : d.job? v.id = some y.job) :
      Settled d none
  | overdue {detail : String} {y : Desk σ} (hwork : v.result s = .error (.timeout detail) y)
      (hactive : y.job.active?.isSome = true) (hjob : d.job? v.id = some y.job) : Settled d none
  | replied {r : Packet} {failure : Prop} {t : Transaction} {timer : Timer} (hgives : v.Gives s r)
      (hreply : r.IsReplyTo v.job.packet failure) (hget : d.get? v.id = some t)
      (hheld : t.held = some ⟨.outgoing r false, timer⟩) : Settled d (some r)

/-- The work on the job is an error, and it is held as the work left it. -/
def Stopped (d : Docket) (e : BrokerError) : Prop :=
  ∃ y, Office.attend (Registry.catalog s) ⟨v.job, v.world⟩ = (.error e, y) ∧
    d.job? v.id = some y.job

/-- From one world to another nothing is called but by the work on some jobs, in turn. -/
def Follow (w w' : World σ) : List (Visit σ) → Prop
  | [] => w'.calls = w.calls
  | v :: visits => v.world.calls = w.calls ∧ Follow (left (v.result s)).world w' visits

variable {s v}

theorem Follow.of_calls_eq {w w₁ w' : World σ} {visits : List (Visit σ)}
    (h : Follow s w₁ w' visits) (hcalls : w₁.calls = w.calls) : Follow s w w' visits := by
  cases visits with
  | nil => exact Eq.trans h hcalls
  | cons v visits => exact ⟨h.1.trans hcalls, h.2⟩

theorem Settled.of_get?_eq {d d' : Docket} {answer : Option Packet} (h : v.Settled s d answer)
    (hget : d'.get? v.id = d.get? v.id) : v.Settled s d' answer := by
  have hjobs : d'.job? v.id = d.job? v.id := by rw [Docket.job?, hget, Docket.job?]
  cases h with
  | waiting hwork hstate hjob => exact .waiting hwork hstate (hjobs.trans hjob)
  | overdue hwork hactive hjob => exact .overdue hwork hactive (hjobs.trans hjob)
  | replied hgives hreply hold hheld => exact .replied hgives hreply (hget.trans hold) hheld

end Visit

namespace Office

variable {σ : Type} {s : Services σ}

theorem attend_snd (registry : Registry σ) (x : Desk σ) :
    (attend registry x).2 = left (registry.work x.job.packet.type x) := by
  unfold attend
  rcases registry.work x.job.packet.type x with ⟨⟨_⟩ | ⟨_⟩, y⟩ | ⟨e, y⟩ <;> rfl

/-- There is no answer to a job yet that waits for a task, or whose work ran out of time while a
task is active. -/
theorem attend_eq_none {registry : Registry σ} {x y : Desk σ}
    (h : attend registry x = (.ok none, y)) :
    (∃ t, registry.work x.job.packet.type x = .ok (.pending t) y ∧
      t.state ∉ [.successful, .failed, .errored]) ∨
    ∃ detail, registry.work x.job.packet.type x = .error (.timeout detail) y ∧
      y.job.active?.isSome = true := by
  unfold attend at h
  cases hw : registry.work x.job.packet.type x with
  | ok outcome z =>
    rw [hw] at h
    cases outcome with
    | reply p => cases h
    | pending t =>
      obtain ⟨ha, rfl⟩ := Prod.mk.inj h
      refine .inl ⟨t, rfl, fun hm => ?_⟩
      revert ha
      simp only [List.mem_cons, List.not_mem_nil, or_false] at hm
      rcases hm with hm | hm | hm <;> simp [ofPending, hm]
  | error e z =>
    rw [hw] at h
    obtain ⟨ha, rfl⟩ := Prod.mk.inj h
    unfold ofError at ha
    split at ha
    · next detail =>
      split at ha
      · next hactive => exact .inr ⟨detail, rfl, hactive⟩
      · cases ha
    · cases ha
    · cases ha
    · cases ha

theorem gives_of_attend {v : Visit σ} {r : Packet} {y : Desk σ}
    (h : attend (Registry.catalog s) ⟨v.job, v.world⟩ = (.ok (some r), y)) : v.Gives s r := by
  have hpacket : y.job.packet = v.job.packet := by
    have hp := (leads_attend s ⟨v.job, v.world⟩).1
    rwa [h] at hp
  rcases Broker.attend_eq_reply h with ⟨hnone, rfl⟩ | ⟨work, hwork, hgives⟩
  · have hrefuse : v.result s = Registry.refuse ⟨v.job, v.world⟩ := by
      rw [Visit.result, Registry.work, hnone, Option.getD_none]
    exact .inl ⟨_, hrefuse⟩
  · have hresult : v.result s = work ⟨v.job, v.world⟩ := by
      rw [Visit.result, Registry.work, hwork, Option.getD_some]
    rcases hgives with ⟨message, hm, rfl⟩ | hreply
    · refine .inr ⟨message, by rw [hresult, hm], ?_⟩
      rw [Job.failureReply, hpacket, Job.failureReply]
    · exact .inl ⟨y, hresult.trans hreply⟩

/-- The reply of a job that is served is a reply to its packet. -/
theorem isReplyTo_of_attend {o : Office σ} {id : TransactionId} {job : Job}
    (hj : o.docket.job? id = some job) {r : Packet} {y : Desk σ}
    (h : attend (Registry.catalog s) ⟨job, o.world⟩ = (.ok (some r), y)) :
    ∃ failure, r.IsReplyTo job.packet failure := by
  let setup : Setup σ := ⟨"", s, Registry.catalog s, o.docket.waits⟩
  let b : Broker σ := { office := o }
  have hjob : b.docket.job? id = some job := hj
  have hwork : Office.attend setup.registry ⟨job, b.office.world⟩ = (.ok (some r), y) := h
  obtain ⟨verdict, hanswers⟩ := Broker.answers_of_attend rfl hjob hwork
  exact ⟨_, Broker.isReplyTo_of_answers setup rfl hanswers⟩

theorem serveAll_cons_of_attend {registry : Registry σ} {o : Office σ} {id : TransactionId}
    {job : Job} (hj : o.docket.job? id = some job)
    {answer : Except BrokerError (Option Packet)} {desk : Desk σ}
    (ha : attend registry ⟨job, o.world⟩ = (answer, desk)) (replies : List Packet)
    (rest : List TransactionId) :
    o.serveAll s registry replies (id :: rest) = match answer with
      | .error e => .error e (left (o.serveAll s registry [] [id]))
      | .ok reply =>
        (left (o.serveAll s registry [] [id])).serveAll s registry (replies ++ reply.toList)
          rest := by
  simp only [serveAll, hj, ha]
  rcases answer with e | _ | r
  · rfl
  · simp
  · rfl

theorem sound_served {o : Office σ} (hs : o.docket.Sound) (id : TransactionId) :
    (left (o.serveAll s (Registry.catalog s) [] [id])).docket.Sound :=
  (leads_serve_one s id hs).leads.sound hs

/-- What serving one job makes of an office: an error that ends the round, or a job that is
settled. No other transaction is touched. -/
theorem serve_visit {o : Office σ} (hs : o.docket.Sound) {job : Job}
    (hj : o.docket.job? job.transactionId = some job) :
    ∃ o₁ : Office σ, o₁.docket.Sound ∧
      o₁.world.calls = (left (Visit.result s ⟨job, o.world⟩)).world.calls ∧
      (∀ i, i ≠ job.transactionId → o₁.docket.get? i = o.docket.get? i) ∧
      ((∃ e, Visit.Stopped s ⟨job, o.world⟩ o₁.docket e ∧ ∀ replies rest,
          o.serveAll s (Registry.catalog s) replies (job.transactionId :: rest) = .error e o₁) ∨
        ∃ answer, Visit.Settled s ⟨job, o.world⟩ o₁.docket answer ∧ ∀ replies rest,
          o.serveAll s (Registry.catalog s) replies (job.transactionId :: rest) =
            o₁.serveAll s (Registry.catalog s) (replies ++ answer.toList) rest) := by
  rcases o.serve_one_outcomes s (Registry.catalog s) job.transactionId with
    ⟨hnone, -⟩ | ⟨job', answer, desk, hj', ha, hcalls, hdocket⟩
  · cases hnone.symm.trans hj
  obtain rfl : job' = job := Option.some.inj (hj'.symm.trans hj)
  have hdesk : desk = left (Visit.result s ⟨job', o.world⟩) := by
    have h := attend_snd (Registry.catalog s) ⟨job', o.world⟩
    rwa [ha] at h
  have hworked : (o.docket.mapJob job'.transactionId fun _ => desk.job).job? job'.transactionId =
      some desk.job := by
    rw [Docket.job?_mapJob, hj, Option.map_some]
  have hcons := serveAll_cons_of_attend (s := s) hj ha
  refine ⟨_, sound_served hs job'.transactionId, hdesk ▸ hcalls, ?_⟩
  rcases hdocket with ⟨hnoreply, hd⟩ | ⟨r, w, rfl, hd⟩ <;> rw [hd]
  · refine ⟨fun i hi => by rw [Docket.get?_mapJob, if_neg hi.symm], ?_⟩
    rcases answer with e | _ | r
    · exact .inl ⟨e, ⟨desk, ha, hworked⟩, hcons⟩
    · refine .inr ⟨none, ?_, hcons⟩
      rcases attend_eq_none ha with ⟨t, hwork, hstate⟩ | ⟨detail, hwork, hactive⟩
      · exact .waiting hwork hstate hworked
      · exact .overdue hwork hactive hworked
    · exact absurd rfl (hnoreply r)
  · obtain ⟨failure, hreply⟩ := isReplyTo_of_attend hj ha
    have hid : r.transactionId = job'.transactionId := hreply.transactionId
    refine ⟨fun i hi => ?_, .inr ⟨some r, ?_, hcons⟩⟩
    · rw [Docket.get?_holdReply, hid, if_neg hi.symm, Docket.get?_mapJob, if_neg hi.symm]
    · obtain ⟨t, ht, hjob⟩ := Docket.get?_of_job? hworked
      refine .replied (gives_of_attend ha) hreply ?_
        (Transaction.held_holdReply_of_job hjob (s.clock.read w).1 r)
      show Docket.get? _ job'.transactionId = _
      rw [Docket.get?_holdReply, hid, if_pos rfl, Docket.transaction_of_get? ht]

variable (s) in
/-- Some jobs were served in turn and all of them settled, and no other transaction was touched. -/
def Settles (o o' : Office σ) (jobs : List Job) (replies : List Packet) : Prop :=
  ∃ (visits : List (Visit σ)) (answers : List (Option Packet)),
    visits.map (·.job) = jobs ∧ Visit.Follow s o.world o'.world visits ∧
      List.Forall₂ (fun v answer => v.Settled s o'.docket answer) visits answers ∧
      replies = answers.reduceOption ∧
      ∀ id, id ∉ jobs.map (·.transactionId) → o'.docket.get? id = o.docket.get? id

variable (s) in
/-- Some jobs were served in turn up to one whose work is an error. Those before it are settled, and
neither those after it nor any other transaction was touched. -/
def Stops (o o' : Office σ) (jobs : List Job) (e : BrokerError) : Prop :=
  ∃ (visits : List (Visit σ)) (answers : List (Option Packet)) (last : Visit σ) (later : List Job),
    jobs = visits.map (·.job) ++ last.job :: later ∧
      Visit.Follow s o.world o'.world (visits ++ [last]) ∧
      List.Forall₂ (fun v answer => v.Settled s o'.docket answer) visits answers ∧
      last.Stopped s o'.docket e ∧
      (∀ job ∈ later, o'.docket.get? job.transactionId = o.docket.get? job.transactionId) ∧
      ∀ id, id ∉ jobs.map (·.transactionId) → o'.docket.get? id = o.docket.get? id

section

variable {o o₁ o' : Office σ} {job : Job} {jobs : List Job} {answer : Option Packet}
  (hcalls : o₁.world.calls = (left (Visit.result s ⟨job, o.world⟩)).world.calls)
  (hkept : ∀ i, i ≠ job.transactionId → o₁.docket.get? i = o.docket.get? i)
  (hnd : ((job :: jobs).map (·.transactionId)).Nodup)

include hcalls hkept hnd

theorem Settles.cons (hsettled : Visit.Settled s ⟨job, o.world⟩ o₁.docket answer)
    {replies : List Packet} (h : Settles s o₁ o' jobs replies) :
    Settles s o o' (job :: jobs) (answer.toList ++ replies) := by
  obtain ⟨visits, answers, rfl, hfollow, hall, rfl, hrest⟩ := h
  obtain ⟨hnew, -⟩ := List.nodup_cons.mp hnd
  refine ⟨⟨job, o.world⟩ :: visits, answer :: answers, rfl, ⟨rfl, hfollow.of_calls_eq hcalls⟩,
    .cons (hsettled.of_get?_eq (hrest _ hnew)) hall, ?_, fun id hid => ?_⟩
  · cases answer <;> rfl
  · obtain ⟨hne, hid⟩ := List.ne_and_not_mem_of_not_mem_cons hid
    exact (hrest id hid).trans (hkept id hne)

theorem Stops.cons (hsettled : Visit.Settled s ⟨job, o.world⟩ o₁.docket answer)
    {e : BrokerError} (h : Stops s o₁ o' jobs e) : Stops s o o' (job :: jobs) e := by
  obtain ⟨visits, answers, last, later, rfl, hfollow, hall, hlast, hlater, hrest⟩ := h
  obtain ⟨hnew, -⟩ := List.nodup_cons.mp hnd
  refine ⟨⟨job, o.world⟩ :: visits, answer :: answers, last, later, rfl,
    ⟨rfl, hfollow.of_calls_eq hcalls⟩, .cons (hsettled.of_get?_eq (hrest _ hnew)) hall, hlast,
    fun other hother => ?_, fun id hid => ?_⟩
  · have hne : other.transactionId ≠ job.transactionId := by
      rintro he
      exact hnew (List.mem_map.mpr ⟨other, by simp [hother], he⟩)
    exact (hlater other hother).trans (hkept _ hne)
  · obtain ⟨hne, hid⟩ := List.ne_and_not_mem_of_not_mem_cons hid
    exact (hrest id hid).trans (hkept id hne)

theorem Stops.first {e : BrokerError} (hstopped : Visit.Stopped s ⟨job, o.world⟩ o₁.docket e) :
    Stops s o o₁ (job :: jobs) e := by
  obtain ⟨hnew, -⟩ := List.nodup_cons.mp hnd
  refine ⟨[], [], ⟨job, o.world⟩, jobs, rfl, ⟨rfl, hcalls⟩, .nil, hstopped,
    fun other hother => hkept _ ?_, fun id hid => hkept id ?_⟩
  · rintro he
    exact hnew (List.mem_map.mpr ⟨other, hother, he⟩)
  · exact (List.ne_and_not_mem_of_not_mem_cons hid).1

end

theorem serveAll_settles {o : Office σ} (hs : o.docket.Sound) {jobs : List Job}
    (hjobs : ∀ job ∈ jobs, o.docket.job? job.transactionId = some job)
    (hnd : (jobs.map (·.transactionId)).Nodup) (replies : List Packet) :
    (∃ o' news, o.serveAll s (Registry.catalog s) replies (jobs.map (·.transactionId)) =
        .ok (replies ++ news) o' ∧ Settles s o o' jobs news) ∨
      ∃ e o', o.serveAll s (Registry.catalog s) replies (jobs.map (·.transactionId)) =
        .error e o' ∧ Stops s o o' jobs e := by
  induction jobs generalizing o replies with
  | nil =>
    refine .inl ⟨o, [], ?_, [], [], rfl, rfl, .nil, rfl, fun _ _ => rfl⟩
    simp [serveAll]
  | cons job jobs ih =>
    obtain ⟨o₁, hs₁, hcalls, hkept, hvisit⟩ := serve_visit (s := s) hs (hjobs job (by simp))
    obtain ⟨hnew, hrest⟩ := List.nodup_cons.mp hnd
    have hjobs₁ : ∀ other ∈ jobs, o₁.docket.job? other.transactionId = some other := by
      intro other hother
      have hne : other.transactionId ≠ job.transactionId := by
        rintro he
        exact hnew (List.mem_map.mpr ⟨other, hother, he⟩)
      rw [Docket.job?, hkept _ hne]
      exact hjobs other (List.mem_cons_of_mem job hother)
    rw [List.map_cons]
    rcases hvisit with ⟨e, hstopped, hstop⟩ | ⟨answer, hsettled, hgo⟩
    · exact .inr ⟨e, o₁, hstop replies _, .first hcalls hkept hnd hstopped⟩
    · rw [hgo]
      rcases ih hs₁ hjobs₁ hrest (replies ++ answer.toList) with
        ⟨o', news, hserve, hsettles⟩ | ⟨e, o', hserve, hstops⟩
      · refine .inl ⟨o', answer.toList ++ news, ?_, hsettles.cons hcalls hkept hnd hsettled⟩
        rw [hserve, List.append_assoc]
      · exact .inr ⟨e, o', hserve, hstops.cons hcalls hkept hnd hsettled⟩

/-- A round of work on a docket, whatever led to it. -/
theorem serve_settles (s : Services σ) (waits : WaitTimes) (moves : List Docket.Move)
    (book : SnapshotBook) (world : World σ) :
    let o : Office σ := ⟨Docket.run waits moves, book, world⟩
    let jobs := o.docket.jobsInOrder
    (∀ id job, o.docket.job? id = some job ↔ job ∈ jobs ∧ job.transactionId = id) ∧
      (jobs.map (·.transactionId)).Nodup ∧ jobs.Pairwise Job.Earlier ∧
      match o.serve s (Registry.catalog s) with
      | .ok replies o' => Settles s o o' jobs replies
      | .error e o' => Stops s o o' jobs e := by
  intro o jobs
  have hs : o.docket.Sound := Docket.sound_run waits moves
  have hjobs : ∀ job ∈ jobs, o.docket.job? job.transactionId = some job := by
    intro job hjob
    obtain ⟨id, hid⟩ := Docket.mem_jobsInOrder.mp hjob
    rwa [hs.transactionId_of_job? hid]
  refine ⟨fun id job => ⟨fun hid => ?_, ?_⟩, hs.nodup_jobsInOrder, hs.pairwise_jobsInOrder, ?_⟩
  · exact ⟨Docket.mem_jobsInOrder.mpr ⟨id, hid⟩, hs.transactionId_of_job? hid⟩
  · rintro ⟨hjob, rfl⟩
    exact hjobs job hjob
  · rw [serve]
    rcases serveAll_settles (s := s) hs hjobs hs.nodup_jobsInOrder [] with
      ⟨o', news, hserve, hsettles⟩ | ⟨e, o', hserve, hstops⟩
    · rw [hserve]
      exact hsettles
    · rw [hserve]
      exact hstops

end Office

end SiteBroker
