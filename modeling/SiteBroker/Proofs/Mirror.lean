import SiteBroker.Proofs.Attending
import SiteBroker.Proofs.Gaining
import SiteBroker.Proofs.Rebuilding
import SiteBroker.Proofs.Reflection

/-! Snapshots for outside viewers, over any life of an office: the transactions change, jobs are
served, and transactions are forgotten. Right after a job was served its snapshot tells what its
record tells, if no other job has been served under its name since that was last forgotten. -/

namespace SiteBroker

open Program SnapshotBook

/-- The job of a transaction is there before and after, and its work as far as before. -/
def Docket.Retains (d d' : Docket) (id : TransactionId) : Prop :=
  ∃ job job', d.job? id = some job ∧ d'.job? id = some job' ∧ job'.packet = job.packet ∧
    job'.progress = job.progress

namespace Office

variable {σ : Type} (s : Services σ)

/-- The transaction keeps its job in an act. Only serving it takes its work further, and that does
not end in a reply. -/
def Retains (id : TransactionId) (o : Office σ) : Act σ → Prop
  | .attend i => if i = id
    then ∀ job, o.docket.job? id = some job →
      ∀ r, (attend (Registry.catalog s) ⟨job, o.world⟩).1 ≠ .ok (some r)
    else o.docket.Retains (o.act s (.attend i)).docket id
  | a => o.docket.Retains (o.act s a).docket id

/-- What is written for the job is stored, and nothing is written for another job of that name. -/
def Devotes (id : TransactionId) (name : String) (o : Office σ) : Act σ → Prop
  | .attend i => ∀ job reply desk, o.docket.job? i = some job →
      attend (Registry.catalog s) ⟨job, o.world⟩ = (.ok reply, desk) →
      if i = id then o.book.Takes desk.job reply.isSome else desk.job.name ≠ name
  | _ => True

variable {s}

section

variable {o : Office σ} {id : TransactionId} {job : Job} {a : Act σ}

/-- The snapshot under the name of the job reflects it, as far as its work is. -/
def Mirrors (o : Office σ) (id : TransactionId) (job : Job) : Prop :=
  ∃ j, o.docket.job? id = some j ∧ j.packet = job.packet ∧ job.Admits j.progress ∧
    o.book.Reflects job.name job.fields j.progress

theorem gains_of_attend {j : Job} (hp : j.packet = job.packet) (hadmits : job.Admits j.progress)
    {w : World σ} {answer : Except BrokerError (Option Packet)} {desk : Desk σ}
    (ha : attend (Registry.catalog s) ⟨j, w⟩ = (answer, desk)) :
    desk.job.packet = job.packet ∧ j.progress.Keeps desk.job.progress ∧
      ((∀ r, answer ≠ .ok (some r)) →
        job.Admits desk.job.progress ∧ j.progress.Builds desk.job.progress) := by
  have hpacket := (leads_attend s ⟨j, w⟩).1
  rw [ha] at hpacket
  refine ⟨hpacket.trans hp, ?_⟩
  have hgains := gains_attend ha (Job.Admits.congr hp.symm hadmits)
  exact ⟨hgains.1, fun hn => ⟨(hgains.2 hn).1.congr hp, (hgains.2 hn).2⟩⟩

/-- Serving the job ends with its snapshot in step, if the snapshot can be written. -/
theorem Mirrors.write (h : o.Mirrors id job) {j : Job}
    (hj : o.docket.job? id = some j) {reply : Option Packet} {desk : Desk σ}
    (ha : attend (Registry.catalog s) ⟨j, o.world⟩ = (.ok reply, desk))
    (ht : o.book.Takes desk.job reply.isSome) :
    ∃ stored, (o.book.write desk.job reply.isSome).1.folder.read desk.job.name =
        .ok (some stored) ∧
      (∀ name, Progress.Apart job.fields name →
        Json.Alike stored[name]? desk.job.record[name]?) ∧
      (reply = none → (o.act s (.attend id)).Mirrors id job) := by
  obtain ⟨j', hj', hp, hadmits, hreflects⟩ := h
  obtain rfl : j = j' := Option.some.inj (hj.symm.trans hj')
  obtain ⟨hpacket, hkeeps, hbuilds⟩ := gains_of_attend hp hadmits ha
  rw [← Job.name_congr hpacket, ← Job.fields_congr hpacket] at hreflects
  have hb : reply.isSome = false → j.progress.Builds desk.job.progress := fun hr =>
    (hbuilds fun r he => by cases he; cases hr).2
  obtain ⟨stored, hstored, hs, hnext⟩ := hreflects.write ht hkeeps hb
  refine ⟨stored, hstored, fun name => Job.fields_congr hpacket ▸ hs name, fun hr => ?_⟩
  subst hr
  have hn : ∀ r, (.ok none : Except BrokerError (Option Packet)) ≠ .ok (some r) := by simp
  obtain ⟨hbook, hdocket⟩ := act_attend hj ha
  refine ⟨desk.job, hdocket hn, hpacket, (hbuilds hn).1, ?_⟩
  rw [hbook, ← Job.name_congr hpacket, ← Job.fields_congr hpacket]
  exact hnext (hb rfl)

theorem Mirrors.act (h : o.Mirrors id job) (hr : o.Retains s id a)
    (hd : o.Devotes s id job.name a) (hs : o.Isolates s job.name a) :
    (o.act s a).Mirrors id job := by
  obtain ⟨j, hj, hp, hadmits, hreflects⟩ := h
  -- Where the job is only kept, it is enough that the snapshot still reflects the same progress.
  have hkept : o.docket.Retains (o.act s a).docket id →
      (o.act s a).book.Reflects job.name job.fields j.progress → (o.act s a).Mirrors id job := by
    rintro ⟨j', j'', hj', hj'', hp', hg'⟩ hbook
    obtain rfl : j = j' := Option.some.inj (hj.symm.trans hj')
    exact ⟨j'', hj'', hp'.trans hp, hg' ▸ hadmits, hg' ▸ hbook⟩
  cases a with
  | change d => exact hkept hr hreflects
  | forget i => exact hkept hr (hreflects.purge i)
  | elapse w => exact hkept hr hreflects
  | attend i =>
    by_cases hi : i = id
    · subst hi
      simp only [Office.Retains, if_true] at hr
      rcases ha : attend (Registry.catalog s) ⟨j, o.world⟩ with ⟨answer, desk⟩
      have hn : ∀ r, answer ≠ .ok (some r) := by simpa [ha] using hr j hj
      rcases answer with e | _ | r
      · obtain ⟨hpacket, -, hbuilds⟩ := gains_of_attend hp hadmits ha
        obtain ⟨hbook, hdocket⟩ := act_attend hj ha
        refine ⟨desk.job, hdocket hn, hpacket, (hbuilds hn).1, ?_⟩
        rw [hbook]
        exact hreflects.builds (hbuilds hn).2
      · have hmirrors : o.Mirrors i job := ⟨j, hj, hp, hadmits, hreflects⟩
        have ht := hd j none desk hj ha
        rw [if_pos rfl] at ht
        obtain ⟨-, -, -, hnext⟩ := hmirrors.write hj ha ht
        exact hnext rfl
      · exact absurd rfl (hn r)
    · simp only [Office.Retains, hi, if_false] at hr
      refine hkept hr ?_
      cases hji : o.docket.job? i with
      | none => rwa [act_attend_none hji]
      | some ji =>
        rcases ha : attend (Registry.catalog s) ⟨ji, o.world⟩ with ⟨answer, desk⟩
        rw [(act_attend hji ha).1]
        cases answer with
        | error e => exact hreflects
        | ok reply =>
          have hname := hd ji reply desk hji ha
          rw [if_neg hi] at hname
          have hshares := mt (hs ji reply desk hji ha) hname
          exact hreflects.write_of_ne hname hshares reply.isSome

theorem Mirrors.actAll {acts : List (Act σ)} (h : o.Mirrors id job)
    (hr : Throughout s (Retains s id) o acts) (hd : Throughout s (Devotes s id job.name) o acts)
    (hs : Throughout s (Isolates s job.name) o acts) : (o.actAll s acts).Mirrors id job := by
  induction acts generalizing o with
  | nil => exact h
  | cons a acts ih => exact ih (h.act hr.1 hd.1 hs.1) hr.2 hd.2 hs.2

end

/-- The job of a transaction was taken on with no work done, when nothing was known under its name.
It has been there since, and no other job was served under the name. -/
structure Alone (s : Services σ) (o : Office σ) (acts : List (Act σ)) (id : TransactionId)
    (job : Job) : Prop where
  taken : o.docket.job? id = some job
  fresh : job.progress = {}
  unknown : o.book.initial[job.name]? = none
  kept : Throughout s (Retains s id) o acts
  devoted : Throughout s (Devotes s id job.name) o acts

theorem Alone.mirrors {s : Services σ} {o : Office σ} {acts : List (Act σ)} {id : TransactionId}
    {job : Job} (h : Alone s o acts id job) (hc : o.book.Complete) (hsole : o.book.Sole job.name)
    (hin : o.book.folder.Inside job.name) (hs : Throughout s (Isolates s job.name) o acts) :
    (o.actAll s acts).Mirrors id job := by
  have hstart : o.Mirrors id job :=
    ⟨job, h.taken, rfl, h.fresh ▸ job.admits_start, hc, hsole, hin, .inl h.unknown⟩
  exact hstart.actAll h.kept h.devoted hs

/-- A round of work serves jobs one after the other. When the snapshot of a job has been written in
full, it tells all that the record tells. If the job was alone under its name, it tells the record
and nothing else, after every write, as long as it is a file of the folder itself and not that of
another name; but it may lag behind where the packet itself names one of the two things that may
change. -/
theorem read_of_attended (s : Services σ) {folder : SnapshotFolder} {start : Office σ}
    (hstart : start.book = .opened folder) {acts : List (Act σ)} {o : Office σ}
    (ho : start.actAll s acts = o) {id : TransactionId} {job' : Job}
    (hjob' : o.docket.job? id = some job') {reply : Option Packet} {desk : Desk σ}
    (hattend : attend (Registry.catalog s) ⟨job', o.world⟩ = (.ok reply, desk))
    (htakes : o.book.Takes desk.job reply.isSome) :
    (∀ x : Office σ, Attends s x (left (x.serve s (Registry.catalog s)))) ∧
    (reply.isSome = true →
      (∀ r, o.book.folder.read desk.job.name = .ok (some r) → r.isLegible = true) →
      ∃ stored, (o.act s (.attend id)).book.folder.read desk.job.name = .ok (some stored) ∧
        ∀ (name : String) a, desk.job.record[name]? = some a →
          Json.Alike stored[name]? (some a)) ∧
    ∀ before since job, acts = before ++ since →
      Alone s (start.actAll s before) since id job →
      o.book.folder.Inside job.name → Throughout s (Isolates s job.name) start acts →
      ∃ stored, (o.act s (.attend id)).book.folder.read desk.job.name = .ok (some stored) ∧
        (∀ name, Progress.Apart job.fields name →
          Json.Alike stored[name]? desk.job.record[name]?) ∧
        ((∀ n ∈ Progress.loose, job.fields[n]? = none) →
          stored.same desk.job.record = true) := by
  rw [(act_attend hjob' hattend).1]
  refine ⟨attends_serve s, fun hfull hold => ?_, ?_⟩
  · obtain ⟨existing, stored, -, hstored, hsame, -⟩ := htakes.read_write hold
    refine ⟨stored, hstored, fun name a ha => ?_⟩
    have halike := Fields.same_iff.mp hsame name
    rwa [Fields.getElem?_overlay, hfull, recordToWrite_full, ha, Option.some_or] at halike
  · rintro before since job rfl halone hin hs
    obtain ⟨hbefore, hsince⟩ := throughout_append hs
    have hopened : start.book.Complete := hstart ▸ complete_opened folder
    have hsole : start.book.Sole job.name := hstart ▸ sole_opened folder job.name
    have hfolders := sameFolders_actAll (s := s) (start.actAll s before) since
    rw [← actAll_append, ho] at hfolders
    have hmirrors := halone.mirrors (complete_actAll hopened before) (sole_actAll hsole hbefore)
      (hfolders.inside_iff.mp hin) hsince
    rw [← actAll_append, ho] at hmirrors
    obtain ⟨stored, hstored, halike, -⟩ := hmirrors.write hjob' hattend htakes
    exact ⟨stored, hstored, halike,
      fun hbody => Fields.same_iff.mpr fun name => halike name (hbody name)⟩

open Workflow SnapshotFolder

/-- Services that know of everyone, and take their time over each task. -/
def dawdling : Services Unit :=
  { obliging with
    environment := {
      clock := obliging.environment.clock
      answer := fun
        | .submit request, u =>
          (.ok ⟨request.keys, request.taskName, .queued, request.timestamp, []⟩, u)
        | call, u => obliging.environment.answer call u } }

/-- A job to restore an account. Its packet may tell of the person what progress does. -/
def returningJob (tells : Bool) : Job where
  packet := {
    type := .requestAccountReactivate
    header := ⟨some 102, 6, 43, "ORIG", "REMOTE", "LOCAL", none, none, none⟩
    body := Fields.ofList ((if tells then [("person_active", .bool true)] else []) ++
      [("PersonID", .str "u-1"), ("ProjectID", .str "p-1"),
        ("ResourceList", .arr [.str "cluster"])]) }
  recordId := 102
  timestamp := .epoch
  tasks := ∅
  progress := {}
  recordId_eq := rfl

def returningId : TransactionId := (returningJob false).transactionId

/-- The task to activate the person. -/
def activation (state : TaskState) (millis : Int) (products : List Product) : TaskRecord :=
  ⟨(returningJob false).taskKeys, "activate_person", state, .ofMillis millis, products⟩

/-- The job when that task was submitted. -/
def waitingJob (tells : Bool) : Job :=
  { (returningJob tells).putTask (activation .queued 0 []) with
    progress := { personId := some "u-1", projectId := some "p-1" } }

/-- The job when someone has begun to work on the task. -/
def startedJob : Job := (waitingJob false).putTask (activation .inProgress 1000 [])

theorem attend_returningJob (tells : Bool) (log : List Event) :
    ∃ log', attend (Registry.catalog dawdling) ⟨returningJob tells, { outside := (), log }⟩ =
      (.ok none, ⟨waitingJob tells, { outside := (), log := log' }⟩) := by
  cases tells <;> exact ⟨_, by with_unfolding_all rfl⟩

theorem attend_startedJob (log : List Event) :
    ∃ log', attend (Registry.catalog dawdling) ⟨startedJob, { outside := (), log }⟩ =
      (.ok none, ⟨startedJob, { outside := (), log := log' }⟩) :=
  ⟨_, by with_unfolding_all rfl⟩

theorem legible_returningJob (tells : Bool) : (returningJob tells).Legible where
  body := by cases tells <;> decide +kernel
  units := by simp [returningJob]
  products := by
    have hnone : (returningJob tells).tasks.toList = [] := rfl
    simp [hnone]

theorem legible_waitingJob (tells : Bool) : (waitingJob tells).Legible :=
  ((legible_returningJob tells).putTask (t := activation .queued 0 [])
    (by simp [activation])).withProgress (by simp)

theorem packet_waitingJob (tells : Bool) :
    (waitingJob tells).packet = (returningJob tells).packet := by
  rw [waitingJob, Job.packet_putTask]

/-- An office without jobs. -/
def vacant : Office Unit :=
  ⟨{ waits := ⟨10000, 60000, 3600000⟩ }, .opened {}, { outside := () }⟩

/-- The packet of the job comes in. -/
def arrival (tells : Bool) : Act Unit :=
  .change (vacant.docket.perform (.receive .epoch (returningJob tells).packet))

/-- The office when the job was served for the first time. -/
def paused (tells : Bool) : Office Unit :=
  (vacant.act dawdling (arrival tells)).act dawdling (.attend returningId)

/-- Something is told of a task of the job. -/
def telling (o : Office Unit) (t : TaskRecord) : Act Unit :=
  .change (o.docket.perform (.record returningId t))

theorem act_telling {o : Office Unit} {job : Job} (h : o.docket.job? returningId = some job)
    (t : TaskRecord) :
    (o.act dawdling (telling o t)).docket.job? returningId = some (job.putTask t) ∧
    (o.act dawdling (telling o t)).world = o.world ∧
    (o.act dawdling (telling o t)).book = o.book :=
  ⟨(Docket.job?_mapJob _ _).trans (congrArg _ h), rfl, rfl⟩

theorem ordinary_returningJob (tells : Bool) : Ordinary (fileName (waitingJob tells).name) := by
  rw [Job.name_congr (packet_waitingJob tells)]
  cases tells <;> exact ⟨by decide +kernel, by decide +kernel, by decide +kernel, by decide +kernel⟩

/-- The first time the job is served it has to wait, and its snapshot is written. -/
theorem paused_outcome (tells : Bool) : ∃ w log,
    (vacant.act dawdling (arrival tells)).docket.job? returningId = some (returningJob tells) ∧
    attend (Registry.catalog dawdling)
      ⟨returningJob tells, (vacant.act dawdling (arrival tells)).world⟩ =
        (.ok none, ⟨waitingJob tells, w⟩) ∧
    (vacant.act dawdling (arrival tells)).book.Takes (waitingJob tells) false ∧
    (paused tells).docket.job? returningId = some (waitingJob tells) ∧
    (paused tells).world = { outside := (), log } ∧
    (paused tells).book.Holds (waitingJob tells).name (waitingJob tells).record
      (waitingJob tells).record := by
  have hn : Ordinary (fileName (waitingJob tells).name) := ordinary_returningJob tells
  have hj : (vacant.act dawdling (arrival tells)).docket.job? returningId =
      some (returningJob tells) := by
    cases tells <;> rfl
  obtain ⟨log, ha⟩ := attend_returningJob tells []
  obtain ⟨hbook, hpaused, log', hworld⟩ := act_attend_waiting (s := dawdling) hj ha
  have hc : vacant.book.Complete := complete_opened {}
  obtain ⟨ht, hholds⟩ := hc.holds_first (sole_opened {} _) rfl hn Std.ExtTreeMap.getElem?_empty
    (legible_waitingJob tells).record false
  exact ⟨_, log', hj, ha, ht, hpaused, hworld, hbook ▸ hholds⟩

/-- Someone begins to work on the task. -/
def taskStart : Act Unit := telling (paused false) (activation .inProgress 1000 [])

theorem read_of_startedJob :
    Alone dawdling (vacant.act dawdling (arrival false)) [.attend returningId, taskStart]
      returningId (returningJob false) ∧
    ((paused false).act dawdling taskStart).book.folder.Inside (returningJob false).name ∧
    Throughout dawdling (Isolates dawdling (returningJob false).name) vacant
      [arrival false, .attend returningId, taskStart] ∧
    ∃ w, ∃ stored : Fields,
      attend (Registry.catalog dawdling)
        ⟨startedJob, ((paused false).act dawdling taskStart).world⟩ =
          (.ok none, ⟨startedJob, w⟩) ∧
      (((paused false).act dawdling taskStart).act dawdling (.attend returningId)).book.folder.read
        startedJob.name = .ok (some stored) ∧
      stored.same startedJob.record = true := by
  obtain ⟨w, log, hj, ha, ht, hpaused, hworld, hholds⟩ := paused_outcome false
  obtain ⟨hstarted, htaskStart, hbook⟩ := act_telling hpaused (activation .inProgress 1000 [])
  have hl : startedJob.Legible := (legible_waitingJob false).putTask (by simp [activation])
  have hpacket : startedJob.packet = (waitingJob false).packet := Job.packet_putTask _ _
  have hprogress : startedJob.progress = (waitingJob false).progress := Job.progress_putTask _ _
  obtain ⟨log', hlast⟩ := attend_startedJob log
  rw [← hworld, ← htaskStart] at hlast
  have hname : startedJob.name = (waitingJob false).name := Job.name_congr hpacket
  rw [← hbook, ← hname] at hholds
  obtain ⟨ht', -⟩ := hholds.write hl.record false
  have halone : Alone dawdling (vacant.act dawdling (arrival false))
      [.attend returningId, taskStart] returningId (returningJob false) := {
    taken := hj
    fresh := rfl
    unknown := Std.ExtTreeMap.getElem?_empty
    kept := by
      refine ⟨?_, ⟨_, _, hpaused, hstarted, hpacket, hprogress⟩, trivial⟩
      simp only [Retains, if_true]
      intro job hjob r
      obtain rfl := Option.some.inj (hj.symm.trans hjob)
      simp [ha]
    devoted := by
      refine ⟨?_, trivial, trivial⟩
      intro job reply desk hjob hattend
      obtain rfl := Option.some.inj (hj.symm.trans hjob)
      obtain ⟨hreply, rfl⟩ := Prod.mk.inj (ha.symm.trans hattend)
      obtain rfl := Except.ok.inj hreply
      rw [if_pos rfl]
      exact ht }
  have hbody : ∀ n ∈ Progress.loose, (returningJob false).fields[n]? = none := by
    simp only [Progress.loose, List.forall_mem_cons]
    exact ⟨rfl, rfl, by simp⟩
  have hopened : vacant.book = .opened {} := rfl
  have hacts : vacant.actAll dawdling [arrival false, .attend returningId, taskStart] =
      (paused false).act dawdling taskStart := rfl
  obtain ⟨-, -, hall⟩ := read_of_attended dawdling hopened hacts hstarted hlast ht'
  have hfirst : (waitingJob false).name = (returningJob false).name :=
    Job.name_congr (packet_waitingJob false)
  have hfiles : ((paused false).act dawdling taskStart).book.folder.files.isSome = true :=
    hholds.files
  have hin : ((paused false).act dawdling taskStart).book.folder.Inside (returningJob false).name :=
    ⟨fileName (returningJob false).name, by
      rw [← hfirst, (ordinary_returningJob false).locate_eq, if_pos hfiles]⟩
  have hs : Throughout dawdling (Isolates dawdling (returningJob false).name) vacant
      [arrival false, .attend returningId, taskStart] := by
    refine ⟨trivial, fun job reply desk hjob hattend _ => ?_, trivial, trivial⟩
    obtain rfl := Option.some.inj (hj.symm.trans hjob)
    obtain ⟨-, rfl⟩ := Prod.mk.inj (ha.symm.trans hattend)
    exact hfirst
  obtain ⟨stored, hstored, -, hsame⟩ :=
    hall [arrival false] _ (returningJob false) rfl halone hin hs
  exact ⟨halone, hin, hs, _, stored, hlast, hstored, hsame hbody⟩

section

variable {σ : Type} {s : Services σ} {o : Office σ} {id : TransactionId} {job : Job}
  {reply : Option Packet} {desk : Desk σ}

/-- What is written for a job is stored. -/
def Stores (s : Services σ) (o : Office σ) : Act σ → Prop
  | .attend i => ∀ job reply desk, o.docket.job? i = some job →
      attend (Registry.catalog s) ⟨job, o.world⟩ = (.ok reply, desk) →
      o.book.Stores desk.job reply.isSome
  | _ => True

/-- The snapshot of a job is written and stored, and what is told under its name then is not what
its record tells. -/
def Strays (s : Services σ) (o : Office σ) (id : TransactionId) : Prop :=
  ∃ job reply desk stored, o.docket.job? id = some job ∧
    attend (Registry.catalog s) ⟨job, o.world⟩ = (.ok reply, desk) ∧
    o.book.Stores desk.job reply.isSome ∧
    (o.act s (.attend id)).book.folder.read desk.job.name = .ok (some stored) ∧
    stored.same desk.job.record = false

theorem stores_attend (hj : o.docket.job? id = some job)
    (ha : attend (Registry.catalog s) ⟨job, o.world⟩ = (.ok reply, desk))
    (ht : o.book.Stores desk.job reply.isSome) : o.Stores s (.attend id) := by
  intro job' reply' desk' hj' ha'
  obtain rfl : job = job' := Option.some.inj (hj.symm.trans hj')
  obtain ⟨h, rfl⟩ := Prod.mk.inj (ha.symm.trans ha')
  obtain rfl : reply = reply' := Except.ok.inj h
  exact ht

/-- What a write leaves out stays as it was, and the snapshot strays if the record tells something
else there. -/
theorem strays_of_unwritten (hj : o.docket.job? id = some job)
    (ha : attend (Registry.catalog s) ⟨job, o.world⟩ = (.ok reply, desk)) {first old : Fields}
    (h : o.book.Holds desk.job.name first old) (hl : desk.job.record.isLegible = true)
    {name : String} (hw : (o.book.recordToWrite desk.job reply.isSome)[name]? = none)
    (hn : ¬ Json.Alike old[name]? desk.job.record[name]?) : o.Strays s id := by
  obtain ⟨ht, stored, hnext, hs⟩ := h.write hl reply.isSome
  refine ⟨job, reply, desk, stored, hj, ha, ht.stored, ?_, Bool.eq_false_iff.mpr fun he => ?_⟩
  · rw [(act_attend hj ha).1]
    exact hnext.read
  · have hkept := Fields.same_iff.mp hs name
    rw [Fields.getElem?_overlay, hw, Option.none_or] at hkept
    exact hn (hkept.symm.trans (Fields.same_iff.mp he name))

end

/-- An office where the job for the last word on an account has not come in. -/
def closing : Office Bool :=
  ⟨{ waits := ⟨10000, 60000, 3600000⟩ }, .opened {}, { outside := true }⟩

/-- The packet of a job comes in. -/
def delivery (o : Office Bool) (job : Job) : Act Bool :=
  .change (o.docket.perform (.receive .epoch job.packet))

/-- The packet of the job has come in and was answered. -/
def closed : Office Bool :=
  (closing.act fickle (delivery closing closingJob)).act fickle (.attend closingJob.transactionId)

def closedJob : Job := { closingJob with progress := { transactionCleared := some true } }

theorem attend_closingJob (log : List Event) :
    (∃ r w, attend (Registry.catalog fickle) ⟨closingJob, { outside := true, log }⟩ =
      (.ok (some r), ⟨closedJob, w⟩)) ∧
    ∃ r w, attend (Registry.catalog fickle) ⟨closingJob, { outside := false, log }⟩ =
      (.ok (some r), ⟨closingJob, w⟩) := ⟨⟨_, _, rfl⟩, ⟨_, _, rfl⟩⟩

/-- The packet is delivered again when it was answered. The second job does not get as far as the
first, whose snapshot is not taken back. -/
theorem strays_of_redelivered :
    Throughout fickle (Stores fickle) closing [delivery closing closingJob,
      .attend closingJob.transactionId, delivery closed closingJob] ∧
    (closed.act fickle (delivery closed closingJob)).Strays fickle closingJob.transactionId := by
  have hl : closingJob.Legible := ⟨by decide +kernel, by simp [closingJob], by decide +kernel⟩
  have hl' : closedJob.Legible := hl.withProgress (by simp)
  have hname : Ordinary (fileName closedJob.name) :=
    ⟨by decide +kernel, by decide +kernel, by decide +kernel, by decide +kernel⟩
  obtain ⟨⟨r, w, ha⟩, -⟩ := attend_closingJob []
  have hj : (closing.act fickle (delivery closing closingJob)).docket.job?
      closingJob.transactionId = some closingJob := rfl
  have hc : closing.book.Complete := complete_opened {}
  obtain ⟨ht, hholds⟩ := hc.holds_first (sole_opened {} _) rfl hname
    Std.ExtTreeMap.getElem?_empty hl'.record true
  have hbook : closed.book = (closing.book.write closedJob true).1 :=
    (act_attend (s := fickle) (o := closing.act fickle (delivery closing closingJob)) hj ha).1
  refine ⟨⟨trivial, stores_attend hj ha ht.stored, trivial, trivial⟩, ?_⟩
  -- The work begins anew, and now the records cannot be dropped.
  have hj' : (closed.act fickle (delivery closed closingJob)).docket.job?
      closingJob.transactionId = some closingJob := rfl
  obtain ⟨log, hw⟩ : ∃ log, (closed.act fickle (delivery closed closingJob)).world =
      { outside := false, log } := ⟨_, rfl⟩
  obtain ⟨-, r', w', ha'⟩ := attend_closingJob log
  rw [← hw] at ha'
  have hteller : ("transaction_cleared", fun p : Progress => p.transactionCleared.map Json.bool) ∈
      Progress.tellers := by simp [Progress.tellers]
  have hbefore : closedJob.record["transaction_cleared"]? = some (.bool true) := by
    rw [Job.getElem?_record_of_mem hteller]
    rfl
  have hnow : closingJob.record["transaction_cleared"]? = none := by
    rw [Job.getElem?_record_of_mem hteller]
    rfl
  have hholds' : (closed.act fickle (delivery closed closingJob)).book.Holds closingJob.name
      closedJob.record closedJob.record := hbook ▸ hholds
  have hunwritten : ((closed.act fickle (delivery closed closingJob)).book.recordToWrite closingJob
      true)["transaction_cleared"]? = none := by
    rw [recordToWrite_full, hnow]
  refine strays_of_unwritten hj' ha' hholds' hl.record hunwritten ?_
  rw [hbefore, hnow]
  rintro ⟨⟩

/-- The job when its task is done, but the person is not active. -/
def deniedJob : Job :=
  (waitingJob true).putTask (activation .successful 1000 [⟨"active", .bool false⟩])

def inactiveJob : Job :=
  { deniedJob with progress := { deniedJob.progress with personActive := some false } }

/-- The job when the next task was submitted, to notify the person. -/
def noticeJob : Job :=
  inactiveJob.putTask ⟨(returningJob true).taskKeys, "notify_user", .queued, .epoch, []⟩

def grantedJob : Job := noticeJob.putTask (activation .successful 2000 [⟨"active", .bool true⟩])

def activeJob : Job :=
  { grantedJob with progress := { grantedJob.progress with personActive := some true } }

theorem attend_deniedJob (log : List Event) :
    ∃ log', attend (Registry.catalog dawdling) ⟨deniedJob, { outside := (), log }⟩ =
      (.ok none, ⟨noticeJob, { outside := (), log := log' }⟩) :=
  ⟨_, by with_unfolding_all rfl⟩

theorem attend_grantedJob (log : List Event) :
    ∃ log', attend (Registry.catalog dawdling) ⟨grantedJob, { outside := (), log }⟩ =
      (.ok none, ⟨activeJob, { outside := (), log := log' }⟩) :=
  ⟨_, by with_unfolding_all rfl⟩

theorem noticeJob_progress : noticeJob.packet = (returningJob true).packet ∧
    noticeJob.progress = { (waitingJob true).progress with personActive := some false } := by
  simp only [noticeJob, inactiveJob, deniedJob, waitingJob, Job.packet_putTask,
    Job.progress_putTask, and_self]

theorem activeJob_progress : activeJob.packet = (returningJob true).packet ∧
    activeJob.progress = { (waitingJob true).progress with personActive := some true } := by
  obtain ⟨hpacket, hprogress⟩ := noticeJob_progress
  simp only [activeJob, grantedJob, Job.packet_putTask, Job.progress_putTask, hpacket, hprogress,
    and_self]

theorem getElem?_record_personActive {job : Job} (hp : job.packet = (returningJob true).packet) :
    job.record["person_active"]? = some (.bool (job.progress.personActive.getD true)) := by
  have hteller : ("person_active", fun p : Progress => p.personActive.map Json.bool) ∈
      Progress.tellers := by simp [Progress.tellers]
  have hbody : (returningJob true).fields["person_active"]? = some (.bool true) := rfl
  rw [Job.getElem?_record_of_mem hteller, Job.fields_congr hp, hbody]
  cases job.progress.personActive <;> rfl

def denial : Act Unit :=
  telling (paused true) (activation .successful 1000 [⟨"active", .bool false⟩])

def noticed : Office Unit :=
  ((paused true).act dawdling denial).act dawdling (.attend returningId)

def grant : Act Unit := telling noticed (activation .successful 2000 [⟨"active", .bool true⟩])

/-- The packet says that the person is active, and in the end they are. The snapshot goes along when
that is denied, and is not corrected, because the first record told the same. -/
theorem strays_of_named :
    Throughout dawdling (Stores dawdling) vacant
      [arrival true, .attend returningId, denial, .attend returningId, grant] ∧
    (noticed.act dawdling grant).Strays dawdling returningId := by
  obtain ⟨w, log, hj, ha, ht, hpaused, hworld, hholds⟩ := paused_outcome true
  -- The job is served a second time.
  obtain ⟨hj', hdenial, hbook⟩ :=
    act_telling hpaused (activation .successful 1000 [⟨"active", .bool false⟩])
  obtain ⟨log', ha'⟩ := attend_deniedJob log
  rw [← hworld, ← hdenial] at ha'
  have hdenied : deniedJob.Legible :=
    (legible_waitingJob true).putTask (by simp [activation, Json.isLegible])
  have hinactive : inactiveJob.Legible := hdenied.withProgress hdenied.units
  have hl : noticeJob.Legible := hinactive.putTask (by simp)
  obtain ⟨hpacket, hprogress⟩ := noticeJob_progress
  have hname : noticeJob.name = (waitingJob true).name := Job.name_congr hpacket
  rw [← hbook, ← hname] at hholds
  obtain ⟨ht', stored, hnoticed, hs⟩ := hholds.write hl.record false
  obtain ⟨hbook', hj'', log'', hworld'⟩ : noticed.book = _ ∧ noticed.docket.job? _ = _ ∧
      ∃ log, noticed.world = { outside := (), log } := act_attend_waiting (s := dawdling) hj' ha'
  refine ⟨⟨trivial, stores_attend hj ha ht.stored, trivial, stores_attend hj' ha' ht'.stored,
    trivial, trivial⟩, ?_⟩
  have h₁ : (waitingJob true).record["person_active"]? = some (.bool true) :=
    getElem?_record_personActive (packet_waitingJob true)
  have h₂ : noticeJob.record["person_active"]? = some (.bool false) := by
    rw [getElem?_record_personActive hpacket, hprogress]
    rfl
  have h₃ : activeJob.record["person_active"]? = some (.bool true) := by
    obtain ⟨hpacket', hprogress'⟩ := activeJob_progress
    rw [getElem?_record_personActive hpacket', hprogress']
    rfl
  -- The job is served a third time.
  obtain ⟨hgranted, hgrant, hbook''⟩ :=
    act_telling hj'' (activation .successful 2000 [⟨"active", .bool true⟩])
  obtain ⟨log₃, ha''⟩ := attend_grantedJob log''
  rw [← hworld', ← hgrant] at ha''
  have hgranted' : grantedJob.Legible := hl.putTask (by simp [activation, Json.isLegible])
  have hl' : activeJob.Legible := hgranted'.withProgress hgranted'.units
  obtain ⟨hpacket', hprogress'⟩ := activeJob_progress
  have hname' : activeJob.name = noticeJob.name := Job.name_congr (hpacket'.trans hpacket.symm)
  obtain ⟨id, hfirst⟩ := hholds.known
  have hdenied : Json.Alike stored["person_active"]? (some (.bool false)) := by
    have halike := Fields.same_iff.mp hs "person_active"
    rwa [Fields.getElem?_overlay, getElem?_recordToWrite_of_news hfirst, h₂, Option.some_or]
      at halike
    rw [h₁, h₂]
    rintro ⟨⟨⟩⟩
  rw [← hbook', ← hbook'', ← hname'] at hnoticed
  obtain ⟨id', hfirst'⟩ := hnoticed.known
  have hunwritten := recordToWrite_eq_none hfirst' (by decide) h₃ h₁ rfl
  have hn : ¬ Json.Alike stored["person_active"]? activeJob.record["person_active"]? := fun h => by
    rw [h₃] at h
    cases hdenied.symm.trans h with
    | some h => cases h
  exact strays_of_unwritten hgranted ha'' hnoticed hl'.record hunwritten hn

/-- The snapshot of a job may tell what its record does not tell, although all is stored that is
written: what an earlier job under the name told, and what the packet names itself. -/
theorem strays_of_attended :
    (Throughout fickle (Stores fickle) closing [delivery closing closingJob,
        .attend closingJob.transactionId, delivery closed closingJob] ∧
      (closed.act fickle (delivery closed closingJob)).Strays fickle closingJob.transactionId) ∧
    Throughout dawdling (Stores dawdling) vacant
      [arrival true, .attend returningId, denial, .attend returningId, grant] ∧
    (noticed.act dawdling grant).Strays dawdling returningId :=
  ⟨strays_of_redelivered, strays_of_named⟩

end Office

end SiteBroker
