import SiteBroker.Proofs.History.Broker
import SiteBroker.Proofs.Snapshot

/-! What happens in an office, act by act: the transactions change, jobs are served, transactions
are forgotten, and time goes by. -/

namespace SiteBroker

open Program SnapshotBook

namespace Office

variable {σ : Type}

/-- What happens in an office. -/
inductive Act (σ : Type) where
  /-- The transactions change, in whatever way. -/
  | change (d : Docket)
  /-- The job of a transaction is served. -/
  | attend (id : TransactionId)
  /-- The snapshots of a transaction are deleted. -/
  | forget (id : TransactionId)
  | elapse (w : World σ)

variable (s : Services σ)

def act (o : Office σ) : Act σ → Office σ
  | .change docket => { o with docket }
  | .attend id => left (o.serveAll s (Registry.catalog s) [] [id])
  | .forget id => { o with book := o.book.purge id }
  | .elapse world => { o with world }

def actAll (o : Office σ) (acts : List (Act σ)) : Office σ := acts.foldl (act s) o

theorem actAll_append (o : Office σ) (acts acts' : List (Act σ)) :
    o.actAll s (acts ++ acts') = (o.actAll s acts).actAll s acts' := List.foldl_append

/-- One office comes of another by serving some jobs. -/
def Attends (o o' : Office σ) : Prop :=
  ∃ ids : List TransactionId, o' = o.actAll s (ids.map Act.attend)

instance : IsPreorder (Office σ) (Attends s) where
  refl _ := ⟨[], rfl⟩
  trans := by
    rintro o _ _ ⟨ids, rfl⟩ ⟨ids', rfl⟩
    exact ⟨ids ++ ids', by rw [List.map_append, actAll_append]⟩

/-- A round of work is a series of such acts, one for each job that is served. -/
theorem attends_serve (o : Office σ) : Attends s o (left (o.serve s (Registry.catalog s))) :=
  goes_serveAll s (Registry.catalog s) (R := Attends s) (fun id _ => ⟨[id], rfl⟩) _ o []

/-- Acts one after the other, each of them as it has to be in the office that it finds. -/
def Throughout (P : Office σ → Act σ → Prop) (o : Office σ) : List (Act σ) → Prop
  | [] => True
  | a :: acts => P o a ∧ Throughout P (o.act s a) acts

variable {s}

/-- What serving a job makes of the snapshots. -/
theorem act_attend {o : Office σ} {id : TransactionId} {job : Job}
    (hj : o.docket.job? id = some job) {answer : Except BrokerError (Option Packet)}
    {desk : Desk σ} (ha : attend (Registry.catalog s) ⟨job, o.world⟩ = (answer, desk)) :
    (o.act s (.attend id)).book = (match answer with
      | .ok reply => (o.book.write desk.job reply.isSome).1
      | .error _ => o.book) ∧
    ((∀ r, answer ≠ .ok (some r)) →
      (o.act s (.attend id)).docket.job? id = some desk.job) := by
  have hworked : (o.docket.mapJob id fun _ => desk.job).job? id = some desk.job := by
    rw [Docket.job?_mapJob, hj, Option.map_some]
  simp only [act, serveAll, hj, ha]
  rcases answer with e | _ | r
  · exact ⟨rfl, fun _ => hworked⟩
  · exact ⟨rfl, fun _ => hworked⟩
  · exact ⟨rfl, fun hn => absurd rfl (hn r)⟩

theorem act_attend_none {o : Office σ} {id : TransactionId} (hj : o.docket.job? id = none) :
    o.act s (.attend id) = o := by
  simp [act, serveAll, hj]

/-- An act leaves the book as it is, or writes one snapshot, or forgets a transaction. -/
theorem book_act_cases (o : Office σ) (a : Act σ) :
    (o.act s a).book = o.book ∨
    (∃ id job reply desk, a = .attend id ∧ o.docket.job? id = some job ∧
      attend (Registry.catalog s) ⟨job, o.world⟩ = (.ok reply, desk) ∧
      (o.act s a).book = (o.book.write desk.job reply.isSome).1) ∨
    ∃ id, (o.act s a).book = o.book.purge id := by
  cases a with
  | change d => exact .inl rfl
  | attend id =>
    cases hj : o.docket.job? id with
    | none => exact .inl (by rw [act_attend_none hj])
    | some job =>
      rcases ha : attend (Registry.catalog s) ⟨job, o.world⟩ with ⟨answer, desk⟩
      have hbook := (act_attend hj ha).1
      cases answer with
      | error e => exact .inl hbook
      | ok reply => exact .inr (.inl ⟨id, job, reply, desk, rfl, hj, ha, hbook⟩)
  | forget id => exact .inr (.inr ⟨id, rfl⟩)
  | elapse w => exact .inl rfl

theorem complete_act {o : Office σ} (h : o.book.Complete) (a : Act σ) :
    (o.act s a).book.Complete := by
  rcases book_act_cases (s := s) o a with hb | ⟨_, _, reply, desk, -, -, -, hb⟩ | ⟨id, hb⟩ <;>
    rw [hb]
  · exact h
  · exact h.write desk.job reply.isSome
  · exact h.purge id

theorem complete_actAll {o : Office σ} (h : o.book.Complete) (acts : List (Act σ)) :
    (o.actAll s acts).book.Complete := by
  induction acts generalizing o with
  | nil => exact h
  | cons a acts ih => exact ih (complete_act h a)

theorem sameFolders_actAll (o : Office σ) (acts : List (Act σ)) :
    SnapshotFolder.SameFolders o.book.folder (o.actAll s acts).book.folder := by
  induction acts generalizing o with
  | nil => exact .refl _
  | cons a acts ih =>
    refine SnapshotFolder.SameFolders.trans ?_ (ih (o.act s a))
    rcases book_act_cases (s := s) o a with hb | ⟨_, _, reply, desk, -, -, -, hb⟩ | ⟨id, hb⟩ <;>
      rw [hb]
    · exact .refl _
    · exact (write_cases o.book desk.job reply.isSome).1.folders
    · exact sameFolders_dropAll _ _

variable (s) in
/-- No job of another name is served whose snapshot is the same file. -/
def Isolates (name : String) (o : Office σ) : Act σ → Prop
  | .attend i => ∀ job reply desk, o.docket.job? i = some job →
      attend (Registry.catalog s) ⟨job, o.world⟩ = (.ok reply, desk) →
      o.book.folder.Shares desk.job.name name → desk.job.name = name
  | _ => True

theorem sole_actAll {o : Office σ} {name : String} {acts : List (Act σ)} (h : o.book.Sole name)
    (hi : Throughout s (Isolates s name) o acts) : (o.actAll s acts).book.Sole name := by
  induction acts generalizing o with
  | nil => exact h
  | cons a acts ih =>
    refine ih ?_ hi.2
    rcases book_act_cases (s := s) o a with
      hb | ⟨id, job, reply, desk, rfl, hj, ha, hb⟩ | ⟨id, hb⟩ <;> rw [hb]
    · exact h
    · exact h.write reply.isSome (hi.1 job reply desk hj ha)
    · exact h.purge id

theorem throughout_append {P : Office σ → Act σ → Prop} {o : Office σ} {acts acts' : List (Act σ)}
    (h : Throughout s P o (acts ++ acts')) :
    Throughout s P o acts ∧ Throughout s P (o.actAll s acts) acts' := by
  induction acts generalizing o with
  | nil => exact ⟨trivial, h⟩
  | cons a acts ih =>
    obtain ⟨hbefore, hafter⟩ := ih h.2
    exact ⟨⟨h.1, hbefore⟩, hafter⟩

/-- A job that has to wait keeps what was done on it, and its snapshot is written in part. -/
theorem act_attend_waiting {o : Office σ} {id : TransactionId} {job : Job}
    (hj : o.docket.job? id = some job) {desk : Desk σ}
    (ha : attend (Registry.catalog s) ⟨job, o.world⟩ = (.ok none, desk)) :
    (o.act s (.attend id)).book = (o.book.write desk.job false).1 ∧
    (o.act s (.attend id)).docket.job? id = some desk.job ∧
    ∃ log, (o.act s (.attend id)).world = { desk.world with log } := by
  obtain ⟨hbook, hdocket⟩ := act_attend hj ha
  refine ⟨hbook, hdocket (by simp), ?_⟩
  simp only [act, serveAll, hj, ha, takeSnapshot, left_ok, World.note]
  exact ⟨_, rfl⟩

end Office

end SiteBroker
