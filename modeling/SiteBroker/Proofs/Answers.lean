import SiteBroker.Proofs.Held
import SiteBroker.Proofs.History.Broker
import SiteBroker.Proofs.Reply
import SiteBroker.Proofs.Resending

/-! How packets come to be answered in a run of errands, and what an errand leaves of the properties
of what is held. -/

namespace SiteBroker

open Program

/-- The packet that is held has one property if it is to be worked on, and another if it is a
reply. -/
def Held.Accounts (Takes Replies : Packet → Prop) (h : Held) : Prop :=
  match h.content with
  | .incoming job => Takes job.packet
  | .outgoing r _ => Replies r

theorem Held.durable_accounts (Takes Replies : Packet → Prop) :
    Held.Durable (fun _ => True) Takes Replies (Held.Accounts Takes Replies) where
  worked {job job' timer} he h := by
    show Takes job'.packet
    rw [he]
    exact h
  rearmed _ _ _ h := h
  accepted _ _ h := h
  acknowledged _ _ _ h := h
  replied _ h := h

theorem Held.Accounts.mono {Takes Takes' Replies Replies' : Packet → Prop}
    (ht : ∀ p, Takes p → Takes' p) (hr : ∀ r, Replies r → Replies' r) {h : Held}
    (ha : h.Accounts Takes Replies) : h.Accounts Takes' Replies' := by
  unfold Accounts at *
  split at ha
  · exact ht _ ha
  · exact hr _ ha

theorem Docket.holds_of_mem_due {d : Docket} {now : Instant} {r : Packet} (h : r ∈ d.due now) :
    ∃ id, d.Holds id r := by
  obtain ⟨t, ht, hr⟩ := List.mem_filterMap.mp h
  obtain ⟨id, hid⟩ := mem_toList.mp ht
  obtain ⟨timer, hh, -⟩ := Transaction.due?_eq_some_iff.mp hr
  refine ⟨id, t, hid, ?_, ?_⟩ <;>
    simp [Transaction.isOutgoing, Transaction.direction, Transaction.packet?,
      Transaction.content?, hh, Content.packet]

namespace Docket.Keeps

variable {d : Docket} {Takes Replies : Packet → Prop}

theorem takes_of_job? (hk : d.Keeps (Held.Accounts Takes Replies)) {id : TransactionId} {job : Job}
    (hj : d.job? id = some job) : Takes job.packet := by
  obtain ⟨t, ht, hjob⟩ := get?_of_job? hj
  obtain ⟨timer, hh⟩ := Transaction.held_of_job? hjob
  exact hk id t ht _ hh

theorem replies_of_holds (hk : d.Keeps (Held.Accounts Takes Replies)) {id : TransactionId}
    {r : Packet} (hr : d.Holds id r) : Replies r := by
  obtain ⟨t, ht, hout, hp⟩ := hr
  obtain ⟨⟨content, timer⟩, hh, rfl⟩ := Transaction.held_of_packet? hp
  cases content with
  | incoming job =>
    simp [Transaction.isOutgoing, Transaction.direction, Transaction.content?, hh] at hout
  | outgoing r acknowledged => exact hk id t ht _ hh

end Docket.Keeps

namespace Broker

variable {σ : Type} (setup : Setup σ)

/-- The message with which a job is answered whose work came to this. -/
def failure? {σ : Type} : EStateM.Result ServiceError (Desk σ) Outcome → Option String
  | .ok (.pending t) _ => if t.state = .failed then some (t.message?.getD "task failed") else none
  | .error (.requestFailed detail) _ => some detail
  | .error (.validation v) _ => some v.message
  | _ => none

inductive Verdict where
  | rejected
  /-- No workflow serves packets of its type. -/
  | unhandled
  /-- The work on it came to a failure. -/
  | failed
  | served
  deriving DecidableEq

inductive Answers (b : Broker σ) : Errand → (p r : Packet) → Verdict → Prop
  | rejected {query : Instant} {p : Packet} {message : String}
      (h : (b.docket.receive query p).2 = .rejected message) :
      Answers b (.take query p) p (p.failureReply message) .rejected
  | unhandled {id : TransactionId} {job : Job} (hj : b.docket.job? id = some job)
      (hw : setup.registry job.packet.type = none) :
      Answers b (.attend id) job.packet
        (job.packet.failureReply (job.packet.type.name ++ " not implemented")) .unhandled
  | failed {id : TransactionId} {job : Job} (hj : b.docket.job? id = some job)
      {work : Work σ Outcome} (hw : setup.registry job.packet.type = some work) {message : String}
      (hm : failure? (work ⟨job, b.office.world⟩) = some message) :
      Answers b (.attend id) job.packet (job.packet.failureReply message) .failed
  | served {id : TransactionId} {job : Job} (hj : b.docket.job? id = some job)
      {work : Work σ Outcome} (hw : setup.registry job.packet.type = some work) {r : Packet}
      {desk : Desk σ} (hr : work ⟨job, b.office.world⟩ = .ok (.reply r) desk) :
      Answers b (.attend id) job.packet r .served

/-- A reply comes of a job that no workflow serves, of work that failed, or of work that is done. -/
theorem attend_eq_reply {registry : Registry σ} {x y : Desk σ} {r : Packet}
    (h : Office.attend registry x = (.ok (some r), y)) :
    (registry x.job.packet.type = none ∧
      r = x.job.failureReply (x.job.packet.type.name ++ " not implemented")) ∨
    ∃ work, registry x.job.packet.type = some work ∧
      ((∃ message, failure? (work x) = some message ∧ r = y.job.failureReply message) ∨
        work x = .ok (.reply r) y) := by
  unfold Office.attend Registry.work at h
  cases hw : registry x.job.packet.type with
  | none =>
    rw [hw] at h
    cases h
    exact .inl ⟨rfl, rfl⟩
  | some work =>
    rw [hw, Option.getD_some] at h
    refine .inr ⟨work, rfl, ?_⟩
    cases hres : work x with
    | ok outcome z =>
      rw [hres] at h
      cases outcome with
      | reply p =>
        cases h
        exact .inr rfl
      | pending t =>
        obtain ⟨ha, rfl⟩ := Prod.mk.inj h
        unfold Office.ofPending at ha
        split at ha <;> cases ha
        next ht => exact .inl ⟨_, by simp [failure?, ht], rfl⟩
    | error e z =>
      rw [hres] at h
      obtain ⟨ha, rfl⟩ := Prod.mk.inj h
      unfold Office.ofError at ha
      split at ha
      · split at ha <;> cases ha
      · cases ha
        exact .inl ⟨_, rfl, rfl⟩
      · cases ha
        exact .inl ⟨_, rfl, rfl⟩
      · cases ha

section

variable {setup} (hr : setup.registry = Registry.catalog setup.services)

include hr

theorem packet_attend {x y : Desk σ} {answer : Except BrokerError (Option Packet)}
    (h : Office.attend setup.registry x = (answer, y)) : y.job.packet = x.job.packet := by
  have hp := (Office.leads_attend setup.services x).1
  rwa [← hr, h] at hp

theorem answers_of_attend {b : Broker σ} {id : TransactionId} {job : Job}
    (hj : b.docket.job? id = some job) {r : Packet} {y : Desk σ}
    (h : Office.attend setup.registry ⟨job, b.office.world⟩ = (.ok (some r), y)) :
    ∃ verdict, Answers setup b (.attend id) job.packet r verdict := by
  have hp : y.job.packet = job.packet := packet_attend hr h
  rcases attend_eq_reply h with ⟨hw, rfl⟩ | ⟨work, hw, ⟨message, hm, rfl⟩ | hres⟩
  · exact ⟨.unhandled, .unhandled hj hw⟩
  · rw [Job.failureReply, hp]
    exact ⟨.failed, .failed hj hw hm⟩
  · exact ⟨.served, .served hj hw hres⟩

end

theorem isReplyTo_of_answers (hr : setup.registry = Registry.catalog setup.services)
    {b : Broker σ} {e : Errand} {p r : Packet} {verdict : Verdict}
    (h : Answers setup b e p r verdict) : r.IsReplyTo p (verdict ≠ .served) := by
  cases h with
  | rejected => exact Packet.isReplyTo_failureReply _ _ (by decide)
  | unhandled => exact Packet.isReplyTo_failureReply _ _ (by decide)
  | failed => exact Packet.isReplyTo_failureReply _ _ (by decide)
  | @served id job hj work hw _ desk hres =>
    have hpacket := (Registry.goes_catalog setup.services job.packet.type ⟨job, b.office.world⟩).1
    rw [hr, Registry.catalog, Option.map_eq_some_iff] at hw
    obtain ⟨w, hw, rfl⟩ := hw
    have hwork : (Registry.catalog setup.services).work job.packet.type =
        w.work setup.services := by simp [Registry.work, Registry.catalog, hw]
    rw [hwork, hres] at hpacket
    have hpacket : desk.job.packet = job.packet := hpacket
    rw [← hpacket]
    exact Workflow.isReplyTo_of_work hw hres (by decide)

section

variable {b : Broker σ} {Timely : Instant → Prop} {Takes Replies : Packet → Prop}
  {Q : Held → Prop}

theorem keeps_sendAll (hk : b.docket.Keeps Q) (packets : List Packet) :
    (left (sendAll setup packets b)).docket.Keeps Q := by
  induction packets generalizing b with
  | nil => exact hk
  | cons p rest ih =>
    rcases sendAll_outcomes setup b p rest with ⟨w, -, h, -⟩ | ⟨e, e', w, h, -⟩ <;> rw [h]
    · refine ih ?_
      unfold afterSending
      split
      · exact hk
      · exact hk.purge p.transactionId
    · exact hk

variable {setup} (hr : setup.registry = Registry.catalog setup.services)
  (hQ : Held.Durable Timely Takes Replies Q) (hread : ∀ t, IsReading setup t → Timely t)

include hr hQ hread

theorem keeps_attend (hk : b.docket.Keeps Q) {id : TransactionId}
    (hreplies : ∀ {p r verdict}, Answers setup b (.attend id) p r verdict → Replies r) :
    (carryOut setup b (.attend id)).docket.Keeps Q := by
  rcases b.office.serve_one_outcomes setup.services setup.registry id with
    ⟨-, h⟩ | ⟨job, answer, desk, hj, ha, -, hd⟩
  · rw [carryOut, h]
    exact hk
  · have hwork : (b.docket.mapJob id fun _ => desk.job).Keeps Q := by
      refine hk.mapJob hQ fun job' hj' => ?_
      obtain rfl : job = job' := Option.some.inj (hj.symm.trans hj')
      exact packet_attend hr ha
    show (left (b.office.serveAll setup.services setup.registry [] [id])).docket.Keeps Q
    rcases hd with ⟨-, hd⟩ | ⟨r, w, rfl, hd⟩ <;> rw [hd]
    · exact hwork
    · obtain ⟨verdict, hanswers⟩ := answers_of_attend hr hj ha
      exact hwork.holdReply hQ (hread _ ⟨w.outside, rfl⟩) (hreplies hanswers)

/-- A property of held packets outlasts an errand if it has those that the errand brings in: packets
that were listed for the site, and answers to such. -/
theorem keeps_carryOut (hk : b.docket.Keeps Q) {e : Errand} (hfit : Fits setup b e)
    (htakes : ∀ p, Heard setup b p → Takes p)
    (hreplies : ∀ {p r verdict}, Answers setup b e p r verdict → Replies r) :
    (carryOut setup b e).docket.Keeps Q := by
  have hclock : Timely (reading setup b) := hread _ (isReading_reading setup b)
  cases e with
  | readClock => exact hk
  | loadTasks wait =>
    rw [carryOut]
    rcases loadTasks_outcomes setup b wait with ⟨tasks, w, n, h, -⟩ | ⟨e, e', w, h, -⟩ <;> rw [h]
    · exact hk.putTasks hQ tasks
    · exact hk
  | list =>
    rw [carryOut]
    rcases loadPackets_outcomes setup b with ⟨e, e', w, h, -⟩ | ⟨packets, w, h, -⟩ <;> rw [h] <;>
      exact hk
  | take query p =>
    obtain ⟨hq, hheard, -⟩ := hfit
    exact hk.receive hQ (hread query hq) (htakes p hheard) fun message hm =>
      hreplies (.rejected hm)
  | close p =>
    rw [carryOut]
    rcases complete_outcomes setup b p.transactionId with ⟨w, h, -⟩ | ⟨e, e', w, h, -⟩ <;> rw [h]
    · exact hk.purge p.transactionId
    · exact hk
  | dropTaskOnly =>
    rw [carryOut, docket_withoutTaskOnly]
    exact hk.purgeAll b.docket.taskOnly
  | settle query => exact hk.refresh hQ (hread query hfit)
  | attend id => exact keeps_attend hr hQ hread hk hreplies
  | flush =>
    obtain ⟨w, -, h⟩ := flush_outcome setup b
    have hdue : ((b.inWorld w).setDocket (b.docket.afterDue (reading setup b))).docket.Keeps Q :=
      hk.afterDue hQ hclock
    rw [carryOut, h]
    exact keeps_sendAll setup hdue _
  | nextWait => exact hk
  | sleep seconds => exact hk

end

theorem keeps_carryOutAll (hr : setup.registry = Registry.catalog setup.services) {b : Broker σ}
    {Timely : Instant → Prop} {Replies : Packet → Prop} {Q : Held → Prop}
    (hQ : Held.Durable Timely (fun _ => True) Replies Q)
    (hread : ∀ t, IsReading setup t → Timely t)
    (hreplies : ∀ {b e p r verdict}, Answers setup b e p r verdict → Replies r)
    (hk : b.docket.Keeps Q) {errands : List Errand} (hfit : FitAll setup b errands) :
    (carryOutAll setup b errands).docket.Keeps Q := by
  induction errands generalizing b with
  | nil => exact hk
  | cons e errands ih =>
    exact ih (keeps_carryOut hr hQ hread hk hfit.1 (fun _ _ => trivial) hreplies) hfit.2

end Broker

end SiteBroker
