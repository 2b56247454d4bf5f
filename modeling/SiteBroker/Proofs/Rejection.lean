import Std.Data.String.ToInt
import SiteBroker.Proofs.Echo
import SiteBroker.Proofs.Held
import SiteBroker.Proofs.Resending

/-! Packets that are turned down. The failure reply to one comes to be held, except where a reply
that closes the transaction is held already: replies have no record at the remote service, so that
two of one type are taken for the same. -/

namespace SiteBroker

namespace Packet

theorem numberText_inj {m n : Int64} : numberText m = numberText n ↔ m = n :=
  Int.repr_inj.trans Int64.toInt_inj

theorem transactionId_eq_iff {p q : Packet} : p.transactionId = q.transactionId ↔
    p.header.originatingSite = q.header.originatingSite ∧
      p.header.remoteSite = q.header.remoteSite ∧ p.header.localSite = q.header.localSite ∧
      p.header.transactionNumber = q.header.transactionNumber := by
  simp only [transactionId, TransactionId.mk.injEq, numberText_inj]

/-- A reply that closes its transaction. -/
def Closing (r : Packet) : Prop := r.type.closes = true ∧ r.header.recordId = none

theorem sameIdentity_failureReply {r p : Packet} (hid : r.transactionId = p.transactionId)
    (message : String) : r.sameIdentity (p.failureReply message) = true ↔ r.Closing := by
  obtain ⟨ho, hr, hl, hn⟩ := transactionId_eq_iff.mp hid
  simp [sameIdentity, failureReply, closing, replyHeader, Closing, PacketType.closes, ho, hr, hl,
    hn, and_comm]

end Packet

/-- Only replies that leave their transaction open are acknowledged. -/
def Held.OpenOnceAcknowledged (h : Held) : Prop :=
  ∀ r, h.content = .outgoing r true → r.type.closes = false

theorem Held.durable_openOnceAcknowledged :
    Held.Durable (fun _ => True) (fun _ => True) (fun _ => True)
      Held.OpenOnceAcknowledged where
  worked _ _ r h := by cases h
  rearmed _ _ _ h := h
  accepted _ _ _ r h := by cases h
  acknowledged _ _ hopen _ r h := by
    cases h
    exact hopen
  replied _ _ r h := by cases h

namespace Transaction

variable {t : Transaction}

theorem packet?_of_held {h : Held} (hh : t.held = some h) : t.packet? = some h.content.packet := by
  simp [packet?, content?, hh]

theorem holdsReply_iff {p : Packet} : t.holdsReply p = true ↔ ∃ r acknowledged timer,
    t.held = some ⟨.outgoing r acknowledged, timer⟩ ∧ r.sameIdentity p = true := by
  unfold holdsReply
  rw [Bool.and_eq_true, isOutgoing, direction, packet?, content?]
  cases t.held with
  | none => simp
  | some h =>
    obtain ⟨content, timer⟩ := h
    cases content <;> simp [Content.packet]

end Transaction

namespace Docket

variable {d : Docket} {id : TransactionId}

/-- What a transaction holds. -/
def held? (d : Docket) (id : TransactionId) : Option Held := (d.get? id).bind (·.held)

theorem held?_set (t : Transaction) : (d.set id t).held? id = t.held := by
  simp [held?, get?_set]

theorem held_transaction (d : Docket) (id : TransactionId) :
    (d.transaction id).held = d.held? id := by
  unfold transaction held?
  cases d.get? id <;> rfl

/-- Whatever a docket has been through, a packet that is turned down leaves its transaction with an
unsent reply that closes it. This is the failure reply to the packet if no such reply was held
before; one that was held stays as it was, and then the packet goes unanswered. -/
theorem held_of_rejected {waits : WaitTimes} {moves : List Move} {query : Instant} {p : Packet}
    {message : String} (h : ((run waits moves).receive query p).2 = .rejected message) :
    ((∀ r acknowledged timer,
        (run waits moves).held? p.transactionId = some ⟨.outgoing r acknowledged, timer⟩ →
          ¬ r.Closing) ∧
      ((run waits moves).receive query p).1.held? p.transactionId =
        some ⟨.outgoing (p.failureReply message) false, Timer.immediate query⟩) ∨
    ∃ r timer, r.Closing ∧
      (run waits moves).held? p.transactionId = some ⟨.outgoing r false, timer⟩ ∧
      ((run waits moves).receive query p).1.held? p.transactionId =
        some ⟨.outgoing r false, timer⟩ := by
  have hs := sound_run waits moves
  have hopen : (run waits moves).Keeps Held.OpenOnceAcknowledged :=
    keeps_run Held.durable_openOnceAcknowledged moves
  generalize run waits moves = d at *
  rcases d.receive_cases (closes_of_receive h (by simp)) query with
    ⟨-, t, -, he⟩ | ⟨-, -, t, -, he⟩ | ⟨-, -, e, -, he⟩ | ⟨-, -, -, t, -, he⟩ <;> rw [he] at h <;>
    cases h
  rw [he]
  dsimp only
  rw [held?_set, ← held_transaction]
  obtain ⟨hid, ht⟩ := hs.transaction p.transactionId
  have hopen := hopen.transaction p.transactionId
  generalize d.transaction p.transactionId = t at *
  cases hh : t.holdsReply (p.failureReply e.message) with
  | false =>
    refine .inl ⟨fun r acknowledged timer hheld hr => ?_,
      Transaction.held_holdReply_of_new hh query⟩
    have hp := Transaction.packet?_of_held hheld
    have hkey : r.transactionId = p.transactionId := (ht.keyed hp).trans hid
    refine Bool.false_ne_true (hh.symm.trans (Transaction.holdsReply_iff.mpr ?_))
    exact ⟨r, acknowledged, timer, hheld, (Packet.sameIdentity_failureReply hkey e.message).mpr hr⟩
  | true =>
    obtain ⟨r, acknowledged, timer, hheld, hsame⟩ := Transaction.holdsReply_iff.mp hh
    have hkey : r.transactionId = p.transactionId :=
      (ht.keyed (Transaction.packet?_of_held hheld)).trans hid
    have hr : r.Closing := (Packet.sameIdentity_failureReply hkey e.message).mp hsame
    have hunsent : acknowledged = false := by
      cases acknowledged with
      | false => rfl
      | true => exact absurd hr.1 (by simp [hopen _ hheld r rfl])
    subst hunsent
    exact .inr ⟨r, timer, hr, hheld, by rw [Transaction.holdReply_of_held hh, hheld]⟩

/-- A request that does not name its project. -/
def projectUnnamed : Packet :=
  { projectEnd with body := Fields.ofList [("ResourceList", .arr [.str "cluster"])] }

/-- Another one of the same transaction, which names no resource. -/
def resourceUnnamed : Packet :=
  { projectEnd with
    header := { projectEnd.header with recordId := some 102, packetId := 6 }
    body := Fields.ofList [("ProjectID", .str "p")] }

theorem held_of_first_rejected :
    ((run ⟨10000, 60000, 3600000⟩ []).receive .epoch projectUnnamed).2 =
      .rejected "Required attributes are missing from incoming packet: ProjectID" ∧
    ((run ⟨10000, 60000, 3600000⟩ []).receive .epoch projectUnnamed).1.held?
        projectUnnamed.transactionId =
      some ⟨.outgoing (projectUnnamed.failureReply
        "Required attributes are missing from incoming packet: ProjectID") false,
        Timer.immediate .epoch⟩ := by
  have h : ((run ⟨10000, 60000, 3600000⟩ []).receive .epoch projectUnnamed).2 =
      .rejected "Required attributes are missing from incoming packet: ProjectID" := by
    decide +kernel
  refine ⟨h, ?_⟩
  rcases held_of_rejected h with ⟨-, hheld⟩ | ⟨r, timer, -, hbefore, -⟩
  · exact hheld
  · simp [run, performAll, held?, get?] at hbefore

/-- The second of two packets of one transaction that are turned down is not answered: what is held,
and will be sent, is the answer to the first. -/
theorem second_rejected_unanswered :
    ((run ⟨10000, 60000, 3600000⟩ [.receive .epoch projectUnnamed]).receive .epoch
        resourceUnnamed).2 =
      .rejected "Required attributes are missing from incoming packet: ResourceList" ∧
    ((((run ⟨10000, 60000, 3600000⟩ [.receive .epoch projectUnnamed]).receive .epoch
        resourceUnnamed).1.held? resourceUnnamed.transactionId).map (·.content.packet.header) =
      some projectUnnamed.replyHeader) ∧
    (resourceUnnamed.failureReply
        "Required attributes are missing from incoming packet: ResourceList").header ≠
      projectUnnamed.replyHeader := by
  decide +kernel

end Docket

end SiteBroker
