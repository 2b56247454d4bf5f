import SiteBroker.Proofs.Broker
import SiteBroker.Proofs.Calls
import SiteBroker.Proofs.Docket

/-! All that can come of an operation of a broker, as one lemma for each operation: the broker that
it leaves behind, and the calls that it made. -/

namespace SiteBroker

open Program

namespace Broker

variable {σ : Type} (setup : Setup σ) (b : Broker σ)

def calls : List Exchange := b.office.world.calls

def reading : Instant := (setup.services.clock.read b.office.world).1

def inWorld (world : World σ) : Broker σ := { b with office := { b.office with world } }

def without (id : TransactionId) : Broker σ := { b with office := b.office.purge id }

def withoutTaskOnly : Broker σ :=
  { b with office := b.docket.taskOnly.foldl Office.purge b.office }

/-- The broker after a listing that was asked for at a time was taken in. -/
def settled (query : Instant) : Broker σ :=
  { b.setDocket (b.docket.refresh query) with packetCursor := some query }

@[simp] theorem calls_inWorld (w : World σ) : (b.inWorld w).calls = w.calls := rfl

@[simp] theorem docket_inWorld (w : World σ) : (b.inWorld w).docket = b.docket := rfl

@[simp] theorem docket_setDocket (d : Docket) : (b.setDocket d).docket = d := rfl

@[simp] theorem calls_without (id : TransactionId) : (b.without id).calls = b.calls := rfl

@[simp] theorem docket_without (id : TransactionId) :
    (b.without id).docket = b.docket.purge id := rfl

@[simp] theorem docket_settled (query : Instant) :
    (b.settled query).docket = b.docket.refresh query := rfl

theorem foldl_purge (o : Office σ) (ids : List TransactionId) :
    (ids.foldl Office.purge o).docket = o.docket.purgeAll ids ∧
      (ids.foldl Office.purge o).world = o.world := by
  induction ids generalizing o with
  | nil => exact ⟨rfl, rfl⟩
  | cons id ids ih => exact ih (o.purge id)

@[simp] theorem calls_withoutTaskOnly : b.withoutTaskOnly.calls = b.calls :=
  congrArg World.calls (foldl_purge b.office b.docket.taskOnly).2

@[simp] theorem docket_withoutTaskOnly :
    b.withoutTaskOnly.docket = b.docket.purgeAll b.docket.taskOnly :=
  (foldl_purge b.office b.docket.taskOnly).1

theorem call_outcomes (c : Call) :
    (∃ a w, call setup c b = .ok a (b.inWorld w) ∧ w.calls = b.calls ++ [⟨c, .ok a⟩]) ∨
    ∃ e e' w, call setup c b = .error e (b.inWorld w) ∧ w.calls = b.calls ++ [⟨c, .error e'⟩] := by
  unfold call outside
  rcases setup.services.call_cases c b.office.world with ⟨a, w, h, hc⟩ | ⟨e, e', w, h, hc⟩
  · exact .inl ⟨a, w, by rw [h]; rfl, hc⟩
  · exact .inr ⟨.service e, e', w, by rw [h]; rfl, hc⟩

theorem now_outcome : ∃ w, now setup b = .ok (reading setup b) (b.inWorld w) ∧
    w.calls = b.calls := ⟨_, rfl, setup.services.calls_read b.office.world⟩

theorem loadTasks_outcomes (wait : Nat) :
    (∃ tasks w n, loadTasks setup wait b =
        .ok n { (b.inWorld w).setDocket (b.docket.putTasks tasks).1 with
          taskCursor := later? b.taskCursor (tasks.map (·.timestamp)).max? } ∧
      w.calls = b.calls ++ [⟨.getTasks b.taskCursor.isNone wait b.taskCursor, .ok tasks⟩]) ∨
    ∃ e e' w, loadTasks setup wait b = .error e (b.inWorld w) ∧
      w.calls = b.calls ++ [⟨.getTasks b.taskCursor.isNone wait b.taskCursor, .error e'⟩] := by
  have hget : (get : Brokerage σ (Broker σ)) b = .ok b b := rfl
  rcases call_outcomes setup b (.getTasks b.taskCursor.isNone wait b.taskCursor) with
    ⟨tasks, w, h, hc⟩ | ⟨e, e', w, h, hc⟩
  · exact .inl ⟨tasks, w, _, (bind_of_ok hget _).trans (bind_of_ok h _), hc⟩
  · exact .inr ⟨e, e', w, (bind_of_ok hget _).trans (bind_of_error h _), hc⟩

theorem complete_outcomes (id : TransactionId) :
    (∃ w, complete setup id b = .ok () ((b.inWorld w).without id) ∧
      w.calls = b.calls ++ [⟨.clear id, .ok ()⟩]) ∨
    ∃ e e' w, complete setup id b = .error e (b.inWorld w) ∧
      w.calls = b.calls ++ [⟨.clear id, .error e'⟩] := by
  rcases call_outcomes setup b (.clear id) with ⟨⟨⟩, w, h, hc⟩ | ⟨e, e', w, h, hc⟩
  · exact .inl ⟨w, bind_of_ok h _, hc⟩
  · exact .inr ⟨e, e', w, bind_of_error h _, hc⟩

/-- The first of some packets is passed over, or taken in, or closes its transaction; the others are
taken in then, unless it does not close. -/
theorem receiveAll_outcomes (query : Instant) (p : Packet) (rest : List Packet) :
    (p.isAddressedTo setup.siteName = false ∧
      receiveAll setup query (p :: rest) b = receiveAll setup query rest b) ∨
    (p.isAddressedTo setup.siteName = true ∧ p.type.closes = false ∧
      SameEnd (receiveAll setup query (p :: rest) b)
        (receiveAll setup query rest (b.setDocket (b.docket.receive query p).1))) ∨
    (p.isAddressedTo setup.siteName = true ∧ p.type.closes = true ∧
      ((∃ b', complete setup p.transactionId b = .ok () b' ∧
        SameEnd (receiveAll setup query (p :: rest) b) (receiveAll setup query rest b')) ∨
      ∃ e b', complete setup p.transactionId b = .error e b' ∧
        receiveAll setup query (p :: rest) b = .error e b')) := by
  rw [receiveAll]
  cases ha : p.isAddressedTo setup.siteName with
  | false => exact .inl ⟨rfl, rfl⟩
  | true =>
    refine .inr ?_
    rw [if_pos rfl]
    have htake : (modifyGet fun b => ((b.docket.receive query p).2,
        b.setDocket (b.docket.receive query p).1) : Brokerage σ Disposition) b =
        .ok (b.docket.receive query p).2 (b.setDocket (b.docket.receive query p).1) := rfl
    rw [bind_of_ok htake]
    cases hc : p.type.closes with
    | false =>
      refine .inl ⟨rfl, rfl, ?_⟩
      simp only [Docket.receive_ne_completed hc, if_false]
      exact sameEnd_bind_pure _ _ _
    | true =>
      refine .inr ⟨rfl, rfl, ?_⟩
      have hb : b.setDocket b.docket = b := rfl
      rw [Docket.receive_of_closes hc]
      simp only [hb, if_true]
      cases h : complete setup p.transactionId b with
      | ok u b' =>
        rw [bind_of_ok h]
        exact .inl ⟨b', rfl, sameEnd_bind_pure _ _ _⟩
      | error e b' => exact .inr ⟨e, b', rfl, bind_of_error h _⟩

def listing : EStateM.Result BrokerError (Broker σ) (List Packet) :=
  call setup (.listPackets b.packetCursor) (left (now setup b))

/-- A listing fails, or its packets are taken in, and if that succeeds, so does the listing. -/
theorem loadPackets_outcomes :
    (∃ e e' w, listing setup b = .error e (b.inWorld w) ∧
      loadPackets setup b = .error e (b.inWorld w) ∧
      w.calls = b.calls ++ [⟨.listPackets b.packetCursor, .error e'⟩]) ∨
    ∃ packets w, listing setup b = .ok packets (b.inWorld w) ∧
      w.calls = b.calls ++ [⟨.listPackets b.packetCursor, .ok packets⟩] ∧
      ((∃ e b', receiveAll setup (reading setup b) packets (b.inWorld w) = .error e b' ∧
        loadPackets setup b = .error e b') ∨
      ∃ n b', receiveAll setup (reading setup b) packets (b.inWorld w) = .ok n b' ∧
        loadPackets setup b = .ok n (b'.withoutTaskOnly.settled (reading setup b))) := by
  obtain ⟨w, hnow, hw⟩ := now_outcome setup b
  have hget : (get : Brokerage σ (Broker σ)) (b.inWorld w) = .ok (b.inWorld w) (b.inWorld w) := rfl
  have hlisting : listing setup b = call setup (.listPackets b.packetCursor) (b.inWorld w) := by
    rw [listing, hnow, left_ok]
  rcases call_outcomes setup (b.inWorld w) (.listPackets b.packetCursor) with
    ⟨packets, w', h, hc⟩ | ⟨e, e', w', h, hc⟩ <;> rw [calls_inWorld, hw] at hc
  · refine .inr ⟨packets, w', hlisting.trans h, hc, ?_⟩
    have hrun : loadPackets setup b = _ :=
      (bind_of_ok hnow _).trans ((bind_of_ok hget _).trans (bind_of_ok h _))
    rw [hrun]
    cases hr : receiveAll setup (reading setup b) packets (b.inWorld w') with
    | ok n b' => exact .inr ⟨n, b', rfl, bind_of_ok hr _⟩
    | error e b' => exact .inl ⟨e, b', rfl, bind_of_error hr _⟩
  · exact .inl ⟨e, e', w', hlisting.trans h,
      (bind_of_ok hnow _).trans ((bind_of_ok hget _).trans (bind_of_error h _)), hc⟩

def afterSending (p : Packet) : Broker σ :=
  if p.expectsReply then b else b.without p.transactionId

@[simp] theorem calls_afterSending (p : Packet) : (b.afterSending p).calls = b.calls := by
  unfold afterSending
  split <;> rfl

theorem sendAll_outcomes (p : Packet) (rest : List Packet) :
    (∃ w, w.calls = b.calls ++ [⟨.sendPacket p, .ok ()⟩] ∧
      SameEnd (sendAll setup (p :: rest) b) (sendAll setup rest ((b.inWorld w).afterSending p))) ∨
    ∃ e e' w, sendAll setup (p :: rest) b = .error e (b.inWorld w) ∧
      w.calls = b.calls ++ [⟨.sendPacket p, .error e'⟩] := by
  rcases call_outcomes setup b (.sendPacket p) with ⟨⟨⟩, w, h, hc⟩ | ⟨e, e', w, h, hc⟩
  · refine .inl ⟨w, hc, ?_⟩
    have hrun : sendAll setup (p :: rest) b = _ := bind_of_ok h _
    rw [hrun, afterSending]
    cases p.expectsReply with
    | true => exact sameEnd_bind_pure _ _ _
    | false =>
      have hpurge : (purge p.transactionId : Brokerage σ Unit) (b.inWorld w) =
        .ok () ((b.inWorld w).without p.transactionId) := rfl
      simp only [Bool.not_false, if_true, bind_of_ok hpurge]
      exact sameEnd_bind_pure _ _ _
  · exact .inr ⟨e, e', w, bind_of_error h _, hc⟩

theorem flush_outcome : ∃ w, w.calls = b.calls ∧ flush setup b =
    sendAll setup (b.docket.due (reading setup b))
      ((b.inWorld w).setDocket (b.docket.afterDue (reading setup b))) := by
  obtain ⟨w, hnow, hw⟩ := now_outcome setup b
  exact ⟨w, hw, (bind_of_ok hnow _).trans (bind_of_ok rfl _)⟩

theorem nextWait_outcome : ∃ w, w.calls = b.calls ∧ nextWait setup b =
    .ok (b.waitAt setup (reading setup b))
      { b.inWorld w with previousWait := (b.waitAt setup (reading setup b)).2 } := by
  obtain ⟨w, hnow, hw⟩ := now_outcome setup b
  exact ⟨w, hw, bind_of_ok hnow _⟩

end Broker

namespace Office

variable {σ : Type} (s : Services σ) (registry : Registry σ)

/-- Serving the first of some transactions ends the round in an error, or the others are served
then. -/
theorem serveAll_cons_cases (o : Office σ) (replies : List Packet) (id : TransactionId)
    (rest : List TransactionId) :
    (∃ e, o.serveAll s registry replies (id :: rest) =
      .error e (left (o.serveAll s registry [] [id]))) ∨
    ∃ replies', o.serveAll s registry replies (id :: rest) =
      (left (o.serveAll s registry [] [id])).serveAll s registry replies' rest := by
  simp only [serveAll]
  split
  · exact .inr ⟨replies, rfl⟩
  · next job _ =>
    rcases attend registry ⟨job, o.world⟩ with ⟨outcome, desk⟩
    cases outcome with
    | error e => exact .inl ⟨e, rfl⟩
    | ok answer =>
      cases answer with
      | none => exact .inr ⟨replies, rfl⟩
      | some reply => exact .inr ⟨replies ++ [reply], rfl⟩

/-- What each transaction upholds when it is served, a round upholds. -/
theorem goes_serveAll {R : Office σ → Office σ → Prop} [IsPreorder (Office σ) R]
    (hone : ∀ id o, R o (left (o.serveAll s registry [] [id]))) (ids : List TransactionId)
    (o : Office σ) (replies : List Packet) : R o (left (o.serveAll s registry replies ids)) := by
  induction ids generalizing o replies with
  | nil => exact refl_of R o
  | cons id rest ih =>
    rcases serveAll_cons_cases s registry o replies id rest with ⟨e, h⟩ | ⟨replies', h⟩ <;> rw [h]
    · exact hone id o
    · exact trans_of R (hone id o) (ih _ replies')

/-- A transaction that has a job has it worked on, and its reply is held if there is one. -/
theorem serve_one_outcomes (o : Office σ) (id : TransactionId) :
    (o.docket.job? id = none ∧ left (o.serveAll s registry [] [id]) = o) ∨
    ∃ job answer desk, o.docket.job? id = some job ∧
      attend registry ⟨job, o.world⟩ = (answer, desk) ∧
      (left (o.serveAll s registry [] [id])).world.calls = desk.world.calls ∧
      (((∀ r, answer ≠ .ok (some r)) ∧
        (left (o.serveAll s registry [] [id])).docket = o.docket.mapJob id fun _ => desk.job) ∨
      ∃ r w, answer = .ok (some r) ∧ (left (o.serveAll s registry [] [id])).docket =
        (o.docket.mapJob id fun _ => desk.job).holdReply (s.clock.read w).1 r) := by
  simp only [serveAll]
  split
  · next hj => exact .inl ⟨hj, rfl⟩
  · next job hj =>
    cases ha : attend registry ⟨job, o.world⟩ with
    | mk answer desk =>
      refine .inr ⟨job, answer, desk, hj, ha, ?_⟩
      cases answer with
      | error e => exact ⟨rfl, .inl ⟨fun r h => (by cases h), rfl⟩⟩
      | ok reply =>
        cases reply with
        | none => exact ⟨World.calls_note_stored .., .inl ⟨fun r h => (by cases h), rfl⟩⟩
        | some r => exact ⟨World.calls_note_stored .., .inr ⟨r, _, rfl, rfl⟩⟩

end Office

end SiteBroker
