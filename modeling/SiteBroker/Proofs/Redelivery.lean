import SiteBroker.Proofs.Arrivals
import SiteBroker.Proofs.Rejection

/-! Packets are listed again until the remote service considers them dealt with. What is delivered
for a second time is of no consequence, whatever became of it the first time. -/

namespace SiteBroker

/-- The packet that is held, and whether it was acknowledged if it is a reply. -/
def Content.standing : Content → Packet × Option Bool
  | incoming job => (job.packet, none)
  | outgoing reply acknowledged => (reply, some acknowledged)

namespace Transaction

variable {t t' : Transaction} {p : Packet}

def standing? (t : Transaction) : Option (Packet × Option Bool) := t.content?.map (·.standing)

theorem echoed_iff : t.Echoed p ↔
    ∃ r acknowledged, t.standing? = some (r, some acknowledged) ∧ p.isEchoOf r = true := by
  unfold Echoed isOutgoing direction packet? standing?
  cases t.content? with
  | none => simp
  | some c => cases c <;> simp [Content.packet, Content.standing]

theorem repeated_iff : t.Repeated p ↔
    ∃ r acknowledged, t.standing? = some (r, acknowledged) ∧ r.sameIdentity p = true := by
  unfold Repeated packet? standing?
  cases t.content? with
  | none => simp
  | some c => cases c <;> simp [Content.packet, Content.standing]

theorem holdsReply_iff_standing : t.holdsReply p = true ↔
    ∃ r acknowledged, t.standing? = some (r, some acknowledged) ∧ r.sameIdentity p = true := by
  unfold holdsReply isOutgoing direction packet? standing?
  cases t.content? with
  | none => simp
  | some c => cases c <;> simp [Content.packet, Content.standing]

theorem standing?_mapJob {f : Job → Job} (hf : ∀ job, (f job).packet = job.packet) :
    (t.mapJob f).standing? = t.standing? := by
  obtain ⟨id, held, parked⟩ := t
  rcases held with _ | ⟨job | ⟨reply, acknowledged⟩, timer⟩
  · rfl
  · simp [mapJob, standing?, content?, Content.standing, hf]
  · rfl

theorem standing?_putTask (task : TaskRecord) : (t.putTask task).standing? = t.standing? := by
  rcases t.putTask_cases task with ⟨job, -, -, he⟩ | ⟨-, he⟩ <;> rw [he]
  · exact standing?_mapJob fun job => job.packet_putTask task
  · rfl

theorem standing?_rearm (waits : WaitTimes) (base : Instant) (c : DelayClass) :
    (t.rearm waits base c).standing? = t.standing? := by
  unfold rearm standing? content?
  cases t.held <;> rfl

theorem standing?_afterDue (waits : WaitTimes) (now : Instant) :
    (t.afterDue waits now).standing? = t.standing? := by
  unfold afterDue
  split
  · exact standing?_rearm waits now .imminent
  · rfl

theorem standing?_refresh (waits : WaitTimes) (query : Instant) :
    (t.refresh waits query).standing? = t.standing? := by
  unfold refresh
  split
  · rfl
  · split
    · exact standing?_rearm waits query .human
    · rfl
  · rfl

theorem rearm_of_timer {waits : WaitTimes} {base : Instant} {c : DelayClass}
    (h : t.timer? = some (Timer.set waits base c)) : t.rearm waits base c = t := by
  obtain ⟨id, held, parked⟩ := t
  obtain ⟨held, rfl, ht⟩ := Option.map_eq_some_iff.mp h
  rw [rearm, ← ht]
  rfl

theorem acknowledge_of_acknowledged {r : Packet} (h : t.standing? = some (r, some true))
    (waits : WaitTimes) (query : Instant) : t.acknowledge waits query = t := by
  obtain ⟨id, held, parked⟩ := t
  rcases held with _ | ⟨job | ⟨reply, _ | _⟩, timer⟩
  · rfl
  · rfl
  · simp [standing?, content?, Content.standing] at h
  · rfl

theorem standing?_acknowledge {r : Packet} {acknowledged : Bool}
    (h : t.standing? = some (r, some acknowledged)) (waits : WaitTimes) (query : Instant) :
    (t.acknowledge waits query).standing? = some (r, some true) := by
  obtain ⟨id, held, parked⟩ := t
  rcases held with _ | ⟨job | ⟨reply, _ | _⟩, timer⟩ <;>
    simp_all [standing?, content?, Content.standing, acknowledge]

/-- A packet is of no consequence: it is a copy of a reply that was acknowledged already, is itself
what is held, or is an invalid one that would be answered as before. -/
inductive Absorbs (t : Transaction) (p : Packet) : Prop
  | copied {r : Packet} (h : t.standing? = some (r, some true)) (he : p.isEchoOf r = true)
  | held (he : ¬ t.Echoed p) (hr : t.Repeated p)
  | answered {e : ValidationError} (he : ¬ t.Echoed p) (hr : ¬ t.Repeated p)
    (hv : p.validate = .error e) (ha : t.holdsReply (p.failureReply e.message) = true)

theorem Absorbs.congr (h : t.Absorbs p) (hs : t'.standing? = t.standing?) : t'.Absorbs p := by
  have hecho : t'.Echoed p ↔ t.Echoed p := by rw [echoed_iff, echoed_iff, hs]
  have hrepeat : t'.Repeated p ↔ t.Repeated p := by rw [repeated_iff, repeated_iff, hs]
  cases h with
  | copied h he => exact .copied (hs.trans h) he
  | held he hr => exact .held (hecho.not.mpr he) (hrepeat.mpr hr)
  | answered he hr hv ha =>
    refine .answered (hecho.not.mpr he) (hrepeat.not.mpr hr) hv ?_
    rw [holdsReply_iff_standing, hs]
    exact holdsReply_iff_standing.mp ha

theorem Absorbs.exists_standing (h : t.Absorbs p) : ∃ s, t.standing? = some s := by
  cases h with
  | copied h he => exact ⟨_, h⟩
  | held he hr =>
    obtain ⟨r, acknowledged, hs, -⟩ := repeated_iff.mp hr
    exact ⟨_, hs⟩
  | answered he hr hv ha =>
    obtain ⟨r, acknowledged, hs, -⟩ := holdsReply_iff_standing.mp ha
    exact ⟨_, hs⟩

/-- A packet that is of no consequence sets at most a timer anew that has run out. -/
theorem Absorbs.deliver (h : t.Absorbs p) (waits : WaitTimes) (query : Instant) :
    (t.deliver waits query p).2 ≠ .accepted ∧
      ((t.deliver waits query p).1 = t ∨
        (¬ t.Echoed p ∧ t.Repeated p ∧ ∃ timer, t.timer? = some timer ∧ timer.target < query ∧
          (t.deliver waits query p).1 = t.rearm waits query .human)) := by
  unfold Transaction.deliver
  cases h with
  | copied h he =>
    rw [receive_of_echoed (echoed_iff.mpr ⟨_, _, h, he⟩)]
    exact ⟨by simp, .inl (acknowledge_of_acknowledged h waits query)⟩
  | held he hr =>
    have ⟨q, hq, _⟩ := hr
    obtain ⟨timer, ht⟩ := timer?_of_packet? hq
    rw [receive_of_held he hr ht]
    refine ⟨by simp, ?_⟩
    by_cases hlate : timer.target < query
    · exact .inr ⟨he, hr, timer, ht, hlate, if_pos hlate⟩
    · exact .inl (if_neg hlate)
  | answered he hr hv ha =>
    rw [receive_of_new he hr, accept_error hv]
    exact ⟨by simp [Except.map], .inl (holdReply_of_held ha query)⟩

/-- All that can become of a packet that does not close its transaction, with the timers. -/
theorem deliver_cases (t : Transaction) (waits : WaitTimes) (query : Instant) (p : Packet) :
    (t.Echoed p ∧ t.deliver waits query p = (t.acknowledge waits query, .acknowledged)) ∨
    (¬ t.Echoed p ∧ t.Repeated p ∧ ∃ timer, t.timer? = some timer ∧ t.deliver waits query p =
      (if timer.target < query then t.rearm waits query .human else t, .duplicate)) ∨
    (¬ t.Echoed p ∧ ¬ t.Repeated p ∧ ∃ e, p.validate = .error e ∧ t.deliver waits query p =
      (t.holdReply query (p.failureReply e.message), .rejected e.message)) ∨
    (¬ t.Echoed p ∧ ¬ t.Repeated p ∧ p.validate = .ok () ∧ ∃ job, job.packet = p ∧
      t.deliver waits query p = ({ t with
        held := some ⟨.incoming job, Timer.set waits query .human⟩
        parked := t.retired.erase p.packetId }, .accepted)) := by
  unfold deliver
  by_cases he : t.Echoed p
  · exact .inl ⟨he, by rw [receive_of_echoed he]⟩
  · by_cases hr : t.Repeated p
    · have ⟨q, hq, _⟩ := hr
      obtain ⟨timer, ht⟩ := timer?_of_packet? hq
      exact .inr (.inl ⟨he, hr, timer, ht, by rw [receive_of_held he hr ht]⟩)
    · rw [receive_of_new he hr]
      cases hv : p.validate with
      | error e => exact .inr (.inr (.inl ⟨he, hr, e, rfl, by rw [accept_error hv]; rfl⟩))
      | ok _ =>
        obtain ⟨job, hp, -, -, ha⟩ := accept_ok (t := t) hv waits query
        exact .inr (.inr (.inr ⟨he, hr, rfl, job, hp, by rw [ha]; rfl⟩))

theorem absorbs_of_job {job : Job} (hj : t.job? = some job) (hp : job.packet = p) :
    t.Absorbs p := by
  have hpacket : t.packet? = some p := by rw [packet?_of_job? hj, hp]
  refine .held (fun he => ?_) ⟨p, hpacket, by simp [Packet.sameIdentity]⟩
  have hnone := (isOutgoing_iff.mp he.1).2
  rw [hj] at hnone
  cases hnone

/-- A failure reply is of a type that closes its transaction, so that no request is taken for a
copy of it or for a repetition. -/
theorem absorbs_of_failureReply (hc : p.type.closes = false) {e : ValidationError}
    (hv : p.validate = .error e) (ha : t.holdsReply (p.failureReply e.message) = true) :
    t.Absorbs p := by
  obtain ⟨r, acknowledged, hr, hsame⟩ := holdsReply_iff_standing.mp ha
  have htype : r.type ≠ p.type := by
    rintro h
    simp only [Packet.sameIdentity, Bool.and_eq_true, beq_iff_eq] at hsame
    rw [← h, hsame.2] at hc
    cases hc
  refine .answered (fun he => ?_) (fun hs => ?_) hv ha
  · obtain ⟨r', acknowledged', hr', he⟩ := echoed_iff.mp he
    cases hr.symm.trans hr'
    simp only [Packet.isEchoOf, Bool.and_eq_true, beq_iff_eq] at he
    exact htype he.1.1.1.symm
  · obtain ⟨r', acknowledged', hr', hs⟩ := repeated_iff.mp hs
    cases hr.symm.trans hr'
    simp only [Packet.sameIdentity, Bool.and_eq_true, beq_iff_eq] at hs
    exact htype hs.2

theorem holdsReply_holdReply (t : Transaction) (now : Instant) (r : Packet) :
    (t.holdReply now r).holdsReply r = true := by
  cases h : t.holdsReply r with
  | true => rwa [holdReply_of_held h]
  | false =>
    have ha := holdReply_of_new h now
    rw [holdsReply, ha.isOutgoing, ha.packet]
    simp [Packet.sameIdentity]

/-- Whatever became of a packet, it is of no consequence from then on. -/
theorem absorbs_deliver (hc : p.type.closes = false) (waits : WaitTimes) (query : Instant) :
    (t.deliver waits query p).1.Absorbs p := by
  rcases t.deliver_cases waits query p with
    ⟨he, hd⟩ | ⟨he, hr, timer, -, hd⟩ | ⟨he, hr, e, hv, hd⟩ | ⟨he, hr, hv, job, hp, hd⟩ <;> rw [hd]
  · obtain ⟨r, acknowledged, h, he⟩ := echoed_iff.mp he
    exact .copied (standing?_acknowledge h waits query) he
  · refine Absorbs.congr (.held he hr) ?_
    dsimp only
    split
    · exact standing?_rearm waits query .human
    · rfl
  · exact absorbs_of_failureReply hc hv (t.holdsReply_holdReply query _)
  · exact absorbs_of_job rfl hp

/-- Delivered twice at one time, a packet does nothing the second time. -/
theorem deliver_deliver (hc : p.type.closes = false) (waits : WaitTimes) (query : Instant) :
    ((t.deliver waits query p).1.deliver waits query p).1 = (t.deliver waits query p).1 := by
  rcases ((absorbs_deliver (t := t) hc waits query).deliver waits query).2 with
    hsame | ⟨he', hr', timer', ht', hlate', hd'⟩
  · exact hsame
  -- A timer that ran out was there before the first delivery, and then that one set it anew.
  · refine hd'.trans ?_
    rcases t.deliver_cases waits query p with
      ⟨he, hd⟩ | ⟨-, -, timer, ht, hd⟩ | ⟨-, hr, e, -, hd⟩ | ⟨-, -, -, job, -, hd⟩ <;>
      rw [hd] at he' hr' ht' ⊢
    · obtain ⟨r, acknowledged, h, he⟩ := echoed_iff.mp he
      exact absurd (echoed_iff.mpr ⟨r, true, standing?_acknowledge h waits query, he⟩) he'
    · dsimp only at ht' ⊢
      split at ht'
      · next hlate =>
        rw [if_pos hlate]
        obtain ⟨held, hh, -⟩ := Option.map_eq_some_iff.mp ht
        exact rearm_of_timer (by simp [timer?, rearm, hh])
      · next hlate =>
        cases ht.symm.trans ht'
        exact absurd hlate' hlate
    · dsimp only at ht' hr' ⊢
      cases hh : t.holdsReply (p.failureReply e.message) with
      | true => exact absurd (holdReply_of_held hh query ▸ hr') hr
      | false =>
        have htimer : timer' = Timer.immediate query := by
          simpa [holdReply, hh, timer?, eq_comm] using ht'
        rw [htimer] at hlate'
        exact absurd hlate' (Instant.not_lt.mpr (Instant.le_refl query))
    · exact rearm_of_timer rfl

end Transaction

namespace Docket

variable {d : Docket} {p : Packet}

/-- What is held for a transaction, as `Content.standing` tells it. -/
def standing? (d : Docket) (id : TransactionId) : Option (Packet × Option Bool) :=
  (d.get? id).bind (·.standing?)

theorem standing?_transaction (id : TransactionId) :
    (d.transaction id).standing? = d.standing? id := by
  unfold transaction standing?
  cases d.get? id <;> rfl

theorem standing?_set (id : TransactionId) (t : Transaction) (i : TransactionId) :
    (d.set id t).standing? i = if id = i then t.standing? else d.standing? i := by
  unfold standing?
  rw [get?_set]
  split <;> rfl

theorem standing?_mapAll {f : Transaction → Transaction}
    (hf : ∀ t, (f t).standing? = t.standing?) (i : TransactionId) :
    (d.mapAll f).standing? i = d.standing? i := by
  unfold standing?
  rw [get?_mapAll]
  cases d.get? i with
  | none => rfl
  | some t => exact hf t

theorem standing?_mapJob {f : Job → Job} (hf : ∀ job, (f job).packet = job.packet)
    (id i : TransactionId) : (d.mapJob id f).standing? i = d.standing? i := by
  unfold standing?
  rw [get?_mapJob]
  split
  · cases d.get? i with
    | none => rfl
    | some t => exact Transaction.standing?_mapJob hf
  · rfl

theorem standing?_putTask (task : TaskRecord) (i : TransactionId) :
    (d.putTask task).standing? i = d.standing? i := by
  unfold putTask
  dsimp only
  rw [standing?_set]
  split
  · next hi => rw [Transaction.standing?_putTask, standing?_transaction, hi]
  · rfl

theorem standing?_putTasks (tasks : List TaskRecord) (i : TransactionId) :
    (d.putTasks tasks).1.standing? i = d.standing? i := by
  rw [putTasks_fst]
  induction tasks generalizing d with
  | nil => rfl
  | cons task tasks ih => exact ih.trans (standing?_putTask task i)

/-- Another delivery of the packet would be of no consequence. -/
def Absorbs (d : Docket) (p : Packet) : Prop :=
  p.type.closes = true ∨ (d.transaction p.transactionId).Absorbs p

theorem Absorbs.congr {d' : Docket} (h : d.Absorbs p)
    (hs : d'.standing? p.transactionId = d.standing? p.transactionId) : d'.Absorbs p := by
  refine h.imp id fun h => h.congr ?_
  rw [standing?_transaction, standing?_transaction, hs]

/-- The move delivers no other packet to the transaction of a packet, has no reply held there, and
does not drop the transaction. -/
def Spares (d : Docket) (p : Packet) : Move → Prop
  | .receive _ q => q.transactionId = p.transactionId → q = p
  | .reply _ r => r.transactionId ≠ p.transactionId
  | .purge id => id ≠ p.transactionId
  | .purgeTaskOnly => p.transactionId ∉ d.taskOnly
  | .tell _ | .send _ | .refresh _ | .record .. | .progress .. => True

def SparesAll (p : Packet) : Docket → List Move → Prop
  | _, [] => True
  | d, m :: moves => d.Spares p m ∧ SparesAll p (d.perform m) moves

theorem absorbs_receive (d : Docket) (query : Instant) (p : Packet) :
    (d.receive query p).1.Absorbs p := by
  cases hc : p.type.closes with
  | true => exact .inl hc
  | false =>
    refine .inr ?_
    rw [receive_eq_deliver hc, transaction_set, if_pos rfl]
    exact Transaction.absorbs_deliver hc d.waits query

theorem Absorbs.perform (h : d.Absorbs p) {m : Move} (hm : d.Spares p m) :
    (d.perform m).Absorbs p := by
  cases m with
  | tell tasks => exact h.congr (standing?_putTasks tasks _)
  | receive query q =>
    by_cases hid : q.transactionId = p.transactionId
    · obtain rfl := hm hid
      exact absorbs_receive d query q
    · refine h.congr ?_
      rw [Docket.perform, standing?, standing?, get?_receive_of_ne hid]
  | reply now r =>
    refine h.congr ?_
    rw [Docket.perform, standing?, standing?, get?_holdReply, if_neg hm]
  | send now => exact h.congr (standing?_mapAll (fun t => t.standing?_afterDue d.waits now) _)
  | refresh query => exact h.congr (standing?_mapAll (fun t => t.standing?_refresh d.waits query) _)
  | purge id =>
    refine h.congr ?_
    rw [Docket.perform, standing?, standing?, get?_purge, if_neg hm]
  | purgeTaskOnly =>
    refine h.congr ?_
    rw [Docket.perform, standing?, standing?, get?_purgeAll, if_neg hm]
  | record id task => exact h.congr (standing?_mapJob (fun job => job.packet_putTask task) id _)
  | progress id g =>
    exact h.congr (standing?_mapJob (f := ({ · with progress := g })) (fun _ => rfl) id _)

theorem Absorbs.performAll (h : d.Absorbs p) {moves : List Move} (hm : SparesAll p d moves) :
    (d.performAll moves).Absorbs p := by
  induction moves generalizing d with
  | nil => exact h
  | cons m moves ih => exact ih (h.perform hm.1) hm.2

theorem set_transaction {id : TransactionId} {t : Transaction} (h : d.get? id = some t) :
    d.set id (d.transaction id) = d := by
  refine eq_of_get? rfl fun i => ?_
  rw [get?_set, transaction_of_get? h]
  split
  · next hi => rw [← hi, h]
  · rfl

theorem Absorbs.receive (h : d.Absorbs p) (query : Instant) :
    (d.receive query p).2 ≠ .accepted ∧ ((d.receive query p).1 = d ∨
      (d.receive query p).1 = d.set p.transactionId
        ((d.transaction p.transactionId).rearm d.waits query .human)) := by
  cases hc : p.type.closes with
  | true =>
    rw [receive_of_closes hc]
    exact ⟨by simp, .inl rfl⟩
  | false =>
    have ht := h.resolve_left (by simp [hc])
    rw [receive_eq_deliver hc]
    obtain ⟨hne, hsame | ⟨-, -, -, -, -, hrearm⟩⟩ := ht.deliver d.waits query
    · obtain ⟨s, hs⟩ := ht.exists_standing
      rw [standing?_transaction] at hs
      obtain ⟨t, hg, -⟩ := Option.bind_eq_some_iff.mp hs
      exact ⟨hne, .inl (by rw [hsame, set_transaction hg])⟩
    · exact ⟨hne, .inr (by rw [hrearm])⟩

/-- Whatever a docket has been through: once a packet was delivered, another delivery of it is not
new work and sets at most the timer of its transaction anew, for as long as the transaction lives
and comes to hold nothing else. At one time, the second delivery does nothing at all. -/
theorem redelivery_absorbed (waits : WaitTimes) (before : List Move) (query query' : Instant)
    (p : Packet) :
    (∀ moves, SparesAll p ((run waits before).receive query p).1 moves →
      let d := ((run waits before).receive query p).1.performAll moves
      (d.receive query' p).2 ≠ .accepted ∧ ((d.receive query' p).1 = d ∨
        (d.receive query' p).1 = d.set p.transactionId
          ((d.transaction p.transactionId).rearm d.waits query' .human))) ∧
    (((run waits before).receive query p).1.receive query p).1 =
      ((run waits before).receive query p).1 := by
  refine ⟨fun moves hm => ((absorbs_receive _ query p).performAll hm).receive query', ?_⟩
  cases hc : p.type.closes with
  | true => rw [receive_of_closes hc, receive_of_closes hc]
  | false =>
    rw [receive_eq_deliver hc, receive_eq_deliver hc, transaction_set, if_pos rfl]
    simp only [waits_set, set_set_self, Transaction.deliver_deliver hc]

/-- The docket after the packet `projectEnd` came in and a task for it was put. -/
def underway : Docket :=
  ((run ⟨10000, 60000, 3600000⟩ []).receive .epoch projectEnd).1.performAll
    [.tell [projectEndTask], .refresh .epoch]

theorem redelivery_absorbed_underway :
    SparesAll projectEnd ((run ⟨10000, 60000, 3600000⟩ []).receive .epoch projectEnd).1
      [.tell [projectEndTask], .refresh .epoch] ∧
    (underway.receive (.ofMillis 70000) projectEnd).2 ≠ .accepted ∧
      ((underway.receive (.ofMillis 70000) projectEnd).1 = underway ∨
        (underway.receive (.ofMillis 70000) projectEnd).1 = underway.set projectEnd.transactionId
          ((underway.transaction projectEnd.transactionId).rearm underway.waits
            (.ofMillis 70000) .human)) := by
  have hspares : SparesAll projectEnd
      ((run ⟨10000, 60000, 3600000⟩ []).receive .epoch projectEnd).1
      [.tell [projectEndTask], .refresh .epoch] := ⟨trivial, trivial, trivial⟩
  exact ⟨hspares, (redelivery_absorbed ⟨10000, 60000, 3600000⟩ [] .epoch (.ofMillis 70000)
    projectEnd).1 _ hspares⟩

end Docket

end SiteBroker
