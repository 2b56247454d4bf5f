import SiteBroker.Proofs.Transaction.Tasks

/-! Packets that come to a transaction and replies that it holds: which of them it takes for new
work, and that none of them costs it a task. -/

namespace SiteBroker

namespace Transaction

variable {t : Transaction}

/-- The transaction holds a reply of which the packet is the remote service's copy. -/
def Echoed (t : Transaction) (p : Packet) : Prop :=
  t.isOutgoing = true ∧ ∃ q, t.packet? = some q ∧ p.isEchoOf q = true

/-- The transaction holds a packet with the identity of this one. -/
def Repeated (t : Transaction) (p : Packet) : Prop :=
  ∃ q, t.packet? = some q ∧ q.sameIdentity p = true

theorem held_of_packet? {q : Packet} (h : t.packet? = some q) :
    ∃ held, t.held = some held ∧ held.content.packet = q := by
  simpa [packet?, content?] using h

theorem receive_of_echoed {p : Packet} (h : t.Echoed p) (waits : WaitTimes) (query : Instant) :
    t.receive waits query p = .ok (t.acknowledge waits query, .acknowledged) := by
  obtain ⟨ho, q, hq, he⟩ := h
  obtain ⟨held, hh, rfl⟩ := held_of_packet? hq
  simp [receive, hh, ho, he]

theorem receive_of_repeated {p : Packet} (he : ¬ t.Echoed p) (hr : t.Repeated p)
    (waits : WaitTimes) (query : Instant) :
    ∃ t', Alike t t' ∧ t.receive waits query p = .ok (t', .duplicate) := by
  obtain ⟨q, hq, hs⟩ := hr
  obtain ⟨held, hh, rfl⟩ := held_of_packet? hq
  have hne : ¬ (t.isOutgoing = true ∧ p.isEchoOf held.content.packet = true) :=
    fun h => he ⟨h.1, _, hq, h.2⟩
  simp only [receive, hh, Bool.and_eq_true, hne, if_false, hs, if_true]
  split
  · exact ⟨_, t.alike_rearm waits query .human, rfl⟩
  · exact ⟨t, .refl t, rfl⟩

theorem receive_of_new {p : Packet} (he : ¬ t.Echoed p) (hr : ¬ t.Repeated p)
    (waits : WaitTimes) (query : Instant) :
    t.receive waits query p = (t.accept waits query p).map (·, .accepted) := by
  cases hh : t.held with
  | none => simp [receive, hh]
  | some held =>
    have hq : t.packet? = some held.content.packet := by simp [packet?, content?, hh]
    have hne : ¬ (t.isOutgoing = true ∧ p.isEchoOf held.content.packet = true) :=
      fun h => he ⟨h.1, _, hq, h.2⟩
    have hns : ¬ held.content.packet.sameIdentity p = true := fun h => hr ⟨_, hq, h⟩
    simp [receive, hh, hne, hns]

theorem accept_error {p : Packet} {e : ValidationError} (h : p.validate = .error e)
    (waits : WaitTimes) (query : Instant) : t.accept waits query p = .error e := by
  unfold accept
  rw [h]
  rfl

theorem accept_ok {p : Packet} (h : p.validate = .ok ()) (waits : WaitTimes) (query : Instant) :
    ∃ job, job.packet = p ∧ job.tasks = t.retired.getD p.packetId ∅ ∧ job.progress = {} ∧
      t.accept waits query p = .ok { t with
        held := some ⟨.incoming job, Timer.set waits query .human⟩
        parked := t.retired.erase p.packetId } := by
  obtain ⟨n, hn⟩ := Packet.recordId_of_validate h
  obtain ⟨job, hjob, hp, ht, hg⟩ := Job.ofPacket_eq hn (t.retired.getD p.packetId ∅)
  refine ⟨job, hp, ht, hg, ?_⟩
  unfold accept
  rw [h]
  simp only [hjob]
  rfl

/-- A transaction after it took a packet for new work. -/
structure Took (t : Transaction) (p : Packet) (t' : Transaction) : Prop where
  id : t'.id = t.id
  job : ∃ job, t'.job? = some job ∧ job.packet = p ∧ job.tasks = t.retired.getD p.packetId ∅ ∧
    job.progress = {}
  parked : t'.parked = t.retired.erase p.packetId

theorem accept_cases (t : Transaction) (waits : WaitTimes) (query : Instant) (p : Packet) :
    (∃ e, p.validate = .error e ∧ t.accept waits query p = .error e) ∨
    (p.validate = .ok () ∧ ∃ t', Took t p t' ∧ t.accept waits query p = .ok t') := by
  cases h : p.validate with
  | error e => exact .inl ⟨e, rfl, accept_error h waits query⟩
  | ok u =>
    obtain ⟨job, hp, ht, hg, he⟩ := accept_ok (t := t) h waits query
    refine .inr ⟨rfl, _, ?_, he⟩
    exact ⟨rfl, ⟨job, rfl, hp, ht, hg⟩, rfl⟩

/-- All that can become of a packet that is delivered to a transaction. -/
theorem receive_cases (t : Transaction) (waits : WaitTimes) (query : Instant) (p : Packet) :
    (t.Echoed p ∧ ∃ t', Alike t t' ∧ t.receive waits query p = .ok (t', .acknowledged)) ∨
    (¬ t.Echoed p ∧ t.Repeated p ∧
      ∃ t', Alike t t' ∧ t.receive waits query p = .ok (t', .duplicate)) ∨
    (¬ t.Echoed p ∧ ¬ t.Repeated p ∧ ∃ e, p.validate = .error e ∧
      t.receive waits query p = .error e) ∨
    (¬ t.Echoed p ∧ ¬ t.Repeated p ∧ p.validate = .ok () ∧
      ∃ t', Took t p t' ∧ t.receive waits query p = .ok (t', .accepted)) := by
  by_cases he : t.Echoed p
  · exact .inl ⟨he, _, t.alike_acknowledge waits query, receive_of_echoed he waits query⟩
  · by_cases hr : t.Repeated p
    · exact .inr (.inl ⟨he, hr, receive_of_repeated he hr waits query⟩)
    · have hnew := receive_of_new he hr waits query
      rcases t.accept_cases waits query p with ⟨e, hv, ha⟩ | ⟨hv, t', ht, ha⟩
      · exact .inr (.inr (.inl ⟨he, hr, e, hv, by rw [hnew, ha]; rfl⟩))
      · exact .inr (.inr (.inr ⟨he, hr, hv, t', ht, by rw [hnew, ha]; rfl⟩))

namespace Took

variable {t' : Transaction} {p : Packet}

theorem record?_eq (h : Took t p t') (hs : t.Sound) (q n : String) :
    t'.record? q n = t.record? q n := by
  obtain ⟨job, hj, hp, ht, -⟩ := h.job
  rw [record?_of_job? hj, ht, h.parked, ← get?_retired hs, Job.packetId, hp]
  by_cases hq : p.packetId = q
  · subst hq
    rw [if_pos rfl, Std.ExtTreeMap.getD_eq_getD_getElem?]
    cases t.retired[p.packetId]? <;> simp
  · rw [if_neg hq, Std.ExtTreeMap.getElem?_erase]
    simp [hq]

theorem sound (h : Took t p t') (hs : t.Sound) (hid : p.transactionId = t.id)
    (hv : p.validate = .ok ()) : t'.Sound := by
  obtain ⟨job, hj, hp, -, -⟩ := h.job
  constructor
  case keyed =>
    intro q hq
    rw [packet?_of_job? hj, hp] at hq
    cases hq
    rw [h.id, hid]
  case valid =>
    intro job' hj'
    rw [hj] at hj'
    cases hj'
    rw [hp, hv]
  case apart =>
    intro job' hj'
    rw [hj] at hj'
    cases hj'
    rw [h.parked, Job.packetId, hp, Std.ExtTreeMap.getElem?_erase_self]
  case filled =>
    intro q l hl
    rw [h.parked, Std.ExtTreeMap.getElem?_erase] at hl
    split at hl
    · cases hl
    · exact filled_retired hs hl

end Took

/-- A transaction after it came to hold a reply. -/
structure Answered (t : Transaction) (p : Packet) (t' : Transaction) : Prop where
  id : t'.id = t.id
  packet : t'.packet? = some p
  job : t'.job? = none
  parked : t'.parked = t.retired

theorem holdReply_of_held {p : Packet} (h : t.holdsReply p = true) (now : Instant) :
    t.holdReply now p = t := by
  simp [holdReply, h]

theorem holdReply_of_new {p : Packet} (h : t.holdsReply p = false) (now : Instant) :
    Answered t p (t.holdReply now p) := by
  unfold holdReply
  rw [h, if_neg Bool.false_ne_true]
  constructor <;> simp [packet?, job?, content?, Content.packet, Content.job?]

namespace Answered

variable {t' : Transaction} {p : Packet}

theorem isOutgoing (h : Answered t p t') : t'.isOutgoing = true := by
  rw [isOutgoing_iff, h.packet, h.job]
  simp

theorem record?_eq (h : Answered t p t') (hs : t.Sound) (q n : String) :
    t'.record? q n = t.record? q n := by
  rw [record?_of_no_job h.job, h.parked, get?_retired hs]

theorem sound (h : Answered t p t') (hs : t.Sound) (hid : p.transactionId = t.id) :
    t'.Sound where
  keyed hq := by
    rw [h.packet] at hq
    cases hq
    rw [h.id, hid]
  valid hj := by rw [h.job] at hj; cases hj
  apart hj := by rw [h.job] at hj; cases hj
  filled hl := filled_retired hs (h.parked ▸ hl)

end Answered

theorem record?_holdReply (hs : t.Sound) (now : Instant) (p : Packet) (q n : String) :
    (t.holdReply now p).record? q n = t.record? q n := by
  cases h : t.holdsReply p with
  | true => rw [holdReply_of_held h]
  | false => exact (holdReply_of_new h now).record?_eq hs q n

theorem Sound.holdReply (hs : t.Sound) {p : Packet} (hid : p.transactionId = t.id)
    (now : Instant) : (t.holdReply now p).Sound := by
  cases h : t.holdsReply p with
  | true => rwa [holdReply_of_held h]
  | false => exact (holdReply_of_new h now).sound hs hid

@[simp] theorem id_holdReply (now : Instant) (p : Packet) : (t.holdReply now p).id = t.id := by
  unfold holdReply
  split <;> rfl

end Transaction

end SiteBroker
