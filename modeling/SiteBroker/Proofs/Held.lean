import SiteBroker.Proofs.Holding

/-! Properties of what transactions hold, a packet and its timer, that no operation on a docket
takes away. -/

namespace SiteBroker

/-- What the operations on a transaction make of the packet it holds and of its timer has a
property again, if timers are set at times of some kind, and if only packets of some kind are taken
for work and only replies of some kind come to be held. -/
structure Held.Durable (Timely : Instant → Prop) (Takes Replies : Packet → Prop)
    (Q : Held → Prop) : Prop where
  worked : ∀ {job job' : Job} {timer}, job'.packet = job.packet → Q ⟨.incoming job, timer⟩ →
    Q ⟨.incoming job', timer⟩
  rearmed : ∀ {content timer base} (waits : WaitTimes) (c : DelayClass), Timely base →
    Q ⟨content, timer⟩ → Q ⟨content, Timer.set waits base c⟩
  accepted : ∀ {job : Job} {query} (waits : WaitTimes), Timely query → Takes job.packet →
    Q ⟨.incoming job, Timer.set waits query .human⟩
  acknowledged : ∀ {r : Packet} {timer query} (waits : WaitTimes), Timely query →
    r.type.closes = false → Q ⟨.outgoing r false, timer⟩ →
    Q ⟨.outgoing r true, Timer.set waits query .human⟩
  replied : ∀ {r now}, Timely now → Replies r → Q ⟨.outgoing r false, Timer.immediate now⟩

namespace Transaction

variable {t : Transaction} {waits : WaitTimes} {Timely : Instant → Prop}
  {Takes Replies : Packet → Prop} {Q : Held → Prop}

/-- What the transaction holds, if anything, has a property. -/
def Keeps (t : Transaction) (Q : Held → Prop) : Prop := ∀ h, t.held = some h → Q h

namespace Keeps

theorem mono {Q' : Held → Prop} (hk : t.Keeps Q) (hQ : ∀ h, Q h → Q' h) : t.Keeps Q' :=
  fun h hh => hQ h (hk h hh)

theorem of_held {h : Held} (hh : t.held = some h) (hQ : Q h) : t.Keeps Q := by
  intro h' hh'
  rw [hh] at hh'
  cases hh'
  exact hQ

variable (hQ : Held.Durable Timely Takes Replies Q)

include hQ

theorem mapJob (hk : t.Keeps Q) {f : Job → Job}
    (hf : ∀ job, t.job? = some job → (f job).packet = job.packet) : (t.mapJob f).Keeps Q := by
  unfold Transaction.mapJob
  split
  · next job timer hh =>
    have hj : t.job? = some job := by simp [job?, content?, hh, Content.job?]
    exact .of_held rfl (hQ.worked (hf job hj) (hk _ hh))
  · exact hk

theorem putTask (hk : t.Keeps Q) (task : TaskRecord) : (t.putTask task).Keeps Q := by
  rcases t.putTask_cases task with ⟨job, -, -, he⟩ | ⟨-, he⟩ <;> rw [he]
  · exact hk.mapJob hQ fun job _ => job.packet_putTask task
  · exact hk

theorem rearm (hk : t.Keeps Q) {base : Instant} (hbase : Timely base) (c : DelayClass) :
    (t.rearm waits base c).Keeps Q := by
  intro h hh
  obtain ⟨old, hold, rfl⟩ := Option.map_eq_some_iff.mp hh
  exact hQ.rearmed waits c hbase (hk old hold)

theorem acknowledge (hk : t.Keeps Q) {query : Instant} (hquery : Timely query)
    (hopen : ∀ r timer, t.held = some ⟨.outgoing r false, timer⟩ → r.type.closes = false) :
    (t.acknowledge waits query).Keeps Q := by
  unfold Transaction.acknowledge
  split
  · next r timer hh =>
    exact .of_held rfl (hQ.acknowledged waits hquery (hopen r timer hh) (hk _ hh))
  · exact hk

theorem afterDue (hk : t.Keeps Q) {now : Instant} (hnow : Timely now) :
    (t.afterDue waits now).Keeps Q := by
  unfold Transaction.afterDue
  split
  · exact hk.rearm hQ hnow .imminent
  · exact hk

theorem refresh (hk : t.Keeps Q) {query : Instant} (hquery : Timely query) :
    (t.refresh waits query).Keeps Q := by
  unfold Transaction.refresh
  split
  · exact hk
  · split
    · exact hk.rearm hQ hquery .human
    · exact hk
  · exact hk

theorem holdReply (hk : t.Keeps Q) {now : Instant} (hnow : Timely now) {p : Packet}
    (hp : Replies p) : (t.holdReply now p).Keeps Q := by
  unfold Transaction.holdReply
  split
  · exact hk
  · exact .of_held rfl (hQ.replied hnow hp)

theorem accept {query : Instant} (hquery : Timely query) {p : Packet} (hp : Takes p)
    {t' : Transaction} (h : t.accept waits query p = .ok t') : t'.Keeps Q := by
  rcases t.accept_cases waits query p with ⟨e, -, he⟩ | ⟨hv, -⟩
  · rw [he] at h
    cases h
  · obtain ⟨job, rfl, -, -, he⟩ := accept_ok (t := t) hv waits query
    rw [he] at h
    cases h
    exact .of_held rfl (hQ.accepted waits hquery hp)

/-- The copy that acknowledges a reply has its type, so a reply that closes its transaction is not
acknowledged. -/
theorem receive (hk : t.Keeps Q) {query : Instant} (hquery : Timely query) {p : Packet}
    (hopen : p.type.closes = false) (hp : Takes p) {t' : Transaction} {disposition : Disposition}
    (h : t.receive waits query p = .ok (t', disposition)) : t'.Keeps Q := by
  rcases t.receive_cases waits query p with
    ⟨hecho, -⟩ | ⟨hecho, hrepeated, -⟩ | ⟨-, -, e, -, he⟩ | ⟨hecho, hrepeated, -⟩
  · rw [receive_of_echoed hecho] at h
    cases h
    refine hk.acknowledge hQ hquery fun r timer hh => ?_
    obtain ⟨-, q, hq, he⟩ := hecho
    obtain ⟨held, hheld, rfl⟩ := held_of_packet? hq
    rw [hh] at hheld
    cases hheld
    simp only [Packet.isEchoOf, Bool.and_eq_true, beq_iff_eq] at he
    have htype : p.type = r.type := he.1.1.1
    rwa [← htype]
  · obtain ⟨q, hq, hs⟩ := hrepeated
    obtain ⟨held, hh, rfl⟩ := held_of_packet? hq
    have hne : ¬ (t.isOutgoing = true ∧ p.isEchoOf held.content.packet = true) :=
      fun h => hecho ⟨h.1, _, hq, h.2⟩
    simp only [Transaction.receive, hh, Bool.and_eq_true, hne, if_false, hs, if_true] at h
    cases h
    split
    · exact hk.rearm hQ hquery .human
    · exact hk
  · rw [he] at h
    cases h
  · rw [receive_of_new hecho hrepeated] at h
    cases ha : t.accept waits query p with
    | error e =>
      rw [ha] at h
      cases h
    | ok t₁ =>
      rw [ha] at h
      cases h
      exact accept hQ hquery hp ha

end Keeps

end Transaction

namespace Docket

variable {d : Docket} {Timely : Instant → Prop} {Takes Replies : Packet → Prop} {Q : Held → Prop}

def Keeps (d : Docket) (Q : Held → Prop) : Prop := ∀ id t, d.get? id = some t → t.Keeps Q

theorem keeps_start (waits : WaitTimes) (Q : Held → Prop) : ({ waits } : Docket).Keeps Q := by
  intro id t h
  simp [get?] at h

@[simp] theorem waits_putTasks (tasks : List TaskRecord) :
    (d.putTasks tasks).1.waits = d.waits := by
  rw [putTasks_fst]
  induction tasks generalizing d with
  | nil => rfl
  | cons task tasks ih => exact ih

@[simp] theorem waits_receive (query : Instant) (p : Packet) :
    (d.receive query p).1.waits = d.waits := by
  cases hc : p.type.closes with
  | true => rw [receive_of_closes hc]
  | false =>
    rcases d.receive_cases hc query with
      ⟨-, t, -, he⟩ | ⟨-, -, t, -, he⟩ | ⟨-, -, e, -, he⟩ | ⟨-, -, -, t, -, he⟩ <;> rw [he] <;> rfl

namespace Keeps

theorem mono {Q' : Held → Prop} (hk : d.Keeps Q) (hQ : ∀ h, Q h → Q' h) : d.Keeps Q' :=
  fun id t hg => (hk id t hg).mono hQ

theorem transaction (hk : d.Keeps Q) (id : TransactionId) : (d.transaction id).Keeps Q := by
  unfold Docket.transaction
  cases hg : d.get? id with
  | none =>
    intro h hh
    cases hh
  | some t => exact hk id t hg

theorem set (hk : d.Keeps Q) {id : TransactionId} {t : Transaction} (ht : t.Keeps Q) :
    (d.set id t).Keeps Q := by
  intro i u hg
  rw [get?_set] at hg
  split at hg
  · cases hg
    exact ht
  · exact hk i u hg

theorem mapAll (hk : d.Keeps Q) {f : Transaction → Transaction}
    (hf : ∀ t, t.Keeps Q → (f t).Keeps Q) : (d.mapAll f).Keeps Q := by
  intro i u hg
  rw [get?_mapAll] at hg
  obtain ⟨t, ht, rfl⟩ := Option.map_eq_some_iff.mp hg
  exact hf t (hk i t ht)

theorem purge (hk : d.Keeps Q) (id : TransactionId) : (d.purge id).Keeps Q := by
  intro i t hg
  rw [get?_purge] at hg
  split at hg
  · cases hg
  · exact hk i t hg

theorem purgeAll (hk : d.Keeps Q) (ids : List TransactionId) : (d.purgeAll ids).Keeps Q := by
  intro i t hg
  rw [get?_purgeAll] at hg
  split at hg
  · cases hg
  · exact hk i t hg

variable (hQ : Held.Durable Timely Takes Replies Q)

include hQ

theorem mapJob (hk : d.Keeps Q) {id : TransactionId} {f : Job → Job}
    (hf : ∀ job, d.job? id = some job → (f job).packet = job.packet) :
    (d.mapJob id f).Keeps Q := by
  intro i u hg
  rw [get?_mapJob] at hg
  split at hg
  · next hi =>
    subst hi
    obtain ⟨t, ht, rfl⟩ := Option.map_eq_some_iff.mp hg
    exact (hk id t ht).mapJob hQ fun job hj => hf job (by simp [job?, ht, hj])
  · exact hk i u hg

theorem putTasks (hk : d.Keeps Q) (tasks : List TaskRecord) : (d.putTasks tasks).1.Keeps Q := by
  rw [putTasks_fst]
  induction tasks generalizing d with
  | nil => exact hk
  | cons task tasks ih => exact ih (hk.set ((hk.transaction _).putTask hQ task))

theorem holdReply (hk : d.Keeps Q) {now : Instant} (hnow : Timely now) {p : Packet}
    (hp : Replies p) : (d.holdReply now p).Keeps Q :=
  hk.set ((hk.transaction p.transactionId).holdReply hQ hnow hp)

theorem receive (hk : d.Keeps Q) {query : Instant} (hquery : Timely query) {p : Packet}
    (htakes : Takes p)
    (hreplies : ∀ message, (d.receive query p).2 = .rejected message →
      Replies (p.failureReply message)) : (d.receive query p).1.Keeps Q := by
  revert hreplies
  unfold Docket.receive
  split
  · exact fun _ => hk
  · next hc =>
    have ht := hk.transaction p.transactionId
    dsimp only
    split
    · next t disposition hr =>
      exact fun _ => hk.set (ht.receive hQ hquery (Bool.eq_false_iff.mpr hc) htakes hr)
    · next e hr => exact fun hreplies => hk.set (ht.holdReply hQ hquery (hreplies e.message rfl))

theorem afterDue (hk : d.Keeps Q) {now : Instant} (hnow : Timely now) :
    (d.afterDue now).Keeps Q := hk.mapAll fun _ ht => ht.afterDue hQ hnow

theorem refresh (hk : d.Keeps Q) {query : Instant} (hquery : Timely query) :
    (d.refresh query).Keeps Q := hk.mapAll fun _ ht => ht.refresh hQ hquery

end Keeps

@[simp] theorem waits_perform (m : Move) : (d.perform m).waits = d.waits := by
  cases m with
  | tell tasks => exact waits_putTasks tasks
  | receive query p => exact waits_receive query p
  | purgeTaskOnly => exact waits_purgeAll d.taskOnly
  | record id task => exact waits_mapJob id _
  | progress id p => exact waits_mapJob id _
  | reply now p => rfl
  | send now => rfl
  | refresh query => rfl
  | purge id => rfl

@[simp] theorem waits_performAll (moves : List Move) : (d.performAll moves).waits = d.waits := by
  induction moves generalizing d with
  | nil => rfl
  | cons m moves ih => exact ih.trans (waits_perform m)

section

variable (hQ : Held.Durable (fun _ => True) (fun _ => True) (fun _ => True) Q)

include hQ

theorem Keeps.perform (hk : d.Keeps Q) (m : Move) : (d.perform m).Keeps Q := by
  cases m with
  | tell tasks => exact hk.putTasks hQ tasks
  | receive query p => exact hk.receive hQ trivial trivial fun _ _ => trivial
  | reply now p => exact hk.holdReply hQ trivial trivial
  | send now => exact hk.afterDue hQ trivial
  | refresh query => exact hk.refresh hQ trivial
  | purge id => exact hk.purge id
  | purgeTaskOnly => exact hk.purgeAll d.taskOnly
  | record id task => exact hk.mapJob hQ fun job _ => job.packet_putTask task
  | progress id p => exact hk.mapJob hQ fun _ _ => rfl

theorem Keeps.performAll (hk : d.Keeps Q) (moves : List Move) : (d.performAll moves).Keeps Q := by
  induction moves generalizing d with
  | nil => exact hk
  | cons m moves ih => exact ih (hk.perform hQ m)

end

theorem keeps_run {waits : WaitTimes}
    (hQ : Held.Durable (fun _ => True) (fun _ => True) (fun _ => True) Q)
    (moves : List Move) : (run waits moves).Keeps Q :=
  (keeps_start waits Q).performAll hQ moves

end Docket

end SiteBroker
