import SiteBroker.Docket
import SiteBroker.Proofs.Transaction.Packets

/-! The operations on a docket as moves, the runs made of them, and what holds of every docket that
a run leads to. -/

namespace SiteBroker

namespace Docket

/-- One operation on a docket. -/
inductive Move where
  | tell (tasks : List TaskRecord)
  /-- A packet that was listed at a time comes in. -/
  | receive (query : Instant) (p : Packet)
  | reply (now : Instant) (p : Packet)
  /-- The replies that are due are taken for sending. -/
  | send (now : Instant)
  | refresh (query : Instant)
  | purge (id : TransactionId)
  | purgeTaskOnly
  /-- A task is recorded in a job. -/
  | record (id : TransactionId) (task : TaskRecord)
  | progress (id : TransactionId) (p : Progress)

def perform (d : Docket) : Move → Docket
  | .tell tasks => (d.putTasks tasks).1
  | .receive query p => (d.receive query p).1
  | .reply now p => d.holdReply now p
  | .send now => d.afterDue now
  | .refresh query => d.refresh query
  | .purge id => d.purge id
  | .purgeTaskOnly => d.purgeAll d.taskOnly
  | .record id task => d.mapJob id (·.putTask task)
  | .progress id p => d.mapJob id ({ · with progress := p })

def performAll (d : Docket) (moves : List Move) : Docket := moves.foldl perform d

/-- The docket after some moves from the start, where no transaction is known. -/
def run (waits : WaitTimes) (moves : List Move) : Docket := performAll { waits } moves

@[simp] theorem performAll_cons (d : Docket) (m : Move) (ms : List Move) :
    d.performAll (m :: ms) = (d.perform m).performAll ms := rfl

theorem performAll_append (d : Docket) (ms ms' : List Move) :
    d.performAll (ms ++ ms') = (d.performAll ms).performAll ms' := List.foldl_append

theorem putTasks_fst (d : Docket) (tasks : List TaskRecord) :
    (d.putTasks tasks).1 = tasks.foldl putTask d := by
  induction tasks generalizing d with
  | nil => rfl
  | cons task tasks ih => exact ih (d.putTask task)

variable {d : Docket}

theorem get?_set (id : TransactionId) (t : Transaction) (i : TransactionId) :
    (d.set id t).get? i = if id = i then some t else d.get? i := by
  simp [set, get?, Std.ExtTreeMap.getElem?_insert]

theorem get?_purge (id i : TransactionId) :
    (d.purge id).get? i = if id = i then none else d.get? i := by
  simp [purge, get?, Std.ExtTreeMap.getElem?_erase]

theorem get?_mapAll (f : Transaction → Transaction) (i : TransactionId) :
    (d.mapAll f).get? i = (d.get? i).map f := by
  simp [mapAll, get?]

theorem get?_purgeAll (ids : List TransactionId) (i : TransactionId) :
    (d.purgeAll ids).get? i = if i ∈ ids then none else d.get? i := by
  induction ids generalizing d with
  | nil => simp [purgeAll]
  | cons id ids ih =>
    have h : d.purgeAll (id :: ids) = (d.purge id).purgeAll ids := rfl
    rw [h, ih, get?_purge]
    by_cases hi : i ∈ ids
    · simp [hi]
    · by_cases he : id = i
      · simp [he]
      · simp [hi, he, Ne.symm he]

theorem get?_mapJob (id : TransactionId) (f : Job → Job) (i : TransactionId) :
    (d.mapJob id f).get? i = if id = i then (d.get? i).map (·.mapJob f) else d.get? i := by
  unfold mapJob
  split
  · next t h =>
    rw [get?_set]
    split
    · next he => rw [← he, h]; rfl
    · rfl
  · next h =>
    split
    · next he => rw [← he, h]; rfl
    · rfl

theorem eq_of_get? {d' : Docket} (hw : d.waits = d'.waits) (h : ∀ i, d.get? i = d'.get? i) :
    d = d' := by
  obtain ⟨waits, m⟩ := d
  obtain ⟨waits', m'⟩ := d'
  cases hw
  have hm : m = m' := Std.ExtTreeMap.ext_getElem? fun {i} => h i
  rw [hm]

@[simp] theorem waits_mapJob (id : TransactionId) (f : Job → Job) :
    (d.mapJob id f).waits = d.waits := by
  unfold mapJob
  split <;> rfl

@[simp] theorem waits_purgeAll (ids : List TransactionId) : (d.purgeAll ids).waits = d.waits := by
  unfold purgeAll
  induction ids generalizing d with
  | nil => rfl
  | cons id ids ih => exact ih

theorem get?_of_job? {id : TransactionId} {job : Job} (h : d.job? id = some job) :
    ∃ t, d.get? id = some t ∧ t.job? = some job := Option.bind_eq_some_iff.mp h

@[simp] theorem job?_mapJob (id : TransactionId) (f : Job → Job) :
    (d.mapJob id f).job? id = (d.job? id).map f := by
  unfold job?
  rw [get?_mapJob, if_pos rfl]
  cases d.get? id <;> simp

theorem mapJob_congr {id : TransactionId} {job : Job} (h : d.job? id = some job)
    {f g : Job → Job} (hfg : f job = g job) : d.mapJob id f = d.mapJob id g := by
  obtain ⟨t, ht, hj⟩ := get?_of_job? h
  simp [mapJob, ht, Transaction.mapJob_congr hj hfg]

theorem mapJob_of_fixed {id : TransactionId} {job : Job} (h : d.job? id = some job)
    {f : Job → Job} (hf : f job = job) : d.mapJob id f = d := by
  obtain ⟨t, ht, hj⟩ := get?_of_job? h
  refine eq_of_get? (d.waits_mapJob id f) fun i => ?_
  rw [get?_mapJob]
  split
  · next he => rw [← he, ht, Option.map_some, Transaction.mapJob_of_fixed hj hf]
  · rfl

theorem mapJob_mapJob (id : TransactionId) (f g : Job → Job) :
    (d.mapJob id f).mapJob id g = d.mapJob id (g ∘ f) := by
  refine eq_of_get? (by simp) fun i => ?_
  rw [get?_mapJob, get?_mapJob, get?_mapJob]
  split
  · cases d.get? i <;> simp [Transaction.mapJob_mapJob]
  · rfl

theorem transaction_of_get? {id : TransactionId} {t : Transaction} (h : d.get? id = some t) :
    d.transaction id = t := by
  simp [transaction, h]

/-- What holds of every docket: each transaction is kept under its own id and is sound. -/
def Sound (d : Docket) : Prop := ∀ id t, d.get? id = some t → t.id = id ∧ t.Sound

theorem sound_start (waits : WaitTimes) : Sound { waits } := by
  intro id t h
  simp [get?] at h

namespace Sound

theorem transaction (h : d.Sound) (id : TransactionId) :
    (d.transaction id).id = id ∧ (d.transaction id).Sound := by
  unfold Docket.transaction
  cases hg : d.get? id with
  | none => exact ⟨rfl, Transaction.sound_new id⟩
  | some t => exact h id t hg

theorem set (h : d.Sound) {id : TransactionId} {t : Transaction} (hid : t.id = id)
    (ht : t.Sound) : (d.set id t).Sound := by
  intro i t' hg
  rw [get?_set] at hg
  split at hg
  · next he =>
    cases hg
    exact ⟨hid.trans he, ht⟩
  · exact h i _ hg

theorem purge (h : d.Sound) (id : TransactionId) : (d.purge id).Sound := by
  intro i t hg
  rw [get?_purge] at hg
  split at hg
  · cases hg
  · exact h i _ hg

theorem purgeAll (h : d.Sound) (ids : List TransactionId) : (d.purgeAll ids).Sound := by
  intro i t hg
  rw [get?_purgeAll] at hg
  split at hg
  · cases hg
  · exact h i _ hg

theorem mapAll (h : d.Sound) {f : Transaction → Transaction}
    (hf : ∀ t, Transaction.Alike t (f t)) : (d.mapAll f).Sound := by
  intro i t hg
  rw [get?_mapAll] at hg
  obtain ⟨t', ht', rfl⟩ := Option.map_eq_some_iff.mp hg
  exact ⟨(hf t').id.trans (h i t' ht').1, (hf t').sound (h i t' ht').2⟩

theorem mapJob (h : d.Sound) {id : TransactionId} {f : Job → Job}
    (hf : ∀ job, d.job? id = some job → (f job).packet = job.packet) : (d.mapJob id f).Sound := by
  intro i t hg
  rw [get?_mapJob] at hg
  split at hg
  · next he =>
    subst he
    obtain ⟨t', ht', rfl⟩ := Option.map_eq_some_iff.mp hg
    rw [Transaction.id_mapJob]
    refine ⟨(h id t' ht').1, (h id t' ht').2.mapJob fun job hj => hf job ?_⟩
    simp [job?, ht', hj]
  · exact h i _ hg

theorem putTask (h : d.Sound) (task : TaskRecord) : (d.putTask task).Sound := by
  obtain ⟨hid, ht⟩ := h.transaction task.keys.transactionId
  exact h.set (by rw [Transaction.id_putTask, hid]) (ht.putTask task)

theorem putTasks (h : d.Sound) (tasks : List TaskRecord) : (d.putTasks tasks).1.Sound := by
  rw [putTasks_fst]
  induction tasks generalizing d with
  | nil => exact h
  | cons task tasks ih => exact ih (h.putTask task)

theorem holdReply (h : d.Sound) (now : Instant) (p : Packet) : (d.holdReply now p).Sound := by
  obtain ⟨hid, ht⟩ := h.transaction p.transactionId
  exact h.set (by rw [Transaction.id_holdReply, hid]) (ht.holdReply hid.symm now)

end Sound

@[simp] theorem transactionId_failureReply (p : Packet) (message : String) :
    (p.failureReply message).transactionId = p.transactionId := rfl

theorem receive_of_closes {p : Packet} (h : p.type.closes = true) (query : Instant) :
    d.receive query p = (d, .completed) := by
  simp [receive, h]

/-- All that can become of a packet that does not close its transaction. -/
theorem receive_cases {p : Packet} (hc : p.type.closes = false) (query : Instant) :
    ((d.transaction p.transactionId).Echoed p ∧
      ∃ t', Transaction.Alike (d.transaction p.transactionId) t' ∧
        d.receive query p = (d.set p.transactionId t', .acknowledged)) ∨
    (¬ (d.transaction p.transactionId).Echoed p ∧ (d.transaction p.transactionId).Repeated p ∧
      ∃ t', Transaction.Alike (d.transaction p.transactionId) t' ∧
        d.receive query p = (d.set p.transactionId t', .duplicate)) ∨
    (¬ (d.transaction p.transactionId).Echoed p ∧ ¬ (d.transaction p.transactionId).Repeated p ∧
      ∃ e, p.validate = .error e ∧ d.receive query p =
        (d.set p.transactionId ((d.transaction p.transactionId).holdReply query
          (p.failureReply e.message)), .rejected e.message)) ∨
    (¬ (d.transaction p.transactionId).Echoed p ∧ ¬ (d.transaction p.transactionId).Repeated p ∧
      p.validate = .ok () ∧ ∃ t', Transaction.Took (d.transaction p.transactionId) p t' ∧
        d.receive query p = (d.set p.transactionId t', .accepted)) := by
  unfold receive
  rw [hc, if_neg Bool.false_ne_true]
  dsimp only
  rcases (d.transaction p.transactionId).receive_cases d.waits query p with
    ⟨h, t', ha, he⟩ | ⟨h, hr, t', ha, he⟩ | ⟨h, hr, e, hv, he⟩ | ⟨h, hr, hv, t', ha, he⟩ <;> rw [he]
  · exact .inl ⟨h, t', ha, rfl⟩
  · exact .inr (.inl ⟨h, hr, t', ha, rfl⟩)
  · exact .inr (.inr (.inl ⟨h, hr, e, hv, rfl⟩))
  · exact .inr (.inr (.inr ⟨h, hr, hv, t', ha, rfl⟩))

theorem receive_ne_completed {p : Packet} (hc : p.type.closes = false) (query : Instant) :
    (d.receive query p).2 ≠ .completed := by
  rcases d.receive_cases hc query with
    ⟨-, t', -, he⟩ | ⟨-, -, t', -, he⟩ | ⟨-, -, e, -, he⟩ | ⟨-, -, -, t', -, he⟩ <;> simp [he]

theorem Sound.receive (h : d.Sound) (query : Instant) (p : Packet) :
    (d.receive query p).1.Sound := by
  obtain ⟨hid, ht⟩ := h.transaction p.transactionId
  cases hc : p.type.closes with
  | true => rwa [receive_of_closes hc]
  | false =>
    rcases d.receive_cases hc query with
      ⟨-, t', ha, he⟩ | ⟨-, -, t', ha, he⟩ | ⟨-, -, e, -, he⟩ | ⟨-, -, hv, t', ha, he⟩ <;> rw [he]
    · exact h.set (ha.id.trans hid) (ha.sound ht)
    · exact h.set (ha.id.trans hid) (ha.sound ht)
    · exact h.set (by rw [Transaction.id_holdReply, hid])
        (ht.holdReply (by rw [transactionId_failureReply, hid]) query)
    · exact h.set (ha.id.trans hid) (ha.sound ht hid.symm hv)

theorem Sound.perform (h : d.Sound) (m : Move) : (d.perform m).Sound := by
  cases m with
  | tell tasks => exact h.putTasks tasks
  | receive query p => exact h.receive query p
  | reply now p => exact h.holdReply now p
  | send now => exact h.mapAll fun t => t.alike_afterDue d.waits now
  | refresh query => exact h.mapAll fun t => t.alike_refresh d.waits query
  | purge id => exact h.purge id
  | purgeTaskOnly => exact h.purgeAll d.taskOnly
  | record id task => exact h.mapJob fun job _ => job.packet_putTask task
  | progress id p => exact h.mapJob fun _ _ => rfl

theorem Sound.performAll (h : d.Sound) (moves : List Move) : (d.performAll moves).Sound := by
  induction moves generalizing d with
  | nil => exact h
  | cons m moves ih => exact ih (h.perform m)

theorem sound_run (waits : WaitTimes) (moves : List Move) : (run waits moves).Sound :=
  (sound_start waits).performAll moves

end Docket

end SiteBroker
