import SiteBroker.Proofs.Docket

/-! Which moves give a transaction a packet to hold. A transaction that holds one holds some packet
for as long as it lives. -/

namespace SiteBroker

theorem Transaction.packet?_isSome {t : Transaction} : t.packet?.isSome = t.held.isSome := by
  simp [packet?, content?]

theorem Transaction.holds_holdReply (t : Transaction) (now : Instant) (p : Packet) :
    (t.holdReply now p).packet?.isSome = true := by
  cases h : t.holdsReply p with
  | true =>
    rw [t.holdReply_of_held h]
    simp only [Transaction.holdsReply, Bool.and_eq_true] at h
    exact Option.isSome_of_any h.2
  | false => rw [(t.holdReply_of_new h now).packet, Option.isSome_some]

namespace Docket

variable {d : Docket} {id : TransactionId} {m : Move}

/-- From a time on the move has a reply held that was not held before: the reply to a job, or the
answer to a packet that is turned down. -/
def Answers (d : Docket) (since : Instant) (r : Packet) : Move → Prop
  | .reply now p => now = since ∧ p = r ∧ d.holdsReply r = false
  | .receive query p => query = since ∧ d.holdsReply r = false ∧
      ∃ message, (d.receive query p).2 = .rejected message ∧ p.failureReply message = r
  | _ => False

/-- The move gives a transaction another packet to hold: new work, or a reply. -/
def Occupies (d : Docket) (id : TransactionId) (m : Move) : Prop :=
  (∃ query p, m = .receive query p ∧ p.transactionId = id ∧ (d.receive query p).2 = .accepted) ∨
    ∃ since r, d.Answers since r m ∧ r.transactionId = id

def Drops (d : Docket) (id : TransactionId) : Move → Prop
  | .purge i => i = id
  | .purgeTaskOnly => id ∈ d.taskOnly
  | _ => False

/-- The move can bring in a transaction that was not there. -/
def Move.opens : Move → Bool
  | .tell _ | .receive .. | .reply .. => true
  | _ => false

/-- The move can drop a transaction. -/
def Move.drops : Move → Bool
  | .purge _ | .purgeTaskOnly => true
  | _ => false

theorem mem_toList {t : Transaction} : t ∈ d.toList ↔ ∃ i, d.get? i = some t :=
  (Lists.ofTreeMap d.transactions).mem_iff

theorem Sound.mem_taskOnly (hs : d.Sound) {t : Transaction} (hg : d.get? id = some t) :
    id ∈ d.taskOnly ↔ t.held = none := by
  unfold taskOnly
  simp only [List.mem_map, List.mem_filter, Option.isNone_iff_eq_none, mem_toList]
  constructor
  · rintro ⟨u, ⟨⟨i, hu⟩, hh⟩, hid⟩
    obtain rfl : i = id := (hs i u hu).1.symm.trans hid
    rw [hg] at hu
    cases hu
    exact hh
  · intro hh
    exact ⟨t, ⟨⟨id, hg⟩, hh⟩, (hs id t hg).1⟩

theorem get?_holdReply (now : Instant) (p : Packet) (i : TransactionId) :
    (d.holdReply now p).get? i = if p.transactionId = i then
      some ((d.transaction p.transactionId).holdReply now p) else d.get? i := get?_set ..

theorem get?_receive_of_ne {p : Packet} (h : p.transactionId ≠ id) (query : Instant) :
    (d.receive query p).1.get? id = d.get? id := by
  cases hc : p.type.closes with
  | true => rw [receive_of_closes hc]
  | false =>
    have hother : ∀ t, (d.set p.transactionId t).get? id = d.get? id := fun t => by
      rw [get?_set, if_neg h]
    rcases d.receive_cases hc query with
      ⟨-, t, -, he⟩ | ⟨-, -, t, -, he⟩ | ⟨-, -, e, -, he⟩ | ⟨-, -, -, t, -, he⟩ <;>
      rw [he] <;> exact hother _

theorem closes_of_receive {query : Instant} {p : Packet} {disposition : Disposition}
    (h : (d.receive query p).2 = disposition) (hd : disposition ≠ .completed) :
    p.type.closes = false := by
  cases hc : p.type.closes with
  | false => rfl
  | true =>
    rw [receive_of_closes hc] at h
    exact absurd h.symm hd

theorem held_receive {p : Packet} (hc : p.type.closes = false) (query : Instant) :
    ∃ t, (d.receive query p).1.get? p.transactionId = some t ∧ t.packet?.isSome = true := by
  have hset : ∀ t : Transaction, t.packet?.isSome = true →
      ∃ t', (d.set p.transactionId t).get? p.transactionId = some t' ∧ t'.packet?.isSome = true :=
    fun t ht => ⟨t, by rw [get?_set, if_pos rfl], ht⟩
  rcases d.receive_cases hc query with
    ⟨⟨ho, -⟩, t, ha, he⟩ | ⟨-, ⟨q, hq, -⟩, t, ha, he⟩ | ⟨-, -, e, -, he⟩ | ⟨-, -, -, t, ht, he⟩ <;>
    rw [he]
  · exact hset t (by rw [ha.packet]; exact (Transaction.isOutgoing_iff.mp ho).1)
  · exact hset t (by rw [ha.packet, hq]; rfl)
  · exact hset _ (Transaction.holds_holdReply _ query _)
  · obtain ⟨job, hj, -⟩ := ht.job
    exact hset t (by rw [Transaction.packet?_of_job? hj]; rfl)

theorem held_of_occupies (h : d.Occupies id m) :
    ∃ t, (d.perform m).get? id = some t ∧ t.packet?.isSome = true := by
  rcases h with ⟨query, p, rfl, rfl, hp⟩ | ⟨since, r, ha, rfl⟩
  · exact held_receive (closes_of_receive hp (by simp)) query
  · cases m with
    | reply now p =>
      obtain ⟨-, rfl, -⟩ := ha
      refine ⟨_, ?_, Transaction.holds_holdReply (d.transaction p.transactionId) now p⟩
      rw [perform, get?_holdReply, if_pos rfl]
    | receive query p =>
      obtain ⟨-, -, message, hp, rfl⟩ := ha
      exact held_receive (closes_of_receive hp (by simp)) query
    | _ => exact ha.elim

theorem held_putTasks {t : Transaction} (hg : d.get? id = some t) (ht : t.packet?.isSome = true)
    (tasks : List TaskRecord) :
    ∃ t', (d.putTasks tasks).1.get? id = some t' ∧ t'.packet? = t.packet? := by
  rw [putTasks_fst]
  induction tasks generalizing d t with
  | nil => exact ⟨t, hg, rfl⟩
  | cons task tasks ih =>
    have hput : (t.putTask task).packet? = t.packet? := by
      rcases t.putTask_cases task with ⟨job, -, -, he⟩ | ⟨-, he⟩ <;> rw [he]
      · exact Transaction.packet?_mapJob fun job _ => job.packet_putTask task
      · rfl
    have hone : ∃ t', (d.putTask task).get? id = some t' ∧ t'.packet? = t.packet? := by
      unfold putTask
      rw [get?_set]
      split
      · next hi =>
        subst hi
        rw [transaction_of_get? hg]
        exact ⟨_, rfl, hput⟩
      · exact ⟨t, hg, rfl⟩
    obtain ⟨t', hg', hp'⟩ := hone
    obtain ⟨t'', hg'', hp''⟩ := ih hg' (by rw [hp', ht])
    exact ⟨t'', hg'', hp''.trans hp'⟩

theorem live_putTasks (h : (d.get? id).isSome = true) (tasks : List TaskRecord) :
    ((d.putTasks tasks).1.get? id).isSome = true := by
  rw [putTasks_fst]
  induction tasks generalizing d with
  | nil => exact h
  | cons task tasks ih =>
    refine ih ?_
    unfold putTask
    rw [get?_set]
    split
    · rfl
    · exact h

theorem live_receive (h : (d.get? id).isSome = true) (query : Instant) (p : Packet) :
    ((d.receive query p).1.get? id).isSome = true := by
  cases hc : p.type.closes with
  | true => rwa [receive_of_closes hc]
  | false =>
    by_cases hi : p.transactionId = id
    · subst hi
      obtain ⟨t, ht, -⟩ := held_receive (d := d) hc query
      rw [ht]
      rfl
    · rwa [get?_receive_of_ne hi]

theorem live_mapAll (h : (d.get? id).isSome = true) (f : Transaction → Transaction) :
    ((d.mapAll f).get? id).isSome = true := by
  rwa [get?_mapAll, Option.isSome_map]

theorem isSome_get?_mapJob (i : TransactionId) (f : Job → Job) :
    ((d.mapJob i f).get? id).isSome = (d.get? id).isSome := by
  rw [get?_mapJob]
  split
  · rw [Option.isSome_map]
  · rfl

theorem live_perform (h : (d.get? id).isSome = true) (hm : m.drops = false) :
    ((d.perform m).get? id).isSome = true := by
  cases m with
  | tell tasks => exact live_putTasks h tasks
  | receive query p => exact live_receive h query p
  | reply now p =>
    rw [perform, get?_holdReply]
    split
    · rfl
    · exact h
  | send now => exact live_mapAll h (·.afterDue d.waits now)
  | refresh query => exact live_mapAll h (·.refresh d.waits query)
  | record i task => rwa [perform, isSome_get?_mapJob]
  | progress i p => rwa [perform, isSome_get?_mapJob]
  | purge i => cases hm
  | purgeTaskOnly => cases hm

theorem live_of_perform (h : ((d.perform m).get? id).isSome = true) (hm : m.opens = false) :
    (d.get? id).isSome = true := by
  cases m with
  | send now => rwa [perform, afterDue, get?_mapAll, Option.isSome_map] at h
  | refresh query => rwa [perform, refresh, get?_mapAll, Option.isSome_map] at h
  | record i task => rwa [perform, isSome_get?_mapJob] at h
  | progress i p => rwa [perform, isSome_get?_mapJob] at h
  | purge i =>
    rw [perform, get?_purge] at h
    split at h
    · cases h
    · exact h
  | purgeTaskOnly =>
    rw [perform, get?_purgeAll] at h
    split at h
    · cases h
    · exact h
  | tell tasks => cases hm
  | receive query p => cases hm
  | reply now p => cases hm

theorem live_performAll {moves : List Move} (h : (d.get? id).isSome = true)
    (hm : moves.any (·.drops) = false) : ((d.performAll moves).get? id).isSome = true := by
  induction moves generalizing d with
  | nil => exact h
  | cons m moves ih =>
    rw [List.any_cons, Bool.or_eq_false_iff] at hm
    exact ih (live_perform h hm.1) hm.2

theorem live_of_performAll {moves : List Move} (h : ((d.performAll moves).get? id).isSome = true)
    (hm : moves.any (·.opens) = false) : (d.get? id).isSome = true := by
  induction moves generalizing d with
  | nil => exact h
  | cons m moves ih =>
    rw [List.any_cons, Bool.or_eq_false_iff] at hm
    exact live_of_perform (ih h hm.2) hm.1

theorem held_perform {t t' : Transaction} (hg : d.get? id = some t)
    (ht : t.packet?.isSome = true) (hg' : (d.perform m).get? id = some t') :
    t'.packet?.isSome = true := by
  have halike : ∀ {f : Transaction → Transaction}, (∀ u, Transaction.Alike u (f u)) →
      (d.mapAll f).get? id = some t' → t'.packet?.isSome = true := fun {f} hf h => by
    rw [get?_mapAll, hg] at h
    cases h
    rw [(hf t).packet, ht]
  have hjob : ∀ {i : TransactionId} {f : Job → Job}, (∀ job, (f job).packet = job.packet) →
      (d.mapJob i f).get? id = some t' → t'.packet?.isSome = true := fun {i f} hf h => by
    rw [get?_mapJob, hg] at h
    split at h <;> cases h
    · rw [Transaction.packet?_mapJob fun job _ => hf job, ht]
    · exact ht
  cases m with
  | tell tasks =>
    obtain ⟨u, hu, hp⟩ := held_putTasks hg ht tasks
    rw [perform, hu] at hg'
    cases hg'
    rw [hp, ht]
  | receive query p =>
    by_cases hi : p.transactionId = id
    · cases hc : p.type.closes with
      | true =>
        rw [perform, receive_of_closes hc, hg] at hg'
        cases hg'
        exact ht
      | false =>
        obtain ⟨u, hu, hp⟩ := held_receive (d := d) hc query
        rw [perform, ← hi, hu] at hg'
        cases hg'
        exact hp
    · rw [perform, get?_receive_of_ne hi, hg] at hg'
      cases hg'
      exact ht
  | reply now p =>
    rw [perform, get?_holdReply, hg] at hg'
    split at hg' <;> cases hg'
    · exact Transaction.holds_holdReply _ now p
    · exact ht
  | send now => exact halike (fun u => u.alike_afterDue d.waits now) hg'
  | refresh query => exact halike (fun u => u.alike_refresh d.waits query) hg'
  | purge i =>
    rw [perform, get?_purge, hg] at hg'
    split at hg' <;> cases hg'
    exact ht
  | purgeTaskOnly =>
    rw [perform, get?_purgeAll, hg] at hg'
    split at hg' <;> cases hg'
    exact ht
  | record i task => exact hjob (fun job => job.packet_putTask task) hg'
  | progress i p => exact hjob (f := ({ · with progress := p })) (fun _ => rfl) hg'

end Docket

end SiteBroker
