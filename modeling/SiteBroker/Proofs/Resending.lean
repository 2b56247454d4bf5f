import SiteBroker.Proofs.Echo
import SiteBroker.Proofs.Holding

/-! When a reply is sent, and sent again, until the remote service has acknowledged it. The due time
of a reply is told from the moves alone; that the one timer of its transaction keeps to it is what
has to be shown. -/

namespace SiteBroker

namespace Transaction

variable {t : Transaction} {r : Packet} {acknowledged : Bool} {timer : Timer}

theorem due?_eq_some_iff {now : Instant} :
    t.due? now = some r ↔ ∃ timer, t.held = some ⟨.outgoing r false, timer⟩ ∧
      timer.target ≤ now := by
  unfold due?
  split
  · next reply timer hh =>
    rw [hh]
    by_cases hle : timer.target ≤ now <;> simp [hle]
  · next hne =>
    constructor
    · intro h
      cases h
    · rintro ⟨timer, hh, -⟩
      exact absurd hh (hne r timer)

theorem held_mapJob_of_reply (hh : t.held = some ⟨.outgoing r acknowledged, timer⟩)
    (f : Job → Job) : t.mapJob f = t := by
  simp [mapJob, hh]

theorem held_putTask_of_reply (hh : t.held = some ⟨.outgoing r acknowledged, timer⟩)
    (task : TaskRecord) : (t.putTask task).held = t.held := by
  rcases t.putTask_cases task with ⟨job, -, -, he⟩ | ⟨-, he⟩ <;> rw [he]
  · rw [held_mapJob_of_reply hh]
  · rfl

theorem held_refresh_of_reply (hh : t.held = some ⟨.outgoing r acknowledged, timer⟩)
    (waits : WaitTimes) (query : Instant) :
    ∃ timer', (t.refresh waits query).held = some ⟨.outgoing r acknowledged, timer'⟩ ∧
      (acknowledged = false → timer' = timer) := by
  cases acknowledged with
  | false => exact ⟨timer, by simp [refresh, hh], fun _ => rfl⟩
  | true =>
    by_cases hle : timer.target ≤ query
    · exact ⟨Timer.set waits query .human, by simp [refresh, hh, hle, rearm], fun h => by cases h⟩
    · exact ⟨timer, by simp [refresh, hh, hle], fun h => by cases h⟩

theorem due?_isSome_of_reply (hh : t.held = some ⟨.outgoing r acknowledged, timer⟩)
    (now : Instant) : (t.due? now).isSome = true ↔ t.due? now = some r := by
  constructor
  · intro hsome
    obtain ⟨q, hq⟩ := Option.isSome_iff_exists.mp hsome
    obtain ⟨timer', hq', -⟩ := due?_eq_some_iff.mp hq
    rw [hh] at hq'
    cases hq'
    exact hq
  · intro hr
    rw [hr, Option.isSome_some]

theorem held_afterDue_of_reply (hh : t.held = some ⟨.outgoing r acknowledged, timer⟩)
    (waits : WaitTimes) (now : Instant) :
    (t.afterDue waits now).held = some ⟨.outgoing r acknowledged,
      if (t.due? now).isSome then Timer.set waits now .imminent else timer⟩ := by
  unfold afterDue
  split
  · simp [rearm, hh]
  · exact hh

/-- A packet that has a record is no repetition of a reply, which has none. -/
theorem not_repeated_of_reply (hh : t.held = some ⟨.outgoing r acknowledged, timer⟩)
    (hr : r.header.recordId = none) {p : Packet} (hp : p.header.recordId.isSome = true) :
    ¬ t.Repeated p := by
  rintro ⟨q, hq, hs⟩
  simp only [packet?, content?, hh, Option.map_some, Content.packet, Option.some.injEq] at hq
  subst hq
  simp only [Packet.sameIdentity, Bool.and_eq_true, beq_iff_eq, hr] at hs
  rw [← hs.1.2] at hp
  cases hp

theorem echoed_iff_of_reply (hh : t.held = some ⟨.outgoing r acknowledged, timer⟩) {p : Packet} :
    t.Echoed p ↔ p.isEchoOf r = true := by
  simp [Echoed, isOutgoing, direction, packet?, content?, hh, Content.packet]

theorem held_acknowledge_of_reply (hh : t.held = some ⟨.outgoing r acknowledged, timer⟩)
    (waits : WaitTimes) (query : Instant) :
    ∃ timer', (t.acknowledge waits query).held = some ⟨.outgoing r true, timer'⟩ := by
  cases acknowledged with
  | false => exact ⟨_, by rw [acknowledge, hh]⟩
  | true => exact ⟨timer, by rw [acknowledge, hh]; exact hh⟩

theorem held_holdReply_of_new (h : t.holdsReply r = false) (now : Instant) :
    (t.holdReply now r).held = some ⟨.outgoing r false, Timer.immediate now⟩ := by
  simp [holdReply, h]

end Transaction

namespace Docket

variable {d : Docket} {r : Packet} {due : Instant} {m : Move} {moves : List Move}

/-- The move is the delivery of the remote service's copy of a reply. -/
def Acknowledges (r : Packet) : Move → Bool
  | .receive _ p => p.transactionId == r.transactionId && !p.type.closes && p.isEchoOf r
  | _ => false

/-- When a reply that was due at some time is due after a move. Only taking it for sending puts it
off. -/
noncomputable def postpone (d : Docket) (r : Packet) (due : Instant) : Move → Instant
  | .send now => open Classical in
    if r ∈ d.due now then now.after d.waits.autoReply else due
  | _ => due

noncomputable def dueAfter (r : Packet) (due : Instant) (d : Docket) : List Move → Instant
  | [] => due
  | m :: moves => dueAfter r (d.postpone r due m) (d.perform m) moves

/-- None of the moves gives the transaction another packet to hold or drops it. -/
def Lasts (id : TransactionId) (d : Docket) : List Move → Prop
  | [] => True
  | m :: moves => ¬ d.Occupies id m ∧ ¬ d.Drops id m ∧ Lasts id (d.perform m) moves

/-- A packet that comes in has a record at the remote service. -/
def Delivers : Move → Prop
  | .receive _ p => p.header.recordId.isSome = true
  | _ => True

/-- A reply is held, and unless it was acknowledged its timer stands at the time it is due. -/
def Awaits (d : Docket) (r : Packet) (acknowledged : Bool) (due : Instant) : Prop :=
  ∃ t timer, d.get? r.transactionId = some t ∧ t.held = some ⟨.outgoing r acknowledged, timer⟩ ∧
    (acknowledged = false → timer.target = due)

theorem mem_due_iff_due? {t : Transaction} (hs : d.Sound) (hg : d.get? r.transactionId = some t)
    (now : Instant) : r ∈ d.due now ↔ t.due? now = some r := by
  unfold Docket.due
  rw [List.mem_filterMap]
  constructor
  · rintro ⟨u, hu, hr⟩
    obtain ⟨i, hi⟩ := mem_toList.mp hu
    obtain ⟨timer, hh, -⟩ := Transaction.due?_eq_some_iff.mp hr
    have hp : u.packet? = some r := by
      simp [Transaction.packet?, Transaction.content?, hh, Content.packet]
    obtain ⟨hid, hsound⟩ := hs i u hi
    have hkey : r.transactionId = i := (hsound.keyed hp).trans hid
    rw [hkey, hi] at hg
    cases hg
    exact hr
  · intro hr
    exact ⟨t, mem_toList.mpr ⟨_, hg⟩, hr⟩

namespace Awaits

variable {acknowledged : Bool}

theorem of_get?_eq (h : d.Awaits r acknowledged due) {d' : Docket}
    (hg : d'.get? r.transactionId = d.get? r.transactionId) : d'.Awaits r acknowledged due := by
  obtain ⟨t, timer, ht, h⟩ := h
  exact ⟨t, timer, hg.trans ht, h⟩

theorem mapAll {f : Transaction → Transaction} {acknowledged' : Bool} {due' : Instant}
    (h : d.Awaits r acknowledged due)
    (hf : ∀ t timer, d.get? r.transactionId = some t →
      t.held = some ⟨.outgoing r acknowledged, timer⟩ →
      (acknowledged = false → timer.target = due) →
      ∃ timer', (f t).held = some ⟨.outgoing r acknowledged', timer'⟩ ∧
        (acknowledged' = false → timer'.target = due')) :
    (d.mapAll f).Awaits r acknowledged' due' := by
  obtain ⟨t, timer, hg, hh, htarget⟩ := h
  obtain ⟨timer', hh', htarget'⟩ := hf t timer hg hh htarget
  exact ⟨f t, timer', by rw [get?_mapAll, hg, Option.map_some], hh', htarget'⟩

theorem mapJob (h : d.Awaits r acknowledged due) (i : TransactionId) (f : Job → Job) :
    (d.mapJob i f).Awaits r acknowledged due := by
  obtain ⟨t, timer, hg, hh, htarget⟩ := h
  refine ⟨t, timer, ?_, hh, htarget⟩
  rw [get?_mapJob, hg]
  split
  · rw [Option.map_some, Transaction.held_mapJob_of_reply hh]
  · rfl

theorem putTask (h : d.Awaits r acknowledged due) (task : TaskRecord) :
    (d.putTask task).Awaits r acknowledged due := by
  obtain ⟨t, timer, hg, hh, htarget⟩ := h
  by_cases hi : task.keys.transactionId = r.transactionId
  · refine ⟨t.putTask task, timer, ?_, by rw [Transaction.held_putTask_of_reply hh, hh], htarget⟩
    unfold Docket.putTask
    rw [get?_set, if_pos hi, hi, transaction_of_get? hg]
  · refine ⟨t, timer, ?_, hh, htarget⟩
    unfold Docket.putTask
    rw [get?_set, if_neg hi, hg]

theorem putTasks (h : d.Awaits r acknowledged due) (tasks : List TaskRecord) :
    (d.putTasks tasks).1.Awaits r acknowledged due := by
  rw [putTasks_fst]
  induction tasks generalizing d with
  | nil => exact h
  | cons task tasks ih => exact ih (h.putTask task)

/-- Only a copy of the reply changes anything: other packets for the transaction would be new work
or be turned down with a reply that is held already. -/
theorem receive (h : d.Awaits r acknowledged due) (hr : r.header.recordId = none)
    {query : Instant} {p : Packet} (hp : p.header.recordId.isSome = true)
    (hlasts : ¬ d.Occupies r.transactionId (.receive query p)) :
    (d.receive query p).1.Awaits r (acknowledged || Acknowledges r (.receive query p)) due := by
  obtain ⟨t, timer, hg, hh, htarget⟩ := id h
  cases hc : p.type.closes with
  | true => simpa [receive_of_closes hc, Acknowledges, hc] using h
  | false =>
    by_cases hi : p.transactionId = r.transactionId
    · have ht : d.transaction p.transactionId = t := by rw [hi, transaction_of_get? hg]
      by_cases hecho : p.isEchoOf r = true
      · have hechoed := (Transaction.echoed_iff_of_reply hh).mpr hecho
        obtain ⟨timer', hh'⟩ := Transaction.held_acknowledge_of_reply hh d.waits query
        have hack : Acknowledges r (.receive query p) = true := by
          simp [Acknowledges, hi, hc, hecho]
        refine ⟨t.acknowledge d.waits query, timer', ?_, ?_, ?_⟩
        · unfold Docket.receive
          rw [hc, if_neg Bool.false_ne_true]
          dsimp only
          rw [ht, Transaction.receive_of_echoed hechoed]
          exact (get?_set ..).trans (if_pos hi)
        · rw [hack, Bool.or_true, hh']
        · rw [hack, Bool.or_true]
          intro hf
          cases hf
      · have hack : Acknowledges r (.receive query p) = false := by
          simp [Acknowledges, hecho]
        rw [hack, Bool.or_false]
        rcases d.receive_cases hc query with
          ⟨hechoed, -⟩ | ⟨-, hrepeated, -⟩ | ⟨-, -, e, -, he⟩ | ⟨-, -, -, t', -, he⟩
        · rw [ht, Transaction.echoed_iff_of_reply hh] at hechoed
          exact absurd hechoed hecho
        · rw [ht] at hrepeated
          exact absurd hrepeated (Transaction.not_repeated_of_reply hh hr hp)
        -- The failure reply must be held already, for else it would take the place of the other.
        · have hheld : d.holdsReply (p.failureReply e.message) = true := by
            by_contra hnew
            refine hlasts (.inr ⟨query, _, ⟨rfl, ?_, e.message, by rw [he], rfl⟩, hi⟩)
            simpa using hnew
          have hkept : (d.transaction p.transactionId).holdReply query
              (p.failureReply e.message) = d.transaction p.transactionId :=
            Transaction.holdReply_of_held hheld query
          rw [he, hkept, ht]
          refine h.of_get?_eq ?_
          rw [get?_set, if_pos hi, hg]
        · exact absurd (.inl ⟨query, p, rfl, hi, by rw [he]⟩) hlasts
    · have hack : Acknowledges r (.receive query p) = false := by simp [Acknowledges, hi]
      rw [hack, Bool.or_false]
      exact h.of_get?_eq (get?_receive_of_ne hi query)

theorem holdReply (h : d.Awaits r acknowledged due) {now : Instant} {p : Packet}
    (hlasts : ¬ d.Occupies r.transactionId (.reply now p)) :
    (d.holdReply now p).Awaits r acknowledged due := by
  refine h.of_get?_eq ?_
  rw [get?_holdReply]
  split
  · next hi =>
    have hheld : d.holdsReply p = true := by
      by_contra hnew
      exact hlasts (.inr ⟨now, p, ⟨rfl, rfl, by simpa using hnew⟩, hi⟩)
    obtain ⟨t, timer, hg, -⟩ := h
    rw [Transaction.holdReply_of_held hheld, hi, transaction_of_get? hg, hg]
  · rfl

theorem perform (h : d.Awaits r acknowledged due) (hs : d.Sound) (hr : r.header.recordId = none)
    (hm : Delivers m) (hoccupies : ¬ d.Occupies r.transactionId m)
    (hdrops : ¬ d.Drops r.transactionId m) :
    (d.perform m).Awaits r (acknowledged || Acknowledges r m) (d.postpone r due m) := by
  have hquiet : ∀ {d' : Docket} {due' : Instant}, d'.Awaits r acknowledged due' →
      d'.Awaits r (acknowledged || false) due' := fun h' => by rwa [Bool.or_false]
  cases m with
  | tell tasks => exact hquiet (h.putTasks tasks)
  | receive query p => exact h.receive hr hm hoccupies
  | reply now p => exact hquiet (h.holdReply hoccupies)
  | send now =>
    refine hquiet (h.mapAll fun t timer hg hh htarget => ?_)
    refine ⟨_, Transaction.held_afterDue_of_reply hh d.waits now, fun hopen => ?_⟩
    have hiff : (t.due? now).isSome = true ↔ r ∈ d.due now :=
      (Transaction.due?_isSome_of_reply hh now).trans (mem_due_iff_due? hs hg now).symm
    by_cases hdue : r ∈ d.due now
    · rw [if_pos (hiff.mpr hdue), postpone, if_pos hdue]
      rfl
    · rw [if_neg fun hsome => hdue (hiff.mp hsome), postpone, if_neg hdue]
      exact htarget hopen
  | refresh query =>
    refine hquiet (h.mapAll fun t timer _ hh htarget => ?_)
    obtain ⟨timer', hh', hsame⟩ := Transaction.held_refresh_of_reply hh d.waits query
    exact ⟨timer', hh', fun hopen => (congrArg Timer.target (hsame hopen)).trans (htarget hopen)⟩
  | purge i =>
    have hi : ¬ i = r.transactionId := hdrops
    refine hquiet (h.of_get?_eq ?_)
    rw [Docket.perform, get?_purge, if_neg hi]
  | purgeTaskOnly =>
    have hi : r.transactionId ∉ d.taskOnly := hdrops
    refine hquiet (h.of_get?_eq ?_)
    rw [Docket.perform, get?_purgeAll, if_neg hi]
  | record i task => exact hquiet (h.mapJob i _)
  | progress i p => exact hquiet (h.mapJob i _)

theorem performAll (h : d.Awaits r acknowledged due) (hs : d.Sound)
    (hr : r.header.recordId = none) (hm : ∀ m ∈ moves, Delivers m)
    (hlasts : Lasts r.transactionId d moves) :
    (d.performAll moves).Awaits r (acknowledged || moves.any (Acknowledges r))
      (dueAfter r due d moves) := by
  induction moves generalizing d acknowledged due with
  | nil => simpa [performAll, dueAfter] using h
  | cons m moves ih =>
    obtain ⟨hoccupies, hdrops, hrest⟩ := hlasts
    have hone := h.perform hs hr (hm m List.mem_cons_self) hoccupies hdrops
    have hall := ih hone (hs.perform m) (fun m' hm' => hm m' (List.mem_cons_of_mem m hm')) hrest
    rw [List.any_cons, ← Bool.or_assoc]
    exact hall

end Awaits

end Docket

end SiteBroker
