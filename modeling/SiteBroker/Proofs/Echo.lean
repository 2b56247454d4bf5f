import SiteBroker.Proofs.Docket

/-! The remote service's copies of our replies. A copy is known by the reply that its transaction
holds, so it is never taken for new work while that reply has its place. -/

namespace SiteBroker

namespace Docket

variable {d : Docket} {id : TransactionId} {r : Packet}

/-- A transaction holds a reply. -/
def Holds (d : Docket) (id : TransactionId) (r : Packet) : Prop :=
  ∃ t, d.get? id = some t ∧ t.isOutgoing = true ∧ t.packet? = some r

/-- The move takes the packet that a transaction holds out of its place: another packet is accepted
or turned down, another reply is held, or the transaction is dropped. -/
def Displaces (d : Docket) (id : TransactionId) : Move → Prop
  | .receive query p => p.transactionId = id ∧
      ((d.receive query p).2 = .accepted ∨ ∃ message, (d.receive query p).2 = .rejected message)
  | .reply _ p => p.transactionId = id ∧ d.holdsReply p = false
  | .purge i => i = id
  | .purgeTaskOnly => id ∈ d.taskOnly
  | .tell _ | .send _ | .refresh _ | .record .. | .progress .. => False

/-- None of the moves takes the packet of a transaction out of its place. -/
def Undisturbed (id : TransactionId) (d : Docket) : List Move → Prop
  | [] => True
  | m :: moves => ¬ d.Displaces id m ∧ Undisturbed id (d.perform m) moves

theorem Holds.of_alike {t t' : Transaction} (ho : t.isOutgoing = true) (hp : t.packet? = some r)
    (ha : Transaction.Alike t t') {d' : Docket} (hg' : d'.get? id = some t') : d'.Holds id r :=
  ⟨t', hg', ha.isOutgoing_eq.trans ho, ha.packet.trans hp⟩

theorem Holds.of_get?_eq (h : d.Holds id r) {d' : Docket} (hg : d'.get? id = d.get? id) :
    d'.Holds id r := by
  obtain ⟨t, ht, h⟩ := h
  exact ⟨t, hg.trans ht, h⟩

theorem Holds.mapAll (h : d.Holds id r) {f : Transaction → Transaction}
    (hf : ∀ t, Transaction.Alike t (f t)) : (d.mapAll f).Holds id r := by
  obtain ⟨t, hg, ho, hp⟩ := h
  exact .of_alike ho hp (hf t) (by rw [get?_mapAll, hg, Option.map_some])

theorem Holds.mapJob (h : d.Holds id r) (i : TransactionId) (f : Job → Job) :
    (d.mapJob i f).Holds id r := by
  obtain ⟨t, hg, ho, hp⟩ := h
  have hj : t.job? = none := (Transaction.isOutgoing_iff.mp ho).2
  refine ⟨t, ?_, ho, hp⟩
  rw [get?_mapJob, hg]
  split
  · rw [Option.map_some, Transaction.mapJob_of_no_job hj]
  · rfl

theorem Holds.putTask (h : d.Holds id r) (task : TaskRecord) : (d.putTask task).Holds id r := by
  obtain ⟨t, hg, ho, hp⟩ := h
  have hj : t.job? = none := (Transaction.isOutgoing_iff.mp ho).2
  by_cases hi : task.keys.transactionId = id
  · subst hi
    have ht := transaction_of_get? hg
    have hpark : t.putTask task = t.park task := by simp [Transaction.putTask, hj]
    refine ⟨t.park task, ?_, ho, hp⟩
    unfold Docket.putTask
    rw [get?_set, if_pos rfl, ht, hpark]
  · refine Holds.of_get?_eq ⟨t, hg, ho, hp⟩ ?_
    unfold Docket.putTask
    rw [get?_set, if_neg hi]

theorem Holds.putTasks (h : d.Holds id r) (tasks : List TaskRecord) :
    (d.putTasks tasks).1.Holds id r := by
  rw [putTasks_fst]
  induction tasks generalizing d with
  | nil => exact h
  | cons task tasks ih => exact ih (h.putTask task)

theorem Holds.receive (h : d.Holds id r) {query : Instant} {p : Packet}
    (hm : ¬ d.Displaces id (.receive query p)) : (d.receive query p).1.Holds id r := by
  obtain ⟨t, hg, ho, hp⟩ := h
  cases hc : p.type.closes with
  | true =>
    rw [receive_of_closes hc]
    exact ⟨t, hg, ho, hp⟩
  | false =>
    by_cases hi : p.transactionId = id
    -- Copies and repetitions leave the reply in its place; the other two outcomes displace it.
    · subst hi
      rcases d.receive_cases hc query with
        ⟨-, t', ha, he⟩ | ⟨-, -, t', ha, he⟩ | ⟨-, -, e, -, he⟩ | ⟨-, -, -, t', -, he⟩
      · rw [transaction_of_get? hg] at ha
        rw [he]
        exact .of_alike ho hp ha (by rw [get?_set, if_pos rfl])
      · rw [transaction_of_get? hg] at ha
        rw [he]
        exact .of_alike ho hp ha (by rw [get?_set, if_pos rfl])
      · exact absurd ⟨rfl, .inr ⟨_, by rw [he]⟩⟩ hm
      · exact absurd ⟨rfl, .inl (by rw [he])⟩ hm
    · have hother : ∀ t', (d.set p.transactionId t').get? id = d.get? id := fun t' => by
        rw [get?_set, if_neg hi]
      refine Holds.of_get?_eq ⟨t, hg, ho, hp⟩ ?_
      rcases d.receive_cases hc query with
        ⟨-, t', -, he⟩ | ⟨-, -, t', -, he⟩ | ⟨-, -, e, -, he⟩ | ⟨-, -, -, t', -, he⟩ <;>
        rw [he] <;> exact hother _

theorem Holds.holdReply (h : d.Holds id r) {now : Instant} {p : Packet}
    (hm : ¬ d.Displaces id (.reply now p)) : (d.holdReply now p).Holds id r := by
  refine h.of_get?_eq ?_
  unfold Docket.holdReply
  rw [get?_set]
  split
  · next hi =>
    obtain ⟨t, hg, -⟩ := h
    have hh : d.holdsReply p = true := by
      cases hb : d.holdsReply p with
      | true => rfl
      | false => exact absurd ⟨hi, hb⟩ hm
    unfold Docket.holdsReply at hh
    rw [Transaction.holdReply_of_held hh, hi, transaction_of_get? hg, hg]
  · rfl

theorem Holds.perform (h : d.Holds id r) {m : Move} (hm : ¬ d.Displaces id m) :
    (d.perform m).Holds id r := by
  cases m with
  | tell tasks => exact h.putTasks tasks
  | receive query p => exact h.receive hm
  | reply now p => exact h.holdReply hm
  | send now => exact h.mapAll fun t => t.alike_afterDue d.waits now
  | refresh query => exact h.mapAll fun t => t.alike_refresh d.waits query
  | purge i =>
    refine h.of_get?_eq ?_
    have hi : ¬ i = id := hm
    rw [Docket.perform, get?_purge, if_neg hi]
  | purgeTaskOnly =>
    refine h.of_get?_eq ?_
    have hi : id ∉ d.taskOnly := hm
    rw [Docket.perform, get?_purgeAll, if_neg hi]
  | record i task => exact h.mapJob i _
  | progress i p => exact h.mapJob i _

theorem Holds.performAll (h : d.Holds id r) {moves : List Move} (hm : Undisturbed id d moves) :
    (d.performAll moves).Holds id r := by
  induction moves generalizing d with
  | nil => exact h
  | cons m moves ih => exact ih (h.perform hm.1) hm.2

theorem holds_holdReply (h : d.holdsReply r = false) (now : Instant) :
    (d.holdReply now r).Holds r.transactionId r := by
  have ha := Transaction.holdReply_of_new h now
  exact ⟨_, by rw [Docket.holdReply, get?_set, if_pos rfl], ha.isOutgoing, ha.packet⟩

theorem Holds.echoed (h : d.Holds r.transactionId r) {e : Packet}
    (hid : e.transactionId = r.transactionId) (he : e.isEchoOf r = true) :
    (d.transaction e.transactionId).Echoed e := by
  obtain ⟨t, hg, ho, hp⟩ := h
  rw [hid, transaction_of_get? hg]
  exact ⟨ho, r, hp, he⟩

/-- A packet becomes new work exactly if it is complete and neither a copy of the reply that its
transaction holds nor a repetition of the packet that it holds. -/
theorem receive_eq_accepted_iff {e : Packet} (hc : e.type.closes = false) (query : Instant) :
    (d.receive query e).2 = .accepted ↔ e.validate = .ok () ∧
      ¬ (d.transaction e.transactionId).Echoed e ∧
      ¬ (d.transaction e.transactionId).Repeated e := by
  rcases d.receive_cases hc query with
    ⟨h, t', -, he⟩ | ⟨h, hr, t', -, he⟩ | ⟨h, hr, v, hv, he⟩ | ⟨h, hr, hv, t', -, he⟩ <;>
    simp [*]

theorem receive_of_echoed {e : Packet} (hc : e.type.closes = false)
    (h : (d.transaction e.transactionId).Echoed e) (query : Instant) :
    (d.receive query e).2 = .acknowledged := by
  rcases d.receive_cases hc query with
    ⟨-, t', -, he⟩ | ⟨hn, -⟩ | ⟨hn, -⟩ | ⟨hn, -⟩
  · rw [he]
  all_goals exact absurd h hn

/-- A copy of a reply acknowledges it for as long as the reply has its place. Once another packet
took that place, the copy is judged like any packet. -/
theorem receive_copy_of_reply {waits : WaitTimes} {before after : List Move} {now query : Instant}
    {r e : Packet} (hnew : (run waits before).holdsReply r = false)
    (hid : e.transactionId = r.transactionId) (hecho : e.isEchoOf r = true)
    (hopen : e.type.closes = false) :
    (Undisturbed r.transactionId ((run waits before).holdReply now r) after →
      ((run waits (before ++ .reply now r :: after)).receive query e).2 = .acknowledged) ∧
    (((run waits (before ++ .reply now r :: after)).receive query e).2 = .accepted ↔
      e.validate = .ok () ∧
      ¬ ((run waits (before ++ .reply now r :: after)).transaction e.transactionId).Echoed e ∧
      ¬ ((run waits (before ++ .reply now r :: after)).transaction
        e.transactionId).Repeated e) := by
  refine ⟨fun hkept => receive_of_echoed hopen ?_ query, receive_eq_accepted_iff hopen query⟩
  have hrun : run waits (before ++ .reply now r :: after) =
      ((run waits before).holdReply now r).performAll after := by
    rw [run, performAll_append]
    rfl
  rw [hrun]
  exact ((holds_holdReply hnew now).performAll hkept).echoed hid hecho

def projectEnd : Packet where
  type := .requestProjectInactivate
  header := ⟨some 101, 5, 42, "ORIG", "REMOTE", "LOCAL", none, none, none⟩
  body := Fields.ofList [("ProjectID", .str "p"), ("ResourceList", .arr [.str "cluster"])]

/-- The remote service's copy of the reply to it. -/
def projectEndCopy : Packet :=
  { projectEnd.reply with header := { projectEnd.replyHeader with recordId := some 102 } }

theorem receive_copy_eq_acknowledged :
    (run ⟨10000, 60000, 3600000⟩ [.receive .epoch projectEnd]).holdsReply projectEnd.reply = false ∧
    ((run ⟨10000, 60000, 3600000⟩ ([.receive .epoch projectEnd] ++ .reply .epoch projectEnd.reply ::
      [.send .epoch, .receive .epoch projectEndCopy])).receive .epoch projectEndCopy).2 =
        .acknowledged := by
  have hnew : (run ⟨10000, 60000, 3600000⟩ [.receive .epoch projectEnd]).holdsReply
      projectEnd.reply = false := by decide +kernel
  have hcopy : ((((run ⟨10000, 60000, 3600000⟩ [.receive .epoch projectEnd]).holdReply .epoch
      projectEnd.reply).perform (.send .epoch)).receive .epoch projectEndCopy).2 =
      .acknowledged := by decide +kernel
  refine ⟨hnew, (receive_copy_of_reply hnew rfl rfl rfl).1 ⟨id, ?_, trivial⟩⟩
  rintro ⟨-, h | ⟨message, h⟩⟩ <;> rw [hcopy] at h <;> cases h

/-- The request came again between the reply and its copy, so the copy is new work. -/
theorem receive_copy_eq_accepted :
    (run ⟨10000, 60000, 3600000⟩ [.receive .epoch projectEnd]).holdsReply projectEnd.reply = false ∧
    projectEndCopy.transactionId = projectEnd.reply.transactionId ∧
    projectEndCopy.isEchoOf projectEnd.reply = true ∧ projectEndCopy.type.closes = false ∧
    ((run ⟨10000, 60000, 3600000⟩ [.receive .epoch projectEnd, .reply .epoch projectEnd.reply,
      .receive .epoch projectEnd]).receive .epoch projectEndCopy).2 = .accepted ∧
    ((run ⟨10000, 60000, 3600000⟩ [.receive .epoch projectEnd, .reply .epoch projectEnd.reply,
      .receive .epoch projectEnd]).receive .epoch projectEndCopy).1.jobs.map (·.packet.type) =
        [.notifyProjectInactivate] := by
  decide +kernel

end Docket

end SiteBroker
