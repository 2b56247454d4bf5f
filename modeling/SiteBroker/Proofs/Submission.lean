import SiteBroker.Proofs.History.Broker
import SiteBroker.Proofs.Ledger

/-! Tasks are submitted at most once: as long as its transaction lives, a task that the ledger has
as taken up is not asked for again. -/

namespace SiteBroker

def TaskRequest.taskId (r : TaskRequest) : TaskId :=
  ⟨r.keys.transactionId, r.keys.packetId, r.taskName⟩

namespace Exchange

/-- What a call tells of tasks. The answer to a request is about a task of the packet that it was
made for, and names the task. -/
def updates : Exchange → List (TaskId × TaskRecord)
  | ⟨.getTasks .., .ok tasks⟩ => List.map (fun t : TaskRecord => (t.id, t)) tasks
  | ⟨.submit r, .ok t⟩ => [(⟨r.keys.transactionId, r.keys.packetId, TaskRecord.name t⟩, t)]
  | _ => []

/-- The call tells of a task that it is to be submitted again. -/
def Reopens (k : TaskId) (x : Exchange) : Prop := ∃ t, (k, t) ∈ x.updates ∧ t.isOpen = true

end Exchange

def Deed.updates (e : Deed) : List (TaskId × TaskRecord) := e.exchange?.elim [] (·.updates)

theorem Deed.mem_updates {e : Deed} {u : TaskId × TaskRecord} :
    u ∈ e.updates ↔ ∃ x ∈ e.exchange?, u ∈ x.updates := by
  unfold updates
  cases e.exchange? <;> simp

theorem Deed.mem_exchanges_cons {e : Deed} {history : List Deed} {x : Exchange} :
    x ∈ (e :: history).filterMap exchange? ↔
      x ∈ e.exchange? ∨ x ∈ history.filterMap exchange? := by
  rw [List.filterMap_cons]
  cases e.exchange? <;> simp [eq_comm]

namespace Ledger

variable {l : Ledger} {k : TaskId}

/-- The task is on record, and it does not have to be submitted. -/
def TakenUp (l : Ledger) (k : TaskId) : Prop := ∃ t, l k = some t ∧ t.isOpen = false

def putAll (l : Ledger) (updates : List (TaskId × TaskRecord)) : Ledger :=
  updates.foldl (fun l u => l.put u.1 u.2) l

theorem putAll_tasks (tasks : List TaskRecord) :
    l.putAll (tasks.map fun t => (t.id, t)) = tasks.foldl (fun l t => l.put t.id t) l :=
  List.foldl_map

theorem TakenUp.put (h : l.TakenUp k) {k' : TaskId} {t : TaskRecord}
    (ht : k = k' → t.isOpen = false) : (l.put k' t).TakenUp k := by
  obtain ⟨old, hold, hopen⟩ := h
  by_cases hk : k = k'
  · refine ⟨t.overlay (some old), by simp [Ledger.put, ← hk, hold], ?_⟩
    unfold TaskRecord.overlay
    dsimp only
    split
    · exact hopen
    · exact ht hk
  · exact ⟨old, by simp [Ledger.put, hk, hold], hopen⟩

theorem TakenUp.putAll (h : l.TakenUp k) {updates : List (TaskId × TaskRecord)}
    (hfirm : ∀ t, (k, t) ∈ updates → t.isOpen = false) : (l.putAll updates).TakenUp k := by
  induction updates generalizing l with
  | nil => exact h
  | cons u updates ih =>
    obtain ⟨k', t⟩ := u
    refine ih (h.put fun hk => hfirm t ?_) fun t' ht' => hfirm t' (List.mem_cons_of_mem _ ht')
    rw [hk]
    exact List.mem_cons_self

/-- Nothing comes into the ledger but what is put there. -/
theorem of_put {k' : TaskId} {t u : TaskRecord} (h : l.put k' t k = some u) :
    l k = some u ∨ k = k' ∧ u = t := by
  by_cases hk : k = k'
  · rw [put, if_pos hk] at h
    obtain rfl := Option.some.inj h
    rcases t.overlay_eq_or (l k) with he | he
    · exact .inr ⟨hk, he⟩
    · exact .inl he
  · rw [put, if_neg hk] at h
    exact .inl h

theorem of_putAll {updates : List (TaskId × TaskRecord)} {u : TaskRecord}
    (h : l.putAll updates k = some u) : l k = some u ∨ (k, u) ∈ updates := by
  induction updates generalizing l with
  | nil => exact .inl h
  | cons v updates ih =>
    rcases ih h with hput | hm
    · rcases of_put hput with hl | ⟨hk, hu⟩
      · exact .inl hl
      · exact .inr (by simp [hk, hu])
    · exact .inr (List.mem_cons_of_mem v hm)

theorem takenUp_put {t : TaskRecord} (hnew : ∀ u, l k = some u → u.timestamp < t.timestamp)
    (ht : t.isOpen = false) : (l.put k t).TakenUp k := by
  refine ⟨t, ?_, ht⟩
  cases hk : l k with
  | none => simp [Ledger.put, hk]
  | some u => simp [Ledger.put, hk, TaskRecord.overlay, Instant.not_le.mpr (hnew u hk)]

end Ledger

namespace Situation

variable {a : Situation} {e : Deed} {k : TaskId}

/-- The transaction is there after each deed of the history. -/
def Keeps (id : TransactionId) (a : Situation) : List Deed → Prop
  | [] => True
  | e :: history => ((a.after e).docket.get? id).isSome = true ∧ (a.after e).Keeps id history

theorem ledger_after_of_move (hs : a.docket.Sound) {m : Docket.Move} (hm : e.moves = [m]) :
    (a.after e).docket.ledger = a.docket.ledger.perform a.docket m := by
  rw [after, hm]
  exact Docket.ledger_perform hs m

theorem after_of_no_moves (hm : e.moves = []) : (a.after e).docket = a.docket := by
  rw [after, hm]
  rfl

/-- What a deed makes of the record of a task: what it tells of the task is put there, or the record
is gone with its transaction. -/
def Records (a : Situation) (e : Deed) (k : TaskId) : Prop :=
  (a.after e).docket.ledger k = a.docket.ledger.putAll e.updates k ∨
    (a.after e).docket.ledger k = none ∧ (a.after e).docket.get? k.transaction = none

theorem records_of_no_moves (hm : e.moves = []) (hu : e.updates = []) : a.Records e k :=
  .inl (by rw [after_of_no_moves hm, hu]; rfl)

/-- Packets and replies carry the tasks from place to place, and the ledger does not change. -/
theorem records_of_unmoved (hs : a.docket.Sound) {m : Docket.Move} (hm : e.moves = [m])
    (hl : a.docket.ledger.perform a.docket m = a.docket.ledger) (hu : e.updates = []) :
    a.Records e k :=
  .inl (by rw [ledger_after_of_move hs hm, hl, hu]; rfl)

theorem records_of_purge (hs : a.docket.Sound) {id : TransactionId} (hm : e.moves = [.purge id])
    (hu : e.updates = []) : a.Records e k := by
  unfold Records
  have hgone : (a.after e).docket = a.docket.purge id := by
    rw [after, hm]
    rfl
  rw [ledger_after_of_move hs hm, hgone, Docket.get?_purge, hu, Ledger.perform, Ledger.drop]
  by_cases hk : k.transaction = id
  · exact .inr ⟨if_pos hk, if_pos hk.symm⟩
  · exact .inl (if_neg hk)

theorem records_of_droppedTaskOnly (hs : a.docket.Sound) : a.Records .droppedTaskOnly k := by
  unfold Records
  have hgone : (a.after .droppedTaskOnly).docket = a.docket.purgeAll a.docket.taskOnly := rfl
  rw [ledger_after_of_move hs rfl, hgone, Docket.get?_purgeAll, Ledger.perform,
    Ledger.foldl_drop]
  by_cases hk : k.transaction ∈ a.docket.taskOnly
  · exact .inr ⟨if_pos hk, if_pos hk⟩
  · exact .inl (if_neg hk)

/-- Of the calls, only those that bring tasks and that send the last packet of a transaction can
touch the record of a task. -/
theorem records_of_called (hs : a.docket.Sound) {x : Exchange} (ha : a.Allows (.called x)) :
    a.Records (.called x) k := by
  obtain ⟨call, outcome⟩ := x
  cases call with
  | getTasks active wait since =>
    cases outcome with
    | error _ => exact records_of_no_moves rfl rfl
    | ok tasks =>
      refine .inl ?_
      rw [ledger_after_of_move hs rfl]
      exact congrFun (Ledger.putAll_tasks tasks).symm k
  | submit request =>
    cases outcome with
    | error _ => exact records_of_no_moves rfl rfl
    | ok t =>
      obtain ⟨job, hjob, hp, -⟩ := ha
      refine .inl ?_
      rw [ledger_after_of_move hs rfl]
      simp only [Ledger.perform, hjob, hp]
      rfl
  | sendPacket p =>
    cases outcome with
    | error _ => exact records_of_no_moves rfl rfl
    | ok u =>
      cases he : p.expectsReply with
      | true => exact records_of_no_moves (by rw [Deed.moves_sendPacket, if_pos he]) rfl
      | false =>
        exact records_of_purge hs (by rw [Deed.moves_sendPacket, if_neg (by simp [he])]) rfl
  | clear id => exact records_of_no_moves rfl rfl
  | lookup request => exact records_of_no_moves rfl rfl
  | listPackets since => exact records_of_no_moves rfl rfl

theorem records_of_allowed (hs : a.docket.Sound) (ha : a.Allows e) (k : TaskId) :
    a.Records e k := by
  cases e with
  | called x => exact records_of_called hs ha
  | closed p outcome =>
    cases outcome with
    | error _ => exact records_of_no_moves rfl rfl
    | ok u => exact records_of_purge hs rfl rfl
  | droppedTaskOnly => exact records_of_droppedTaskOnly hs
  | took query p => exact records_of_unmoved hs rfl rfl rfl
  | progressed id p => exact records_of_unmoved hs rfl rfl rfl
  | replied now p => exact records_of_unmoved hs rfl rfl rfl
  | collected now => exact records_of_unmoved hs rfl rfl rfl
  | refreshed query => exact records_of_unmoved hs rfl rfl rfl

/-- A task that was taken up stays so, as long as its transaction lives and nothing tells that it is
open again. -/
theorem takenUp_after (hs : a.docket.Sound) (ha : a.Allows e) (h : a.docket.ledger.TakenUp k)
    (hk : ((a.after e).docket.get? k.transaction).isSome = true)
    (hr : ∀ x ∈ e.exchange?, ¬ x.Reopens k) : (a.after e).docket.ledger.TakenUp k := by
  rcases records_of_allowed hs ha k with hput | ⟨-, hgone⟩
  · have hfirm : ∀ t, (k, t) ∈ e.updates → t.isOpen = false := fun t ht => by
      obtain ⟨x, hx, hu⟩ := Deed.mem_updates.mp ht
      cases ho : t.isOpen with
      | true => exact absurd ⟨t, hu, ho⟩ (hr x hx)
      | false => rfl
    obtain ⟨t, ht, hopen⟩ := h.putAll hfirm
    exact ⟨t, hput.trans ht, hopen⟩
  · rw [hgone] at hk
    cases hk

theorem takenUp_afterAll (hs : a.docket.Sound) (h : a.docket.ledger.TakenUp k)
    {history : List Deed} (hl : a.Lawful history) (hk : a.Keeps k.transaction history)
    (hr : ∀ x ∈ history.filterMap Deed.exchange?, ¬ x.Reopens k) :
    (a.afterAll history).docket.ledger.TakenUp k := by
  induction history generalizing a with
  | nil => exact h
  | cons e history ih =>
    have hfirst : ∀ x ∈ e.exchange?, ¬ x.Reopens k := fun x hx =>
      hr x (Deed.mem_exchanges_cons.mpr (.inl hx))
    have hrest : ∀ x ∈ history.filterMap Deed.exchange?, ¬ x.Reopens k := fun x hx =>
      hr x (Deed.mem_exchanges_cons.mpr (.inr hx))
    exact ih (sound_after hs e) (takenUp_after hs hl.1 h hk.1 hfirst) hl.2 hk.2 hrest

/-- What is on record after a history was so before, or a call told of it. -/
theorem recorded_of_afterAll (hs : a.docket.Sound) {history : List Deed} (hl : a.Lawful history)
    {u : TaskRecord} (h : (a.afterAll history).docket.ledger k = some u) :
    a.docket.ledger k = some u ∨
      ∃ x ∈ history.filterMap Deed.exchange?, (k, u) ∈ x.updates := by
  induction history generalizing a with
  | nil => exact .inl h
  | cons e history ih =>
    rcases ih (sound_after hs e) hl.2 h with hafter | ⟨x, hx, hu⟩
    · rcases records_of_allowed hs hl.1 k with hput | ⟨hgone, -⟩
      · rcases Ledger.of_putAll (hput.symm.trans hafter) with hbefore | hu
        · exact .inl hbefore
        · obtain ⟨x, hx, hu⟩ := Deed.mem_updates.mp hu
          exact .inr ⟨x, Deed.mem_exchanges_cons.mpr (.inl hx), hu⟩
      · rw [hgone] at hafter
        cases hafter
    · exact .inr ⟨x, Deed.mem_exchanges_cons.mpr (.inr hx), hu⟩

theorem not_allows_submit {request : TaskRequest} (h : a.docket.ledger.TakenUp request.taskId)
    (outcome : Except ServiceError (Call.submit request).Answer) :
    ¬ a.Allows (.called ⟨.submit request, outcome⟩) := by
  rintro ⟨job, hjob, hp, ho⟩
  obtain ⟨t, ht, hopen⟩ := h
  obtain ⟨tr, htr, hj⟩ := Docket.get?_of_job? hjob
  rw [TaskRequest.taskId, Docket.ledger_of_get? htr, Transaction.record?_of_job? hj,
    if_pos hp] at ht
  simp [ht, hopen] at ho

theorem takenUp_of_submitted (hs : a.docket.Sound) {request : TaskRequest} {t : TaskRecord}
    (ha : a.Allows (.called ⟨.submit request, .ok t⟩)) (hname : t.name = request.taskName)
    (hopen : t.isOpen = false)
    (hnew : ∀ u, a.docket.ledger request.taskId = some u → u.timestamp < t.timestamp) :
    (a.after (.called ⟨.submit request, .ok t⟩)).docket.ledger.TakenUp request.taskId := by
  obtain ⟨job, hjob, hp, -⟩ := ha
  rw [ledger_after_of_move hs rfl]
  simp only [Ledger.perform, hjob, hp, hname]
  exact Ledger.takenUp_put hnew hopen

/-- Transactions are dropped or brought in along the history, not both. -/
def OneWay (history : List Deed) : Prop :=
  (∀ e ∈ history, e.drops = false) ∨ ∀ e ∈ history, e.opens = false

theorem OneWay.mono {history history' : List Deed} (h : OneWay history)
    (hsub : history' ⊆ history) : OneWay history' :=
  h.imp (fun hd e he => hd e (hsub he)) fun ho e he => ho e (hsub he)

theorem live_of_afterAll {history : List Deed} {id : TransactionId}
    (h : ((a.afterAll history).docket.get? id).isSome = true)
    (ho : ∀ e ∈ history, e.opens = false) : (a.docket.get? id).isSome = true := by
  induction history generalizing a with
  | nil => exact h
  | cons e history ih =>
    obtain ⟨hfirst, hrest⟩ := List.forall_mem_cons.mp ho
    exact Docket.live_of_performAll (ih h hrest) hfirst

/-- A transaction that is there before and after a history that goes one way is there all along. -/
theorem keeps_of_oneWay {history : List Deed} (h : OneWay history) {id : TransactionId}
    (hbefore : (a.docket.get? id).isSome = true)
    (hafter : ((a.afterAll history).docket.get? id).isSome = true) : a.Keeps id history := by
  induction history generalizing a with
  | nil => trivial
  | cons e history ih =>
    have hrest : OneWay history := h.mono (List.subset_cons_self e history)
    have hnext : ((a.after e).docket.get? id).isSome = true := by
      rcases h with hd | ho
      · exact Docket.live_performAll hbefore (hd e List.mem_cons_self)
      · exact live_of_afterAll hafter (List.forall_mem_cons.mp ho).2
    exact ⟨hnext, ih hrest hnext hafter⟩

theorem live_of_allows_submit {request : TaskRequest}
    {outcome : Except ServiceError TaskRecord}
    (h : a.Allows (.called ⟨.submit request, outcome⟩)) :
    (a.docket.get? request.keys.transactionId).isSome = true := by
  obtain ⟨job, hjob, -⟩ := h
  obtain ⟨t, ht, -⟩ := Docket.get?_of_job? hjob
  exact Option.isSome_of_eq_some ht

/-- The deed by which a request was made, among those of a history that made it. -/
theorem exists_submitted {history : List Deed} {before : List Exchange} {request : TaskRequest}
    {outcome : Except ServiceError TaskRecord}
    (h : before ++ [⟨.submit request, outcome⟩] <+: history.filterMap Deed.exchange?) :
    ∃ front rest, history = front ++ .called ⟨.submit request, outcome⟩ :: rest ∧
      front.filterMap Deed.exchange? = before := by
  obtain ⟨others, h⟩ := h
  rw [List.append_assoc, List.singleton_append, eq_comm, List.filterMap_eq_append_iff] at h
  obtain ⟨front, rest, rfl, rfl, hrest⟩ := h
  obtain ⟨silent, e, rest, rfl, hsilent, he, -⟩ := List.filterMap_eq_cons_iff.mp hrest
  have hcalled : e = .called ⟨.submit request, outcome⟩ := by
    cases e <;> cases he
    rfl
  subst hcalled
  refine ⟨front ++ silent, rest, by simp, ?_⟩
  rw [List.filterMap_append, List.filterMap_eq_nil_iff.mpr hsilent, List.append_nil]

/-- A task that was taken up is not asked for in a history that goes one way, before it is told that
the task is open again. -/
theorem exists_reopens (hs : a.docket.Sound) (htaken : a.docket.ledger.TakenUp k)
    (hlive : (a.docket.get? k.transaction).isSome = true) {history : List Deed}
    (hl : a.Lawful history) (hw : OneWay history) {between : List Exchange}
    {request : TaskRequest} {outcome : Except ServiceError (Call.submit request).Answer}
    (hid : request.taskId = k)
    (hcalls : between ++ [⟨.submit request, outcome⟩] <+: history.filterMap Deed.exchange?) :
    ∃ x ∈ between, x.Reopens k := by
  by_contra hno
  have hr : ∀ x ∈ between, ¬ x.Reopens k := fun x hx hre => hno ⟨x, hx, hre⟩
  obtain ⟨front, rest, rfl, rfl⟩ := exists_submitted hcalls
  obtain ⟨hfront, hallowed, -⟩ := lawful_append.mp hl
  have hlast : ((a.afterAll front).docket.get? k.transaction).isSome = true := by
    rw [← hid]
    exact live_of_allows_submit hallowed
  have hkeeps := keeps_of_oneWay (hw.mono (List.subset_append_left front _)) hlive hlast
  have htaken' := takenUp_afterAll hs htaken hfront hkeeps hr
  rw [← hid] at htaken'
  exact not_allows_submit htaken' outcome hallowed

end Situation

namespace Broker

variable {σ : Type} (setup : Setup σ)

def Live (b : Broker σ) (id : TransactionId) : Prop := (b.docket.get? id).isSome = true

/-- When a run of errands had made some calls, the record of the task had come in: it was there
when the errand then under way began, or a call of that errand told of it. -/
def Recorded (b : Broker σ) (errands : List Errand) (calls : List Exchange) (k : TaskId)
    (u : TaskRecord) : Prop :=
  ∃ before e after own, errands = before ++ e :: after ∧
    calls = (carryOutAll setup b before).calls ++ own ∧
    calls.length < (carryOutAll setup b (before ++ [e])).calls.length ∧
    ((carryOutAll setup b before).docket.ledger k = some u ∨ ∃ x ∈ own, (k, u) ∈ x.updates)

/-- After some calls of a run of errands, and before others that follow them at once, a transaction
is not there. -/
def Missing (b : Broker σ) (errands : List Errand) (calls between : List Exchange)
    (id : TransactionId) : Prop :=
  ∃ before after, errands = before ++ after ∧ calls <+: (carryOutAll setup b before).calls ∧
    (carryOutAll setup b before).calls <+: calls ++ between ∧
    ¬ (carryOutAll setup b before).Live id

theorem calls_of_afterAll {a : Situation} {b : Broker σ} {history : List Deed}
    (h : a.afterAll history = b.situation) :
    b.calls = a.calls ++ history.filterMap Deed.exchange? := by
  rw [← Situation.calls_afterAll, h]
  rfl

section

variable {setup} (hr : setup.registry = Registry.catalog setup.services)

include hr

theorem exists_history {b : Broker σ} {e : Errand} (hs : b.docket.Sound) (hfit : Fits setup b e) :
    ∃ history, b.situation.Lawful history ∧
      b.situation.afterAll history = (carryOut setup b e).situation ∧
      Situation.OneWay history := by
  rcases exists_deeds hr hs hfit with ⟨history, hl, he, hd⟩ | ⟨history, hl, he, ho⟩
  · exact ⟨history, hl, he, .inl hd⟩
  · exact ⟨history, hl, he, .inr ho⟩

/-- From some deeds of an errand on, and along the errands after it: a task that was taken up is
asked for again only after word that it is open again, or after the end of its transaction. -/
theorem exists_reopens_of_live {b : Broker σ} {a : Situation} {k : TaskId}
    (hs : a.docket.Sound) (htaken : a.docket.ledger.TakenUp k)
    (hstart : (a.docket.get? k.transaction).isSome = true) {history : List Deed}
    (hl : a.Lawful history) (hw : Situation.OneWay history)
    (hb : a.afterAll history = b.situation) {errands : List Errand} (hfit : FitAll setup b errands)
    {between : List Exchange} {request : TaskRequest}
    {outcome : Except ServiceError (Call.submit request).Answer} (hid : request.taskId = k)
    (hcalls : a.calls ++ (between ++ [⟨.submit request, outcome⟩]) <+:
      (carryOutAll setup b errands).calls)
    (hlive : ∀ before after, errands = before ++ after →
      (carryOutAll setup b before).calls <+: a.calls ++ between →
      (carryOutAll setup b before).Live k.transaction) :
    ∃ x ∈ between, x.Reopens k := by
  induction errands generalizing b a history between with
  | nil =>
    rw [carryOutAll, List.foldl_nil, calls_of_afterAll hb, List.prefix_append_right_inj] at hcalls
    exact Situation.exists_reopens hs htaken hstart hl hw hid hcalls
  | cons e errands ih =>
    have hwithin : between ++ [⟨.submit request, outcome⟩] <+:
        history.filterMap Deed.exchange? → ∃ x ∈ between, x.Reopens k :=
      Situation.exists_reopens hs htaken hstart hl hw hid
    have hnews := calls_of_afterAll hb
    have hgrown : a.calls ++ history.filterMap Deed.exchange? <+:
        (carryOutAll setup b (e :: errands)).calls :=
      hnews ▸ prefix_carryOutAll setup hr b (e :: errands)
    have hcompare := List.prefix_or_prefix_of_prefix hcalls hgrown
    rw [List.prefix_append_right_inj, List.prefix_append_right_inj, List.prefix_concat_iff]
      at hcompare
    rcases hcompare with hmade | hmade | ⟨later, rfl⟩
    · exact hwithin hmade
    · exact hwithin (hmade ▸ List.prefix_refl _)
    · -- The second request is made later, so the transaction is there when the errand ends.
      have hsplit : a.calls ++ (history.filterMap Deed.exchange? ++ later) = b.calls ++ later := by
        rw [hnews, List.append_assoc]
      have hend : b.Live k.transaction :=
        hlive [] (e :: errands) rfl (hsplit ▸ List.prefix_append b.calls later)
      by_cases hreopened : ∃ x ∈ history.filterMap Deed.exchange?, x.Reopens k
      · obtain ⟨x, hx, hre⟩ := hreopened
        exact ⟨x, List.mem_append_left later hx, hre⟩
      · have hkeeps := Situation.keeps_of_oneWay hw hstart (hb ▸ hend)
        have hheld := Situation.takenUp_afterAll hs htaken hl hkeeps
          fun x hx hre => hreopened ⟨x, hx, hre⟩
        have hsound := Situation.sound_afterAll hs history
        rw [hb] at hheld hsound
        obtain ⟨history', hl', hb', hw'⟩ := exists_history hr hsound hfit.1
        have hlater : b.calls ++ (later ++ [⟨.submit request, outcome⟩]) <+:
            (carryOutAll setup b (e :: errands)).calls := by
          rwa [← List.append_assoc, ← hsplit, List.append_assoc]
        obtain ⟨x, hx, hre⟩ := ih hsound hheld hend hl' hw' hb' hfit.2 hlater
          fun before after he hbefore => hlive (e :: before) after (congrArg (e :: ·) he)
            (hsplit ▸ hbefore)
        exact ⟨x, List.mem_append_right _ hx, hre⟩

/-- The same from the beginning of the errand on which the task is submitted. -/
theorem exists_reopens_of_submitted {b : Broker σ} {e : Errand} (hs : b.docket.Sound)
    (hfits : Fits setup b e) {errands : List Errand}
    (hfit : FitAll setup (carryOut setup b e) errands) {request request' : TaskRequest}
    {t : TaskRecord} {own others between : List Exchange}
    {outcome : Except ServiceError (Call.submit request').Answer}
    (hstep : (carryOut setup b e).calls = b.calls ++ (own ++ ⟨.submit request, .ok t⟩ :: others))
    (hname : t.name = request.taskName) (hopen : t.isOpen = false)
    (hnew : ∀ u, b.docket.ledger request.taskId = some u ∨
      (∃ x ∈ own, (request.taskId, u) ∈ x.updates) → u.timestamp < t.timestamp)
    (hid : request'.taskId = request.taskId)
    (hcalls : b.calls ++ own ++ [⟨.submit request, .ok t⟩] ++
      (between ++ [⟨.submit request', outcome⟩]) <+:
        (carryOutAll setup (carryOut setup b e) errands).calls)
    (hlive : ∀ before after, errands = before ++ after →
      (carryOutAll setup (carryOut setup b e) before).calls <+:
        b.calls ++ own ++ [⟨.submit request, .ok t⟩] ++ between →
      (carryOutAll setup (carryOut setup b e) before).Live request.keys.transactionId) :
    ∃ x ∈ between, x.Reopens request.taskId := by
  obtain ⟨history, hl, hend, hw⟩ := exists_history hr hs hfits
  have hnews := List.append_cancel_left ((calls_of_afterAll hend).symm.trans hstep)
  have hmade : own ++ [⟨.submit request, .ok t⟩] <+: history.filterMap Deed.exchange? :=
    ⟨others, by rw [hnews, List.append_assoc, List.singleton_append]⟩
  obtain ⟨front, rest, rfl, rfl⟩ := Situation.exists_submitted hmade
  obtain ⟨hfront, hallowed, hrest⟩ := Situation.lawful_append.mp hl
  have hs' : (b.situation.afterAll front).docket.Sound := Situation.sound_afterAll hs front
  have htaken := Situation.takenUp_of_submitted hs' hallowed hname hopen
    fun u hu => hnew u (Situation.recorded_of_afterAll hs hfront hu)
  have hthere : (((b.situation.afterAll front).after
      (.called ⟨.submit request, .ok t⟩)).docket.get? request.keys.transactionId).isSome = true :=
    Docket.live_performAll (Situation.live_of_allows_submit hallowed) rfl
  have hlogged : ((b.situation.afterAll front).after (.called ⟨.submit request, .ok t⟩)).calls =
      b.calls ++ front.filterMap Deed.exchange? ++ [⟨.submit request, .ok t⟩] := by
    rw [Situation.after, Situation.calls_afterAll]
    rfl
  have hrestWay : Situation.OneWay rest := hw.mono fun d hd => by simp [hd]
  rw [Situation.afterAll_append, Situation.afterAll_cons] at hend
  exact exists_reopens_of_live hr (Situation.sound_after hs' _) htaken hthere hrest hrestWay hend
    hfit hid (hlogged ▸ hcalls) (hlogged ▸ hlive)

end

/-- Whatever a broker is asked to do, and however the services answer, it is a run of errands, and
what it does is a lawful history. Of any two requests for one task that are made in such a run, the
answer to the first of which was newer than every record of the task that had come in and did not
leave the task open, the second comes after word that the task is open again, or after the end of
the transaction. -/
theorem run_submitsOnce (siteName : String) (s : Services σ) (localWaits waits : WaitTimes)
    (folder : SnapshotFolder) (outside : σ) :
    let setup : Setup σ := ⟨siteName, s, Registry.catalog s, localWaits⟩
    let start := Broker.start waits folder { outside }
    (∀ commands, ∃ errands, FitAll setup start errands ∧
      carryOutAll setup start errands = performAll setup start commands) ∧
    ∀ errands, FitAll setup start errands →
      (∃ history, (Situation.start waits).Lawful history ∧
        (Situation.start waits).afterAll history = (carryOutAll setup start errands).situation) ∧
      ∀ front request t between request' outcome rest,
        (carryOutAll setup start errands).calls = front ++ ⟨.submit request, .ok t⟩ ::
          between ++ ⟨.submit request', outcome⟩ :: rest →
        request'.taskId = request.taskId → t.name = request.taskName → t.isOpen = false →
        (∀ u, Recorded setup start errands front request.taskId u → u.timestamp < t.timestamp) →
        (∃ x ∈ between, x.Reopens request.taskId) ∨
          Missing setup start errands (front ++ [⟨.submit request, .ok t⟩]) between
            request.keys.transactionId := by
  intro setup start
  have hr : setup.registry = Registry.catalog setup.services := rfl
  have hstart : start.docket.Sound := Docket.sound_start waits
  refine ⟨exists_errands setup start, fun errands hfit =>
    ⟨leads_of_carries hr ⟨errands, hfit, rfl⟩ hstart, ?_⟩⟩
  intro front request t between request' outcome rest hcalls hid hname hopen hnew
  refine or_iff_not_imp_right.mpr fun hthere => ?_
  rw [List.append_assoc, List.cons_append] at hcalls
  obtain ⟨before, e, after, own, others, rfl, hfront, hstep⟩ :=
    exists_step_of_logged (prefix_carryOut setup hr) rfl hcalls
  change front = (carryOutAll setup start before).calls ++ own at hfront
  change (carryOut setup (carryOutAll setup start before) e).calls =
    (carryOutAll setup start before).calls ++ _ at hstep
  subst hfront
  obtain ⟨hbefore, hfits, hafter⟩ := (fitAll_append setup).mp hfit
  have hs : (carryOutAll setup start before).docket.Sound :=
    (leads_of_carries hr ⟨before, hbefore, rfl⟩ hstart).sound hstart
  have hrun : ∀ mid, carryOutAll setup start (before ++ e :: mid) =
      carryOutAll setup (carryOut setup (carryOutAll setup start before) e) mid := fun mid =>
    carryOutAll_append setup start before (e :: mid)
  have hmade : (carryOutAll setup start before).calls ++ own ++ [⟨.submit request, .ok t⟩] <+:
      (carryOut setup (carryOutAll setup start before) e).calls :=
    ⟨others, by rw [hstep]; simp⟩
  have hlong : ((carryOutAll setup start before).calls ++ own).length <
      (carryOutAll setup start (before ++ [e])).calls.length := by
    rw [hrun]
    exact Nat.lt_of_lt_of_le (by simp) hmade.length_le
  have hsecond : (carryOutAll setup start before).calls ++ own ++ [⟨.submit request, .ok t⟩] ++
      (between ++ [⟨.submit request', outcome⟩]) <+:
        (carryOutAll setup (carryOut setup (carryOutAll setup start before) e) after).calls :=
    ⟨rest, by rw [← hrun, hcalls]; simp⟩
  refine exists_reopens_of_submitted hr hs hfits hafter hstep hname hopen
    (fun u hu => hnew u ⟨before, e, after, own, rfl, rfl, hlong, hu⟩) hid hsecond
    fun mid after' he hmid => ?_
  rw [← hrun] at hmid ⊢
  by_contra hgone
  refine hthere ⟨before ++ e :: mid, after', by simp [he], ?_, hmid, hgone⟩
  rw [hrun]
  exact hmade.trans (prefix_carryOutAll setup hr _ mid)

end Broker

end SiteBroker
