import SiteBroker.Proofs.Transaction.Packets

/-! A transaction with its parts side by side, and the operations as they set one part after the
other. A step between two of them leaves a sheet that is no transaction, so each operation as a
whole is compared with the operation on the transaction. -/

namespace SiteBroker

structure Sheet where
  id : TransactionId
  packet : Option Packet := none
  direction : Direction := .incoming
  acknowledged : Bool := false
  job : Option Job := none
  parked : Std.ExtTreeMap String TaskList := ∅
  timer : PollTimer

namespace Sheet

def new (waits : WaitTimes) (id : TransactionId) : Sheet := { id, timer := .new waits }

def isOutgoing (s : Sheet) : Bool := s.packet.isSome && s.direction == .outgoing

def rearm (s : Sheet) (base : Instant) (c : DelayClass) : Sheet :=
  { s with timer := .ofTimer s.timer.waits (Timer.set s.timer.waits base c) }

def mapJob (s : Sheet) (f : Job → Job) : Sheet := { s with job := s.job.map f }

/-- Adds a task to those set aside for a packet. -/
def setAside (s : Sheet) (packetId : String) (tasks : List TaskRecord) : Sheet :=
  { s with parked := s.parked.insert packetId ((s.parked.getD packetId ∅).putAll tasks).1 }

def putTask (s : Sheet) (task : TaskRecord) : Sheet :=
  if s.job.any (·.packetId == task.keys.packetId) then s.mapJob (·.putTask task)
  else
    let tasks := (s.parked.getD task.keys.packetId ∅).put task
    { s with parked := s.parked.insert task.keys.packetId tasks }

/-- Takes the job out and keeps its tasks. -/
def retire (s : Sheet) : Sheet :=
  match s.job with
  | none => s
  | some job =>
    let s := { s with job := none }
    if job.tasks.isEmpty then s else s.setAside job.packetId job.tasks.toList

/-- What is done to a sheet. It stays as it was left when that ends in an error. -/
abbrev Change (α : Type) : Type := EStateM ValidationError Sheet α

def checked {α : Type} : Except ValidationError α → Change α
  | .ok a => pure a
  | .error e => throw e

/-- Takes a packet for new work. The old job is out of its place before the new one is made, which
could fail. -/
def accept (query : Instant) (p : Packet) : Change Disposition := do
  checked p.validate
  modify retire
  let tasks := (← get).parked.getD p.packetId ∅
  modify fun s => { s with parked := s.parked.erase p.packetId }
  let job ← checked (Job.ofPacket p tasks)
  modify ({ · with packet := some p })
  modify ({ · with job := some job })
  modify ({ · with direction := .incoming })
  modify ({ · with acknowledged := false })
  modify (·.rearm query .human)
  return .accepted

def acknowledge (query : Instant) : Change Disposition := do
  unless (← get).acknowledged do
    modify ({ · with acknowledged := true })
    modify (·.rearm query .human)
  return .acknowledged

def repeated (query : Instant) : Change Disposition := do
  if (← get).timer.target.all (· < query) then modify (·.rearm query .human)
  return .duplicate

def receive (query : Instant) (p : Packet) : Change Disposition := do
  let s ← get
  match s.packet with
  | some held =>
    if s.direction == .outgoing && p.isEchoOf held then acknowledge query
    else if held.sameIdentity p then repeated query
    else accept query p
  | none => accept query p

def holdReply (s : Sheet) (now : Instant) (p : Packet) : Sheet :=
  if s.isOutgoing && s.packet.any (·.sameIdentity p) then s
  else
    let s := s.retire
    let s := { s with packet := some p }
    let s := { s with direction := .outgoing }
    let s := { s with acknowledged := false }
    { s with timer := .ofTimer s.timer.waits (Timer.immediate now) }

def due? (s : Sheet) (now : Instant) : Option Packet :=
  if !s.isOutgoing || s.acknowledged || !s.timer.isDue now then none else s.packet

def afterDue (s : Sheet) (now : Instant) : Sheet :=
  if (s.due? now).isSome then s.rearm now .imminent else s

def refresh (s : Sheet) (query : Instant) : Sheet :=
  if s.packet.isNone || (s.isOutgoing && !s.acknowledged) then s
  else if s.timer.target.any (· ≤ query) then s.rearm query .human
  else s

section

variable {s : Sheet} {α β : Type}

theorem get_bind (f : Sheet → Change β) : (get >>= f) s = f s s := rfl

theorem modify_bind (f : Sheet → Sheet) (g : Change β) :
    (modify f >>= fun _ => g) s = g (f s) := rfl

theorem checked_bind {r : Except ValidationError α} {a : α} (h : r = .ok a) (f : α → Change β) :
    (checked r >>= f) s = f a s := by
  rw [h]
  rfl

theorem checked_bind_error {r : Except ValidationError α} {e : ValidationError} (h : r = .error e)
    (f : α → Change β) : (checked r >>= f) s = .error e s := by
  rw [h]
  rfl

end

variable {s : Sheet} {query : Instant} {p : Packet}

theorem accept_error {e : ValidationError} (h : p.validate = .error e) :
    accept query p s = .error e s := checked_bind_error h _

/-- A complete packet has a record, so its job can be made. -/
theorem accept_ok (h : p.validate = .ok ()) (s : Sheet) (query : Instant) :
    ∃ job, Job.ofPacket p (s.retire.parked.getD p.packetId ∅) = .ok job ∧
      accept query p s = .ok .accepted { s.retire with
        packet := some p
        job := some job
        direction := .incoming
        acknowledged := false
        parked := s.retire.parked.erase p.packetId
        timer := .ofTimer s.retire.timer.waits (Timer.set s.retire.timer.waits query .human) } := by
  obtain ⟨n, hn⟩ := Packet.recordId_of_validate h
  obtain ⟨job, hjob, -⟩ := Job.ofPacket_eq hn (s.retire.parked.getD p.packetId ∅)
  refine ⟨job, hjob, ?_⟩
  unfold accept
  rw [checked_bind h, modify_bind, get_bind, modify_bind, checked_bind hjob]
  rfl

theorem acknowledge_ok (s : Sheet) (query : Instant) : ∃ s',
    acknowledge query s = .ok .acknowledged s' := by
  unfold acknowledge
  rw [get_bind]
  cases s.acknowledged <;> exact ⟨_, rfl⟩

theorem repeated_ok (s : Sheet) (query : Instant) : ∃ s',
    repeated query s = .ok .duplicate s' := by
  unfold repeated
  rw [get_bind]
  split <;> exact ⟨_, rfl⟩

theorem receive_eq : receive query p s = match s.packet with
    | some held =>
      if s.direction == .outgoing && p.isEchoOf held then acknowledge query s
      else if held.sameIdentity p then repeated query s
      else accept query p s
    | none => accept query p s := by
  unfold receive
  rw [get_bind]
  cases s.packet with
  | none => rfl
  | some held =>
    dsimp only
    split_ifs <;> rfl

theorem receive_error {s' : Sheet} {e : ValidationError}
    (h : receive query p s = .error e s') : s' = s ∧ p.validate = .error e := by
  have haccept : accept query p s = .error e s' → s' = s ∧ p.validate = .error e := by
    intro ha
    cases hv : p.validate with
    | error v =>
      rw [accept_error hv] at ha
      cases ha
      exact ⟨rfl, rfl⟩
    | ok u =>
      obtain ⟨job, -, hok⟩ := accept_ok hv s query
      rw [hok] at ha
      cases ha
  rw [receive_eq] at h
  split at h
  · split_ifs at h
    · obtain ⟨s₁, hok⟩ := acknowledge_ok s query
      rw [hok] at h
      cases h
    · obtain ⟨s₁, hok⟩ := repeated_ok s query
      rw [hok] at h
      cases h
    · exact haccept h
  · exact haccept h

end Sheet

namespace Transaction

/-- Whether the transaction holds a reply that was acknowledged. -/
def isAcknowledged (t : Transaction) : Bool :=
  match t.content? with
  | some (.outgoing _ acknowledged) => acknowledged
  | _ => false

def sheet (t : Transaction) (waits : WaitTimes) : Sheet where
  id := t.id
  packet := t.packet?
  direction := t.direction
  acknowledged := t.isAcknowledged
  job := t.job?
  parked := t.parked
  timer := (t.timer?.map (PollTimer.ofTimer waits)).getD (.new waits)

variable {t : Transaction} {waits : WaitTimes}

theorem sheet_of_free (h : t.held = none) : t.sheet waits =
    { id := t.id, parked := t.parked, timer := .new waits } := by
  simp [sheet, packet?, direction, isAcknowledged, job?, timer?, content?, h]

theorem sheet_of_job {job : Job} {timer : Timer} (h : t.held = some ⟨.incoming job, timer⟩) :
    t.sheet waits = {
      id := t.id
      packet := some job.packet
      job := some job
      parked := t.parked
      timer := .ofTimer waits timer } := by
  simp [sheet, packet?, direction, isAcknowledged, job?, timer?, content?, h, Content.packet,
    Content.job?]

theorem sheet_of_reply {reply : Packet} {acknowledged : Bool} {timer : Timer}
    (h : t.held = some ⟨.outgoing reply acknowledged, timer⟩) :
    t.sheet waits = {
      id := t.id
      packet := some reply
      direction := .outgoing
      acknowledged := acknowledged
      parked := t.parked
      timer := .ofTimer waits timer } := by
  simp [sheet, packet?, direction, isAcknowledged, job?, timer?, content?, h, Content.packet,
    Content.job?]

theorem held_cases (t : Transaction) : t.held = none ∨
    (∃ job timer, t.held = some ⟨.incoming job, timer⟩) ∨
    ∃ reply acknowledged timer, t.held = some ⟨.outgoing reply acknowledged, timer⟩ := by
  rcases h : t.held with _ | ⟨job | ⟨reply, acknowledged⟩, timer⟩
  · exact .inl rfl
  · exact .inr (.inl ⟨job, timer, rfl⟩)
  · exact .inr (.inr ⟨reply, acknowledged, timer, rfl⟩)

@[simp] theorem timer_waits_sheet : (t.sheet waits).timer.waits = waits := by
  unfold sheet
  cases t.timer? <;> rfl

@[simp] theorem isOutgoing_sheet : (t.sheet waits).isOutgoing = t.isOutgoing := by
  rcases t.held_cases with h | ⟨job, timer, h⟩ | ⟨reply, acknowledged, timer, h⟩
  · rw [sheet_of_free h]
    simp [Sheet.isOutgoing, isOutgoing, direction, content?, h]
  · rw [sheet_of_job h]
    simp [Sheet.isOutgoing, isOutgoing, direction, content?, h]
  · rw [sheet_of_reply h]
    simp [Sheet.isOutgoing, isOutgoing, direction, content?, h]

theorem sheet_mapJob {f : Job → Job} (hf : ∀ job, (f job).packet = job.packet) :
    (t.mapJob f).sheet waits = (t.sheet waits).mapJob f := by
  rcases t.held_cases with h | ⟨job, timer, h⟩ | ⟨reply, acknowledged, timer, h⟩
  · rw [sheet_of_free h, sheet_of_free (by simp [mapJob, h])]
    simp [Sheet.mapJob, mapJob, h]
  · have hm : t.mapJob f = { t with held := some ⟨.incoming (f job), timer⟩ } := by
      simp [mapJob, h]
    rw [hm, sheet_of_job h, sheet_of_job rfl, hf]
    rfl
  · have hm : t.mapJob f = t := by simp [mapJob, h]
    rw [hm, sheet_of_reply h]
    rfl

theorem sheet_putTask (task : TaskRecord) :
    (t.putTask task).sheet waits = (t.sheet waits).putTask task := by
  unfold Sheet.putTask
  have hj : (t.sheet waits).job = t.job? := rfl
  rcases t.putTask_cases task with ⟨job, hjob, hp, he⟩ | ⟨hn, he⟩ <;> rw [he, hj]
  · rw [hjob, if_pos (by simp [hp])]
    exact sheet_mapJob fun job => job.packet_putTask task
  · have hnone : ¬ t.job?.any (·.packetId == task.keys.packetId) = true := by
      simp only [Option.any_eq_true, beq_iff_eq, not_exists, not_and]
      exact hn
    rw [if_neg hnone]
    rfl

theorem retire_sheet :
    (t.sheet waits).retire = { t.sheet waits with job := none, parked := t.retired } := by
  rcases t.held_cases with h | ⟨job, timer, h⟩ | ⟨reply, acknowledged, timer, h⟩
  · rw [sheet_of_free h]
    simp [Sheet.retire, retired, job?, content?, h]
  · have hj : t.job? = some job := by simp [job?, content?, h, Content.job?]
    rw [sheet_of_job h]
    simp only [Sheet.retire, retired, hj]
    split <;> rfl
  · rw [sheet_of_reply h]
    simp [Sheet.retire, retired, job?, content?, h, Content.job?]

theorem accept_sheet (query : Instant) (p : Packet) :
    Sheet.accept query p (t.sheet waits) = match t.accept waits query p with
      | .ok t' => .ok .accepted (t'.sheet waits)
      | .error e => .error e (t.sheet waits) := by
  cases hv : p.validate with
  | error e => rw [Sheet.accept_error hv, accept_error hv]
  | ok u =>
    obtain ⟨job, hjob, hsheet⟩ := Sheet.accept_ok hv (t.sheet waits) query
    rw [retire_sheet] at hjob hsheet
    have hp : job.packet = p := by
      obtain ⟨n, hn⟩ := Packet.recordId_of_validate hv
      obtain ⟨job', hjob', hp, -⟩ := Job.ofPacket_eq hn (t.retired.getD p.packetId ∅)
      rw [hjob] at hjob'
      cases hjob'
      exact hp
    let t' : Transaction := { t with
      held := some ⟨.incoming job, Timer.set waits query .human⟩
      parked := t.retired.erase p.packetId }
    have haccept : t.accept waits query p = .ok t' := by
      unfold accept
      rw [hv]
      simp only [hjob]
      rfl
    have htaken : t'.sheet waits = _ := sheet_of_job rfl
    rw [hsheet, haccept]
    dsimp only
    rw [htaken, hp, timer_waits_sheet]
    rfl

theorem rearm_sheet (h : t.held.isSome = true) (base : Instant) (c : DelayClass) :
    (t.rearm waits base c).sheet waits = (t.sheet waits).rearm base c := by
  obtain ⟨⟨content, timer⟩, hh⟩ := Option.isSome_iff_exists.mp h
  unfold Sheet.rearm
  rw [timer_waits_sheet]
  simp [sheet, rearm, hh, packet?, direction, isAcknowledged, job?, timer?, content?]

theorem repeated_sheet {held : Held} (h : t.held = some held) (query : Instant) :
    Sheet.repeated query (t.sheet waits) = .ok .duplicate
      ((if held.timer.target < query then t.rearm waits query .human else t).sheet waits) := by
  have htimer : (t.sheet waits).timer.target = some held.timer.target := by
    simp [sheet, timer?, h, PollTimer.ofTimer]
  unfold Sheet.repeated
  rw [Sheet.get_bind, htimer]
  by_cases hlt : held.timer.target < query
  · rw [if_pos hlt, rearm_sheet (by rw [h]; rfl), if_pos (by simpa using hlt)]
    rfl
  · rw [if_neg hlt, if_neg (by simpa using hlt)]
    rfl

theorem acknowledge_sheet (h : t.isOutgoing = true) (query : Instant) :
    Sheet.acknowledge query (t.sheet waits) =
      .ok .acknowledged ((t.acknowledge waits query).sheet waits) := by
  unfold Sheet.acknowledge
  rw [Sheet.get_bind]
  rcases t.held_cases with hh | ⟨job, timer, hh⟩ | ⟨reply, acknowledged, timer, hh⟩
  · simp [isOutgoing, direction, content?, hh] at h
  · simp [isOutgoing, direction, content?, hh] at h
  · cases acknowledged with
    | false =>
      let t' : Transaction := { t with
        held := some ⟨.outgoing reply true, Timer.set waits query .human⟩ }
      have hack : t.acknowledge waits query = t' := by simp [acknowledge, hh, t']
      have hsheet : t'.sheet waits = _ := sheet_of_reply rfl
      rw [hack, hsheet, sheet_of_reply hh]
      rfl
    | true =>
      have hack : t.acknowledge waits query = t := by simp [acknowledge, hh]
      rw [hack, sheet_of_reply hh]
      rfl

theorem receive_sheet (query : Instant) (p : Packet) :
    Sheet.receive query p (t.sheet waits) = match t.receive waits query p with
      | .ok (t', disposition) => .ok disposition (t'.sheet waits)
      | .error e => .error e (t.sheet waits) := by
  have hnew : Sheet.accept query p (t.sheet waits) =
      match (t.accept waits query p).map (·, Disposition.accepted) with
        | .ok (t', disposition) => .ok disposition (t'.sheet waits)
        | .error e => .error e (t.sheet waits) := by
    rw [accept_sheet]
    cases t.accept waits query p <;> rfl
  rw [Sheet.receive_eq]
  unfold receive
  cases h : t.held with
  | none =>
    have hp : (t.sheet waits).packet = none := by rw [sheet_of_free h]
    rw [hp]
    exact hnew
  | some held =>
    have hp : (t.sheet waits).packet = some held.content.packet := by
      simp [sheet, packet?, content?, h]
    have ho : ((t.sheet waits).direction == .outgoing) = t.isOutgoing := rfl
    rw [hp, ho]
    dsimp only
    by_cases hecho : (t.isOutgoing && p.isEchoOf held.content.packet) = true
    · rw [if_pos hecho, if_pos hecho]
      exact acknowledge_sheet (Bool.and_eq_true_iff.mp hecho).1 query
    · rw [if_neg hecho, if_neg hecho]
      by_cases hsame : held.content.packet.sameIdentity p = true
      · rw [if_pos hsame, if_pos hsame]
        exact repeated_sheet h query
      · rw [if_neg hsame, if_neg hsame]
        exact hnew

theorem sheet_holdReply (now : Instant) (p : Packet) :
    (t.holdReply now p).sheet waits = (t.sheet waits).holdReply now p := by
  have hheld : ((t.sheet waits).isOutgoing && (t.sheet waits).packet.any (·.sameIdentity p)) =
      t.holdsReply p := by
    rw [isOutgoing_sheet]
    rfl
  unfold Sheet.holdReply holdReply
  rw [hheld]
  split
  · rfl
  · rw [sheet_of_reply rfl]
    simp only [retire_sheet, timer_waits_sheet]
    rfl

theorem due?_sheet (now : Instant) : (t.sheet waits).due? now = t.due? now := by
  rcases t.held_cases with h | ⟨job, timer, h⟩ | ⟨reply, acknowledged, timer, h⟩
  · rw [sheet_of_free h]
    simp [Sheet.due?, Sheet.isOutgoing, due?, h]
  · rw [sheet_of_job h]
    simp [Sheet.due?, Sheet.isOutgoing, due?, h]
  · rw [sheet_of_reply h]
    cases acknowledged <;>
      simp [Sheet.due?, Sheet.isOutgoing, due?, h, PollTimer.isDue, PollTimer.ofTimer]

theorem sheet_afterDue (now : Instant) :
    (t.afterDue waits now).sheet waits = (t.sheet waits).afterDue now := by
  unfold Sheet.afterDue afterDue
  rw [due?_sheet]
  split
  · next hdue =>
    have hheld : t.held.isSome = true := by
      cases h : t.held with
      | none => simp [due?, h] at hdue
      | some held => rfl
    exact rearm_sheet hheld now .imminent
  · rfl

theorem sheet_refresh (query : Instant) :
    (t.refresh waits query).sheet waits = (t.sheet waits).refresh query := by
  have hone : ∀ {held : Held}, t.held = some held →
      (if held.timer.target ≤ query then t.rearm waits query .human else t).sheet waits =
        if (t.sheet waits).timer.target.any (· ≤ query) then (t.sheet waits).rearm query .human
        else t.sheet waits := by
    intro held h
    have htimer : (t.sheet waits).timer.target = some held.timer.target := by
      simp [sheet, timer?, h, PollTimer.ofTimer]
    rw [htimer]
    by_cases hle : held.timer.target ≤ query
    · rw [if_pos hle, rearm_sheet (by rw [h]; rfl), if_pos (by simpa using hle)]
    · rw [if_neg hle, if_neg (by simpa using hle)]
  unfold Sheet.refresh refresh
  rcases t.held_cases with h | ⟨job, timer, h⟩ | ⟨reply, acknowledged, timer, h⟩
  · rw [sheet_of_free h]
    simp [h, sheet_of_free h]
  · have hrest : ¬ ((t.sheet waits).packet.isNone ||
        ((t.sheet waits).isOutgoing && !(t.sheet waits).acknowledged)) = true := by
      simp [sheet_of_job h, Sheet.isOutgoing]
    rw [if_neg hrest, h]
    exact hone h
  · cases acknowledged with
    | false => simp [h, sheet_of_reply h, Sheet.isOutgoing]
    | true =>
      have hrest : ¬ ((t.sheet waits).packet.isNone ||
          ((t.sheet waits).isOutgoing && !(t.sheet waits).acknowledged)) = true := by
        simp [sheet_of_reply h]
      rw [if_neg hrest, h]
      exact hone h

end Transaction

end SiteBroker
