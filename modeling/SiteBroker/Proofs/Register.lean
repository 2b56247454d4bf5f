import SiteBroker.Proofs.Holding
import SiteBroker.Proofs.History.Broker
import SiteBroker.Proofs.Transaction.Sheet

/-! The docket with its transactions as sheets. Whatever is done to it part by part agrees with what
is done to the docket, so what holds of every sound transaction holds of every sheet. -/

namespace SiteBroker

namespace Sheet

/-- What holds of a sheet that is kept under an id. -/
structure Proper (id : TransactionId) (s : Sheet) : Prop where
  own : s.id = id
  keyed : ∀ {p}, s.packet = some p → p.transactionId = id
  live : s.job.isSome = true ↔ s.packet.isSome = true ∧ s.direction = .incoming
  wraps : ∀ {job}, s.job = some job → s.packet = some job.packet ∧ job.packet.validate = .ok ()
  acknowledged : s.acknowledged = true → s.isOutgoing = true
  armed : s.timer.target.isSome = true ↔ s.packet.isSome = true
  apart : ∀ {job}, s.job = some job → s.parked[job.packetId]? = none
  filled : ∀ {p : String} {l}, s.parked[p]? = some l → l.isEmpty = false

end Sheet

theorem Transaction.Sound.proper {t : Transaction} {id : TransactionId} (h : t.Sound)
    (hid : t.id = id) (waits : WaitTimes) : (t.sheet waits).Proper id where
  own := hid
  keyed hp := (h.keyed hp).trans hid
  live := by
    rcases t.held_cases with hh | ⟨job, timer, hh⟩ | ⟨reply, acknowledged, timer, hh⟩
    · simp [sheet_of_free hh]
    · simp [sheet_of_job hh]
    · simp [sheet_of_reply hh]
  wraps hj := ⟨packet?_of_job? hj, h.valid hj⟩
  acknowledged := by
    rw [isOutgoing_sheet]
    rcases t.held_cases with hh | ⟨job, timer, hh⟩ | ⟨reply, acknowledged, timer, hh⟩
    · simp [sheet_of_free hh]
    · simp [sheet_of_job hh]
    · simp [isOutgoing, direction, content?, hh]
  armed := by
    rcases t.held_cases with hh | ⟨job, timer, hh⟩ | ⟨reply, acknowledged, timer, hh⟩
    · simp [sheet_of_free hh, PollTimer.new]
    · simp [sheet_of_job hh, PollTimer.ofTimer]
    · simp [sheet_of_reply hh, PollTimer.ofTimer]
  apart hj := h.apart hj
  filled hl := h.filled hl

structure Register where
  waits : WaitTimes
  sheets : Std.ExtTreeMap TransactionId Sheet := ∅

/-- What can be done to a docket: a move, or a round of work on the job of a transaction. -/
inductive Act (σ : Type) where
  | move (m : Docket.Move)
  | work (s : Services σ) (world : World σ) (id : TransactionId)

def Job.worked {σ : Type} (s : Services σ) (world : World σ) (job : Job) : Job :=
  (Office.attend (Registry.catalog s) ⟨job, world⟩).2.job

theorem Job.packet_worked {σ : Type} (s : Services σ) (world : World σ) (job : Job) :
    (job.worked s world).packet = job.packet := (Office.leads_attend s ⟨job, world⟩).1

namespace Register

variable {σ : Type}

def get? (r : Register) (id : TransactionId) : Option Sheet := r.sheets[id]?

def sheet (r : Register) (id : TransactionId) : Sheet := (r.get? id).getD (.new r.waits id)

def set (r : Register) (id : TransactionId) (s : Sheet) : Register :=
  { r with sheets := r.sheets.insert id s }

def mapAll (r : Register) (f : Sheet → Sheet) : Register :=
  { r with sheets := r.sheets.map fun _ s => f s }

def mapJob (r : Register) (id : TransactionId) (f : Job → Job) : Register :=
  match r.get? id with
  | some s => r.set id (s.mapJob f)
  | none => r

def putTask (r : Register) (task : TaskRecord) : Register :=
  r.set task.keys.transactionId ((r.sheet task.keys.transactionId).putTask task)

/-- A packet that is turned down is answered from the sheet that the failure left behind. -/
def receive (r : Register) (query : Instant) (p : Packet) : Register :=
  if p.type.closes then r
  else
    match Sheet.receive query p (r.sheet p.transactionId) with
    | .ok _ s => r.set p.transactionId s
    | .error e s => r.set p.transactionId (s.holdReply query (p.failureReply e.message))

def holdReply (r : Register) (now : Instant) (p : Packet) : Register :=
  r.set p.transactionId ((r.sheet p.transactionId).holdReply now p)

def purge (r : Register) (id : TransactionId) : Register :=
  { r with sheets := r.sheets.erase id }

def taskOnly (r : Register) : List TransactionId :=
  (r.sheets.values.filter (·.packet.isNone)).map (·.id)

def perform (r : Register) : Docket.Move → Register
  | .tell tasks => tasks.foldl putTask r
  | .receive query p => r.receive query p
  | .reply now p => r.holdReply now p
  | .send now => r.mapAll (·.afterDue now)
  | .refresh query => r.mapAll (·.refresh query)
  | .purge id => r.purge id
  | .purgeTaskOnly => r.taskOnly.foldl purge r
  | .record id task => r.mapJob id (·.putTask task)
  | .progress id p => r.mapJob id ({ · with progress := p })

def enact (r : Register) : Act σ → Register
  | .move m => r.perform m
  | .work s world id => r.mapJob id (·.worked s world)

def enactAll (r : Register) (acts : List (Act σ)) : Register := acts.foldl enact r

theorem get?_set {r : Register} (id : TransactionId) (s : Sheet) (i : TransactionId) :
    (r.set id s).get? i = if id = i then some s else r.get? i := by
  simp [set, get?, Std.ExtTreeMap.getElem?_insert]

theorem get?_mapAll {r : Register} (f : Sheet → Sheet) (i : TransactionId) :
    (r.mapAll f).get? i = (r.get? i).map f := by
  simp [mapAll, get?]

theorem get?_foldl_purge {r : Register} (ids : List TransactionId) (i : TransactionId) :
    (ids.foldl purge r).get? i = if i ∈ ids then none else r.get? i := by
  induction ids generalizing r with
  | nil => simp
  | cons id ids ih =>
    rw [List.foldl_cons, ih]
    by_cases hi : i ∈ ids
    · simp [hi]
    · by_cases he : id = i
      · simp [purge, get?, he]
      · simp [purge, get?, Std.ExtTreeMap.getElem?_erase, hi, he, Ne.symm he]

@[simp] theorem waits_foldl_purge {r : Register} (ids : List TransactionId) :
    (ids.foldl purge r).waits = r.waits := by
  induction ids generalizing r with
  | nil => rfl
  | cons id ids ih => exact ih

theorem eq_of_get? {r r' : Register} (hw : r.waits = r'.waits) (h : ∀ i, r.get? i = r'.get? i) :
    r = r' := by
  obtain ⟨waits, m⟩ := r
  obtain ⟨waits', m'⟩ := r'
  cases hw
  have hm : m = m' := Std.ExtTreeMap.ext_getElem? fun {i} => h i
  rw [hm]

end Register

namespace Docket

variable {σ : Type} {d : Docket}

def enact (d : Docket) : Act σ → Docket
  | .move m => d.perform m
  | .work s world id => d.mapJob id (·.worked s world)

def enactAll (d : Docket) (acts : List (Act σ)) : Docket := acts.foldl enact d

/-- The docket with its transactions as sheets. -/
def register (d : Docket) : Register where
  waits := d.waits
  sheets := d.transactions.map fun _ t => t.sheet d.waits

theorem get?_register (i : TransactionId) :
    d.register.get? i = (d.get? i).map (·.sheet d.waits) := by
  simp [register, Register.get?, get?]

theorem sheet_register (id : TransactionId) :
    d.register.sheet id = (d.transaction id).sheet d.waits := by
  unfold Register.sheet transaction
  rw [get?_register]
  cases d.get? id <;> rfl

theorem register_set (id : TransactionId) (t : Transaction) :
    (d.set id t).register = d.register.set id (t.sheet d.waits) := by
  refine Register.eq_of_get? rfl fun i => ?_
  rw [get?_register, get?_set, Register.get?_set, get?_register]
  split <;> rfl

theorem register_mapAll {f : Transaction → Transaction} {g : Sheet → Sheet}
    (h : ∀ t : Transaction, (f t).sheet d.waits = g (t.sheet d.waits)) :
    (d.mapAll f).register = d.register.mapAll g := by
  refine Register.eq_of_get? rfl fun i => ?_
  rw [get?_register, get?_mapAll, Register.get?_mapAll, get?_register]
  cases d.get? i with
  | none => rfl
  | some t => exact congrArg some (h t)

theorem register_mapJob (id : TransactionId) {f : Job → Job}
    (hf : ∀ job, (f job).packet = job.packet) :
    (d.mapJob id f).register = d.register.mapJob id f := by
  unfold mapJob Register.mapJob
  rw [get?_register]
  cases d.get? id with
  | none => rfl
  | some t =>
    rw [Option.map_some]
    dsimp only
    rw [register_set, Transaction.sheet_mapJob hf]

theorem register_putTask (task : TaskRecord) :
    (d.putTask task).register = d.register.putTask task := by
  unfold putTask Register.putTask
  rw [register_set, Transaction.sheet_putTask, sheet_register]

theorem register_putTasks (tasks : List TaskRecord) :
    (d.putTasks tasks).1.register = tasks.foldl Register.putTask d.register := by
  rw [putTasks_fst]
  induction tasks generalizing d with
  | nil => rfl
  | cons task tasks ih => rw [List.foldl_cons, ih, register_putTask, List.foldl_cons]

theorem register_holdReply (now : Instant) (p : Packet) :
    (d.holdReply now p).register = d.register.holdReply now p := by
  unfold holdReply Register.holdReply
  rw [register_set, Transaction.sheet_holdReply, sheet_register]

theorem register_receive (query : Instant) (p : Packet) :
    (d.receive query p).1.register = d.register.receive query p := by
  unfold receive Register.receive
  split
  · rfl
  · rw [sheet_register, Transaction.receive_sheet]
    dsimp only
    cases (d.transaction p.transactionId).receive d.waits query p with
    | ok r => exact register_set _ _
    | error e =>
      dsimp only
      rw [register_set, Transaction.sheet_holdReply]

theorem register_purge (id : TransactionId) : (d.purge id).register = d.register.purge id := by
  refine Register.eq_of_get? rfl fun i => ?_
  have hpurge : (d.register.purge id).get? i = if id = i then none else d.register.get? i := by
    simp [Register.purge, Register.get?, Std.ExtTreeMap.getElem?_erase]
  rw [hpurge, get?_register, get?_purge, get?_register]
  split <;> rfl

theorem mem_taskOnly_register (i : TransactionId) :
    i ∈ d.register.taskOnly ↔ i ∈ d.taskOnly := by
  have hmem : ∀ s, s ∈ d.register.sheets.values ↔ ∃ t ∈ d.toList, t.sheet d.waits = s := by
    intro s
    have hs : s ∈ d.register.sheets.values ↔ ∃ k, d.register.get? k = some s :=
      (Lists.ofTreeMap d.register.sheets).mem_iff
    rw [hs]
    constructor
    · rintro ⟨k, hk⟩
      rw [get?_register] at hk
      obtain ⟨t, ht, rfl⟩ := Option.map_eq_some_iff.mp hk
      exact ⟨t, mem_toList.mpr ⟨k, ht⟩, rfl⟩
    · rintro ⟨t, ht, rfl⟩
      obtain ⟨k, hk⟩ := mem_toList.mp ht
      exact ⟨k, by rw [get?_register, hk, Option.map_some]⟩
  have hfree : ∀ t : Transaction, (t.sheet d.waits).packet.isNone = t.held.isNone := by
    intro t
    simp [Transaction.sheet, Transaction.packet?, Transaction.content?]
  unfold Register.taskOnly taskOnly
  simp only [List.mem_map, List.mem_filter]
  constructor
  · rintro ⟨s, ⟨hs, hn⟩, rfl⟩
    obtain ⟨t, ht, rfl⟩ := (hmem s).mp hs
    exact ⟨t, ⟨ht, by rwa [hfree] at hn⟩, rfl⟩
  · rintro ⟨t, ⟨ht, hn⟩, rfl⟩
    exact ⟨t.sheet d.waits, ⟨(hmem _).mpr ⟨t, ht, rfl⟩, by rwa [hfree]⟩, rfl⟩

theorem register_purgeTaskOnly :
    (d.purgeAll d.taskOnly).register = d.register.taskOnly.foldl Register.purge d.register := by
  have hwaits : (d.purgeAll d.taskOnly).waits = d.waits := waits_purgeAll _
  refine Register.eq_of_get? ?_ fun i => ?_
  · rw [Register.waits_foldl_purge]
    exact hwaits
  · rw [get?_register, hwaits, get?_purgeAll, Register.get?_foldl_purge, get?_register]
    by_cases hi : i ∈ d.taskOnly
    · rw [if_pos hi, if_pos ((mem_taskOnly_register i).mpr hi), Option.map_none]
    · rw [if_neg hi, if_neg fun h => hi ((mem_taskOnly_register i).mp h)]

theorem register_perform (m : Move) : (d.perform m).register = d.register.perform m := by
  cases m with
  | tell tasks => exact register_putTasks tasks
  | receive query p => exact register_receive query p
  | reply now p => exact register_holdReply now p
  | send now => exact register_mapAll fun t => t.sheet_afterDue now
  | refresh query => exact register_mapAll fun t => t.sheet_refresh query
  | purge id => exact register_purge id
  | purgeTaskOnly => exact register_purgeTaskOnly
  | record id task => exact register_mapJob id fun job => job.packet_putTask task
  | progress id p => exact register_mapJob id fun _ => rfl

theorem register_enact (a : Act σ) : (d.enact a).register = d.register.enact a := by
  cases a with
  | move m => exact register_perform m
  | work s world id => exact register_mapJob id fun job => job.packet_worked s world

theorem Sound.enact (h : d.Sound) (a : Act σ) : (d.enact a).Sound := by
  cases a with
  | move m => exact h.perform m
  | work s world id => exact h.mapJob fun job _ => job.packet_worked s world

theorem Sound.enactAll (h : d.Sound) (acts : List (Act σ)) :
    (d.enactAll acts).Sound ∧ (d.enactAll acts).register = d.register.enactAll acts := by
  induction acts generalizing d with
  | nil => exact ⟨h, rfl⟩
  | cons a acts ih =>
    obtain ⟨hs, hr⟩ := ih (h.enact a)
    refine ⟨hs, ?_⟩
    rw [register_enact] at hr
    exact hr

/-- Whatever was done to a register, its sheets are those of the docket, each of them is proper, and
a packet that cannot be taken in changes nothing. -/
theorem enactAll_proper (waits : WaitTimes) (acts : List (Act σ)) :
    Register.enactAll { waits } acts = (enactAll { waits } acts).register ∧
    (∀ id s, (Register.enactAll { waits } acts).get? id = some s → s.Proper id) ∧
    ∀ (s s' : Sheet) (query : Instant) (p : Packet) (e : ValidationError),
      Sheet.receive query p s = .error e s' → s' = s := by
  obtain ⟨hs, hr⟩ := (sound_start waits).enactAll acts
  have hstart : register { waits } = { waits } := by
    refine Register.eq_of_get? rfl fun i => ?_
    rw [get?_register]
    simp [get?, Register.get?]
  rw [hstart] at hr
  refine ⟨hr.symm, ?_, fun s s' query p e h => (Sheet.receive_error h).1⟩
  intro id s hg
  rw [← hr, get?_register] at hg
  obtain ⟨t, ht, rfl⟩ := Option.map_eq_some_iff.mp hg
  obtain ⟨hid, hsound⟩ := hs id t ht
  exact hsound.proper hid _

end Docket

end SiteBroker
