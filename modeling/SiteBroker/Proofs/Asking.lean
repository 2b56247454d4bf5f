import SiteBroker.Proofs.Tracing

/-! What the work on a job asks the local service for, and when there is no need to: what is known
shows in the progress, and what is under way is on record. -/

namespace SiteBroker

open Program Desk

/-- What the local service is asked for: the answer to a lookup, or a task. -/
inductive Ask where
  | lookup (kind : LookupKind)
  | submit (operation : Operation)
  deriving DecidableEq

/-- The operation whose task a lookup may spare. -/
def LookupKind.operation : LookupKind → Operation
  | org => .chooseOrAddOrg
  | person => .chooseOrAddPerson
  | grant => .chooseOrAddGrant
  | localFos => .chooseOrAddLocalFos
  | projectNameBase => .chooseOrAddProjectNameBase
  | projectTask => .createProject

def Ask.operation : Ask → Operation
  | lookup kind => kind.operation
  | submit operation => operation

namespace Exchange

def ask? : Exchange → Option Ask
  | ⟨.lookup request, _⟩ => some (.lookup request.kind)
  | ⟨.submit request, _⟩ => some (.submit request.operation)
  | _ => none

/-- A task that was asked for has been taken up, under the name that it was asked for by. -/
def Fair : Exchange → Prop
  | ⟨.submit request, .ok t⟩ => TaskRecord.name t = request.taskName ∧ TaskRecord.isOpen t = false
  | _ => True

instance : DecidablePred Fair
  | ⟨.submit _, .ok _⟩ => inferInstanceAs (Decidable (_ ∧ _))
  | ⟨.submit _, .error _⟩ | ⟨.lookup _, _⟩ | ⟨.clear _, _⟩ | ⟨.getTasks .., _⟩
  | ⟨.listPackets _, _⟩ | ⟨.sendPacket _, _⟩ => .isTrue trivial

end Exchange

def asks (calls : List Exchange) : List Ask := calls.filterMap Exchange.ask?

theorem asks_append (calls calls' : List Exchange) :
    asks (calls ++ calls') = asks calls ++ asks calls' := List.filterMap_append

theorem asks_singleton {e : Exchange} {ask : Ask} (h : e.ask? = some ask) : asks [e] = [ask] := by
  simp [asks, h]

namespace TaskList

/-- No task is to be submitted again. -/
def Closed (l : TaskList) : Prop := ∀ n t, l.get? n = some t → t.isOpen = false

/-- Where an operation is asked about, it has no task on record at that time. -/
def Spared (taskName? : Operation → Option String) (l : TaskList) : List Exchange → Prop
  | [] => True
  | e :: es =>
    (∀ ask n, e.ask? = some ask → taskName? ask.operation = some n → l.get? n = none) ∧
      (l.tell e).Spared taskName? es

variable {l : TaskList} {taskName? : Operation → Option String}

theorem spared_append {es es' : List Exchange} : l.Spared taskName? (es ++ es') ↔
    l.Spared taskName? es ∧ (es.foldl tell l).Spared taskName? es' := by
  induction es generalizing l with
  | nil => simp [Spared]
  | cons e es ih => simp only [List.cons_append, Spared, List.foldl_cons, ih, and_assoc]

theorem Closed.put (h : l.Closed) {t : TaskRecord} (ht : t.isOpen = false) : (l.put t).Closed := by
  intro n u hu
  rw [get?_put] at hu
  split at hu
  · rcases t.overlay_eq_or (l.get? n) with ho | ho
    · rw [ho] at hu
      cases hu
      exact ht
    · exact h n u (by rw [ho, hu])
  · exact h n u hu

theorem isSome_put (t : TaskRecord) {n : String} (h : (l.get? n).isSome = true) :
    ((l.put t).get? n).isSome = true := by
  rw [get?_put]
  split
  · rfl
  · exact h

theorem isSome_put_name (l : TaskList) (t : TaskRecord) :
    ((l.put t).get? t.name).isSome = true := by
  rw [get?_put, if_pos rfl]
  rfl

theorem isEmpty_eq_false_of_isSome {n : String} (h : (l.get? n).isSome = true) :
    l.isEmpty = false := by
  rw [Bool.eq_false_iff]
  intro he
  rw [isEmpty_iff.mp he n] at h
  cases h

end TaskList

namespace Desk

variable {σ : Type} {s : Services σ} {x y z : Desk σ}

/-- The calls that were made from one desk to another. -/
def since (x y : Desk σ) : List Exchange := y.world.calls.drop x.world.calls.length

theorem since_eq {news : List Exchange} (hc : y.world.calls = x.world.calls ++ news) :
    since x y = news := by
  rw [since, hc, List.drop_left]

@[simp] theorem since_self (x : Desk σ) : since x x = [] := since_eq (List.append_nil _).symm

theorem asks_since_eq_nil (hc : y.world.calls = x.world.calls) : asks (since x y) = [] := by
  rw [since_eq (by rw [hc, List.append_nil])]
  rfl

theorem unasked_of_calls_eq (hc : y.world.calls = x.world.calls) (ask : Ask) :
    ask ∉ asks (since x y) := by
  rw [asks_since_eq_nil hc]
  exact List.not_mem_nil

theorem calls_eq_since (h : Told x y) : y.world.calls = x.world.calls ++ since x y := by
  obtain ⟨news, hc, -⟩ := h
  rw [since_eq hc, hc]

theorem since_append (hxy : Told x y) (hyz : Told y z) : since x z = since x y ++ since y z := by
  refine since_eq ?_
  rw [calls_eq_since hyz, calls_eq_since hxy, List.append_assoc]

theorem tasks_eq_of_told (h : Told x y) :
    y.job.tasks = (since x y).foldl TaskList.tell x.job.tasks := by
  obtain ⟨news, hc, ht⟩ := h
  rw [since_eq hc, ht]

/-- It makes no sense to ask for what is known or on record. -/
def Needless (s : Services σ) (x : Desk σ) : Ask → Prop
  | .lookup kind => x.job.progress.shows kind.operation = true ∨
      s.hasTask x.job kind.operation = true ∨ kind = .projectTask ∧ x.job.tasks.isEmpty = false
  | .submit operation => s.hasTask x.job operation = true

/-- What is known and on record stays so. -/
structure Keeps (x y : Desk σ) : Prop where
  packet : y.job.packet = x.job.packet
  shows : ∀ kind : LookupKind, x.job.progress.shows kind.operation = true →
    y.job.progress.shows kind.operation = true
  tasks : ∀ n, (x.job.tasks.get? n).isSome = true → (y.job.tasks.get? n).isSome = true

theorem keeps_of_job_eq (hj : y.job = x.job) : Keeps x y :=
  ⟨by rw [hj], fun _ h => by rwa [hj], fun _ h => by rwa [hj]⟩

theorem Keeps.trans (h : Keeps x y) (h' : Keeps y z) : Keeps x z where
  packet := h'.packet.trans h.packet
  shows kind hs := h'.shows kind (h.shows kind hs)
  tasks n hn := h'.tasks n (h.tasks n hn)

theorem Keeps.hasTask (h : Keeps x y) {o : Operation} (ho : s.hasTask x.job o = true) :
    s.hasTask y.job o = true := by
  rw [Services.hasTask, Option.any_eq_true] at *
  obtain ⟨n, hn, ht⟩ := ho
  exact ⟨n, hn, h.tasks n ht⟩

theorem Keeps.needless (h : Keeps x y) {ask : Ask} (ha : x.Needless s ask) : y.Needless s ask := by
  cases ask with
  | submit operation => exact h.hasTask ha
  | lookup kind =>
    rcases ha with hs | ht | ⟨hk, he⟩
    · exact .inl (h.shows kind hs)
    · exact .inr (.inl (h.hasTask ht))
    · obtain ⟨n, hn⟩ : ∃ n, (x.job.tasks.get? n).isSome = true := by
        by_contra hno
        rw [TaskList.isEmpty_iff.mpr fun n => ?_] at he
        · cases he
        · exact Option.not_isSome_iff_eq_none.mp fun h => hno ⟨n, h⟩
      exact .inr (.inr ⟨hk, TaskList.isEmpty_eq_false_of_isSome (h.tasks n hn)⟩)

/-- Calls were made that there was need for, each of them once, and there is none for them now. -/
structure Thrifty (s : Services σ) (x y : Desk σ) : Prop where
  calls : y.world.calls = x.world.calls ++ since x y
  keeps : Keeps x y
  closed : y.job.tasks.Closed
  new : ∀ ask ∈ asks (since x y), ¬ x.Needless s ask
  needless : ∀ ask ∈ asks (since x y), y.Needless s ask
  nodup : (asks (since x y)).Nodup

theorem Thrifty.of_silent (hc : y.world.calls = x.world.calls) (hk : Keeps x y)
    (hclosed : y.job.tasks.Closed) : Thrifty s x y := by
  have hnone : since x y = [] := since_eq (by rw [hc, List.append_nil])
  refine ⟨by rw [hnone, hc, List.append_nil], hk, hclosed, ?_, ?_, ?_⟩ <;> rw [hnone]
  · exact fun _ h => absurd h List.not_mem_nil
  · exact fun _ h => absurd h List.not_mem_nil
  · exact List.nodup_nil

/-- Calls that come before are made once if none of them is made again. -/
theorem Thrifty.prepend (h : Thrifty s y z) (hcalls : y.world.calls = x.world.calls ++ since x y)
    (hkeeps : Keeps x y) (hnew : ∀ ask ∈ asks (since x y), ¬ x.Needless s ask)
    (hneedless : ∀ ask ∈ asks (since x y), z.Needless s ask) (hnodup : (asks (since x y)).Nodup)
    (hapart : ∀ ask ∈ asks (since x y), ask ∉ asks (since y z)) : Thrifty s x z := by
  have hcalls' : z.world.calls = x.world.calls ++ (since x y ++ since y z) := by
    rw [h.calls, hcalls, List.append_assoc]
  have hasks : asks (since x z) = asks (since x y) ++ asks (since y z) := by
    rw [since_eq hcalls', asks_append]
  refine ⟨by rw [since_eq hcalls', hcalls'], hkeeps.trans h.keeps, h.closed, fun ask ha => ?_,
    fun ask ha => ?_, ?_⟩
  · rw [hasks, List.mem_append] at ha
    rcases ha with ha | ha
    · exact hnew ask ha
    · exact fun hn => h.new ask ha (hkeeps.needless hn)
  · rw [hasks, List.mem_append] at ha
    rcases ha with ha | ha
    · exact hneedless ask ha
    · exact h.needless ask ha
  · rw [hasks, List.nodup_append']
    exact ⟨hnodup, h.nodup, fun ask ha ha' => hapart ask ha ha'⟩

theorem Thrifty.trans (h : Thrifty s x y) (h' : Thrifty s y z) : Thrifty s x z :=
  h'.prepend h.calls h.keeps h.new (fun ask ha => h'.keeps.needless (h.needless ask ha)) h.nodup
    fun ask ha ha' => h'.new ask ha' (h.needless ask ha)

/-- Calls were made about operations that have no task on record. -/
structure Sparing (s : Services σ) (x y : Desk σ) : Prop where
  told : Told x y
  spared : x.job.tasks.Spared s.taskName? (since x y)

theorem Sparing.trans (h : Sparing s x y) (h' : Sparing s y z) : Sparing s x z := by
  refine ⟨h.told.trans h'.told, ?_⟩
  rw [Desk.since_append h.told h'.told, TaskList.spared_append, ← tasks_eq_of_told h.told]
  exact ⟨h.spared, h'.spared⟩

theorem Sparing.of_silent (ht : y.job.tasks = x.job.tasks) (hc : y.world.calls = x.world.calls) :
    Sparing s x y := by
  refine ⟨told_of_calls_eq ht hc, ?_⟩
  rw [since_eq (by rw [hc, List.append_nil])]
  trivial

theorem get?_eq_none_of_hasTask {o : Operation} (h : s.hasTask x.job o = false) {n : String}
    (hn : s.taskName? o = some n) : x.job.tasks.get? n = none := by
  simpa [Services.hasTask, hn] using h

theorem Sparing.of_call {e : Exchange} (ht : y.job.tasks = x.job.tasks.tell e)
    (hc : y.world.calls = x.world.calls ++ [e]) {ask : Ask} (ha : e.ask? = some ask)
    (hnew : s.hasTask x.job ask.operation = false) : Sparing s x y := by
  refine ⟨told_of_call ht hc, ?_⟩
  rw [since_eq hc]
  refine ⟨fun ask' n ha' hn => ?_, trivial⟩
  rw [ha] at ha'
  cases ha'
  exact get?_eq_none_of_hasTask hnew hn

end Desk

end SiteBroker
