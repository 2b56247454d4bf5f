import SiteBroker.Desk
import SiteBroker.Proofs.Calls

/-! What the requests from a desk do to its job and which calls they make, as one lemma for each of
them. -/

namespace SiteBroker

open Program

theorem Desk.currentJob_bind {σ α : Type} (f : Job → Work σ α) (x : Desk σ) :
    (currentJob >>= f) x = f x.job x := rfl

namespace Services

variable {σ : Type} (s : Services σ)

theorem outside_call_cases (c : Call) (x : Desk σ) :
    (∃ a y, Desk.outside (s.call c) x = .ok a y ∧ y.job = x.job ∧
      y.world.calls = x.world.calls ++ [⟨c, .ok a⟩]) ∨
    ∃ e e' y, Desk.outside (s.call c) x = .error e y ∧ y.job = x.job ∧
      y.world.calls = x.world.calls ++ [⟨c, .error e'⟩] := by
  unfold Desk.outside
  rcases s.call_cases c x.world with ⟨a, w, h, hc⟩ | ⟨e, e', w, h, hc⟩
  · exact .inl ⟨a, { x with world := w }, by rw [h], rfl, hc⟩
  · exact .inr ⟨e, e', { x with world := w }, by rw [h], rfl, hc⟩

/-- A lookup makes no call if its request would be incomplete. -/
theorem lookup_cases (kind : LookupKind) (role : Option Role) (extra : Fields) (x : Desk σ) :
    (∃ found y request, s.lookup kind role extra x = .ok found y ∧ y.job = x.job ∧
      request.kind = kind ∧ y.world.calls = x.world.calls ++ [⟨.lookup request, .ok found⟩]) ∨
    ∃ e y, s.lookup kind role extra x = .error e y ∧ y.job = x.job ∧
      (y.world.calls = x.world.calls ∨
        ∃ request e', y.world.calls = x.world.calls ++ [⟨.lookup request, .error e'⟩]) := by
  unfold lookup
  rw [Desk.currentJob_bind]
  cases hr : LookupRequest.ofPacketFields kind (x.job.requestFields role extra) with
  | error e => exact .inr ⟨.validation e, x, rfl, rfl, .inl rfl⟩
  | ok request =>
    have hv : (Desk.validated (.ok request) : Work σ LookupRequest) x = .ok request x := rfl
    rw [bind_of_ok hv]
    rcases s.outside_call_cases (.lookup request) x with
      ⟨found, y, h, hj, hc⟩ | ⟨e, e', y, h, hj, hc⟩
    · exact .inl ⟨found, y, request, h, hj, LookupRequest.kind_of_ofPacketFields hr, hc⟩
    · exact .inr ⟨e, y, h, hj, .inr ⟨request, e', hc⟩⟩

theorem clear_cases (x : Desk σ) :
    (∃ y, s.clear x = .ok () y ∧ y.job = x.job ∧
      y.world.calls = x.world.calls ++ [⟨.clear x.job.transactionId, .ok ()⟩]) ∨
    ∃ e e' y, s.clear x = .error e y ∧ y.job = x.job ∧
      y.world.calls = x.world.calls ++ [⟨.clear x.job.transactionId, .error e'⟩] := by
  unfold clear
  rw [Desk.currentJob_bind]
  rcases s.outside_call_cases (.clear x.job.transactionId) x with
    ⟨⟨⟩, y, h, hj, hc⟩ | ⟨e, e', y, h, hj, hc⟩
  · exact .inl ⟨y, h, hj, hc⟩
  · exact .inr ⟨e, e', y, h, hj, hc⟩

/-- The request that a job makes for a task. -/
structure Requests (job : Job) (operation : Operation) (name : String) (request : TaskRequest) :
    Prop where
  operation : request.operation = operation
  keys : request.keys = job.taskKeys
  name : request.taskName = name

theorem submit_cases (operation : Operation) (name : String) (role : Option Role) (extra : Fields)
    (x : Desk σ) :
    (∃ t y request, s.submit operation name role extra x = .ok t y ∧
      Requests x.job operation name request ∧ y.job = x.job.putTask t ∧
      y.world.calls = x.world.calls ++ [⟨.submit request, .ok t⟩]) ∨
    ∃ e y, s.submit operation name role extra x = .error e y ∧ y.job = x.job ∧
      (y.world.calls = x.world.calls ∨ ∃ request e', Requests x.job operation name request ∧
        y.world.calls = x.world.calls ++ [⟨.submit request, .error e'⟩]) := by
  obtain ⟨now, w, hnow, hw⟩ : ∃ now w, (Desk.outside s.now : Work σ Instant) x =
      .ok now { x with world := w } ∧ w.calls = x.world.calls :=
    ⟨_, _, rfl, s.calls_read x.world⟩
  have hsubmit : s.submit operation name role extra x =
      (do
        let request ← Desk.validated (TaskRequest.ofPacketFields operation x.job.taskKeys name now
          (x.job.taskFields operation role extra))
        let t : TaskRecord ← Desk.outside (s.call (.submit request))
        Desk.setJob (x.job.putTask t)
        return t) { x with world := w } :=
    (Desk.currentJob_bind _ x).trans (bind_of_ok hnow _)
  rw [hsubmit]
  cases hr : TaskRequest.ofPacketFields operation x.job.taskKeys name now
      (x.job.taskFields operation role extra) with
  | error e => exact .inr ⟨.validation e, { x with world := w }, rfl, rfl, .inl hw⟩
  | ok request =>
    obtain ⟨ho, hk, hn⟩ := TaskRequest.of_ofPacketFields hr
    have hv : (Desk.validated (.ok request) : Work σ TaskRequest) { x with world := w } =
      .ok request { x with world := w } := rfl
    rcases s.outside_call_cases (.submit request) { x with world := w } with
      ⟨t, y, h, hj, hc⟩ | ⟨e, e', y, h, hj, hc⟩
    · exact .inl ⟨t, { y with job := x.job.putTask t }, request,
        (bind_of_ok hv _).trans (bind_of_ok h _), ⟨ho, hk, hn⟩, rfl, by rw [hc, hw]⟩
    · exact .inr ⟨e, y, (bind_of_ok hv _).trans (bind_of_error h _), hj,
        .inr ⟨request, e', ⟨ho, hk, hn⟩, by rw [hc, hw]⟩⟩

theorem runTask_cases (operation : Operation) (role : Option Role) (extra : Fields) (x : Desk σ) :
    (∃ e, s.runTask operation role extra x = .error e x) ∨
    ∃ name, s.taskName? operation = some name ∧
      ((∃ t, x.job.tasks.get? name = some t ∧
        s.runTask operation role extra x = Desk.lift t.settled x) ∨
      ((x.job.tasks.get? name).all (·.isOpen) = true ∧
        s.runTask operation role extra x =
          (s.submit operation name role extra >>= fun t => Desk.lift t.settled) x)) := by
  unfold runTask
  cases hname : s.taskName? operation with
  | none => exact .inl ⟨_, rfl⟩
  | some name =>
    right
    refine ⟨name, rfl, ?_⟩
    simp only [Desk.currentJob_bind]
    cases ht : x.job.tasks.get? name with
    | none => exact .inr ⟨rfl, rfl⟩
    | some t =>
      cases ho : t.isOpen with
      | true => exact .inr ⟨by simp [ho], by simp [Option.filter, ho]⟩
      | false => exact .inl ⟨t, rfl, by simp [Option.filter, ho]⟩

end Services

end SiteBroker
