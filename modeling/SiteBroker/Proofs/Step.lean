import SiteBroker.Proofs.Transaction
import SiteBroker.Proofs.Workflow

/-! What a step can do: how a milestone, the dropping of records and the search for a project can
end, and what they leave at the desk in each case. -/

namespace SiteBroker

open Program

/-- A lookup of a kind was answered. -/
def Found (calls : List Exchange) (kind : LookupKind) (found : Json) : Prop :=
  ∃ request : LookupRequest, request.kind = kind ∧ ⟨.lookup request, .ok (some found)⟩ ∈ calls

/-- A request for an operation was answered with a task. -/
def Submitted (calls : List Exchange) (operation : Operation) (t : TaskRecord) : Prop :=
  ∃ request : TaskRequest, request.operation = operation ∧ ⟨.submit request, .ok t⟩ ∈ calls

theorem Found.mono {calls calls' : List Exchange} {kind : LookupKind} {found : Json}
    (h : Found calls kind found) (hc : calls ⊆ calls') : Found calls' kind found := by
  obtain ⟨request, hk, hm⟩ := h
  exact ⟨request, hk, hc hm⟩

theorem Submitted.mono {calls calls' : List Exchange} {operation : Operation} {t : TaskRecord}
    (h : Submitted calls operation t) (hc : calls ⊆ calls') : Submitted calls' operation t := by
  obtain ⟨request, ho, hm⟩ := h
  exact ⟨request, ho, hc hm⟩

namespace Desk

variable {σ : Type} {x y z : Desk σ}

/-- Calls were made, and the tasks that came of them were recorded. Nothing else has changed at the
desk. -/
structure Worked (x y : Desk σ) : Prop where
  packet : y.job.packet = x.job.packet
  progress : y.job.progress = x.job.progress
  calls : x.world.calls ⊆ y.world.calls
  tasks : ∀ {name t}, y.job.tasks.get? name = some t → x.job.tasks.get? name = some t ∨
    ∃ operation, Submitted y.world.calls operation t

theorem worked_of_job_eq (hj : y.job = x.job) (hc : x.world.calls ⊆ y.world.calls) :
    Worked x y where
  packet := by rw [hj]
  progress := by rw [hj]
  calls := hc
  tasks h := .inl (by rwa [hj] at h)

theorem Worked.trans (h : Worked x y) (h' : Worked y z) : Worked x z where
  packet := h'.packet.trans h.packet
  progress := h'.progress.trans h.progress
  calls := List.Subset.trans h.calls h'.calls
  tasks ht := by
    rcases h'.tasks ht with ht | ⟨operation, ht⟩
    · rcases h.tasks ht with ht | ⟨operation, ht⟩
      · exact .inl ht
      · exact .inr ⟨operation, ht.mono h'.calls⟩
    · exact .inr ⟨operation, ht⟩

instance : IsPreorder (Desk σ) Worked where
  refl _ := worked_of_job_eq rfl (List.Subset.refl _)
  trans _ _ _ := Worked.trans

end Desk

open Desk

namespace Services

variable {σ : Type} (s : Services σ)

theorem goes_worked_lookup (kind : LookupKind) (role : Option Role) (extra : Fields) :
    Goes Worked (s.lookup kind role extra) := by
  intro x
  rcases s.lookup_cases kind role extra x with
    ⟨found, y, request, h, hj, -, hc⟩ | ⟨e, y, h, hj, hc | ⟨request, e', hc⟩⟩ <;> rw [h] <;>
    exact worked_of_job_eq hj (by simp [hc])

theorem found_of_lookup {kind : LookupKind} {role : Option Role} {extra : Fields} {found : Json}
    {x y : Desk σ} (h : s.lookup kind role extra x = .ok (some found) y) :
    Found y.world.calls kind found := by
  rcases s.lookup_cases kind role extra x with
    ⟨found', y', request, h', -, hk, hc⟩ | ⟨e, y', h', -, -⟩ <;> cases h.symm.trans h'
  exact ⟨request, hk, by simp [hc]⟩

theorem worked_submit (operation : Operation) (name : String) (role : Option Role) (extra : Fields)
    (x : Desk σ) : Worked x (left (s.submit operation name role extra x)) ∧
      ∀ t y, s.submit operation name role extra x = .ok t y →
        Submitted y.world.calls operation t := by
  rcases s.submit_cases operation name role extra x with
    ⟨t, y, request, h, hr, hj, hc⟩ | ⟨e, y, h, hj, hc⟩ <;> rw [h]
  · have hs : Submitted y.world.calls operation t := ⟨request, hr.operation, by simp [hc]⟩
    refine ⟨⟨by simp [hj], by simp [hj], by simp [hc], fun {n u} hu => ?_⟩, fun t' y' h' => ?_⟩
    · rw [left_ok, hj, Job.tasks_putTask, TaskList.get?_put] at hu
      split at hu
      · rcases t.overlay_eq_or (x.job.tasks.get? n) with ho | ho
        · rw [ho] at hu
          cases hu
          exact .inr ⟨operation, hs⟩
        · exact .inl (by rw [ho, hu])
      · exact .inl hu
    · cases h'
      exact hs
  · refine ⟨worked_of_job_eq hj ?_, fun t' y' h' => by cases h'⟩
    rcases hc with hc | ⟨request, e', -, hc⟩ <;> simp [hc]

theorem runTask_spec (operation : Operation) (role : Option Role) (extra : Fields) (x : Desk σ) :
    Worked x (left (s.runTask operation role extra x)) ∧
      ∀ t y, s.runTask operation role extra x = .ok t y → Submitted y.world.calls operation t ∨
        ∃ name, s.taskName? operation = some name ∧ x.job.tasks.get? name = some t := by
  have hsettled : ∀ {t t' : TaskRecord} {x' y : Desk σ},
      Desk.lift t.settled x' = .ok t' y → t' = t ∧ y = x' := fun {t t' x' y} h => by
    unfold TaskRecord.settled at h
    split at h <;> cases h
    exact ⟨rfl, rfl⟩
  rcases s.runTask_cases operation role extra x with
    ⟨e, h⟩ | ⟨name, hname, ⟨t, ht, h⟩ | ⟨-, h⟩⟩ <;> rw [h]
  · exact ⟨refl_of Worked x, fun t y h => by cases h⟩
  · refine ⟨goes_lift t.settled x, fun t' y h' => ?_⟩
    obtain ⟨rfl, -⟩ := hsettled h'
    exact .inr ⟨name, hname, ht⟩
  · obtain ⟨hw, hs⟩ := s.worked_submit operation name role extra x
    refine ⟨left_bind hw fun t y _ => goes_lift t.settled y, fun t' y' h' => ?_⟩
    obtain ⟨t, y, hsub, hlift⟩ := bind_eq_ok h'
    obtain ⟨rfl, rfl⟩ := hsettled hlift
    exact .inl (hs _ _ hsub)

end Services

/-- A status of a task is the answer to a request for its operation, or it has the name of such a
task and was recorded or sent as the answer to another request. -/
def Desk.Obtained {σ : Type} (s : Services σ) (x y : Desk σ) (operation : Operation)
    (t : TaskRecord) : Prop :=
  Submitted y.world.calls operation t ∨ s.taskName? operation = some t.name ∧
    (x.job.tasks.get? t.name = some t ∨ ∃ o, Submitted y.world.calls o t)

theorem Desk.Obtained.of_worked {σ : Type} {s : Services σ} {x y z : Desk σ}
    {operation : Operation} {t : TaskRecord} (h : Obtained s y z operation t) (hw : Worked x y)
    (hc : y.world.calls ⊆ z.world.calls) : Obtained s x z operation t := by
  rcases h with h | ⟨hname, h | h⟩
  · exact .inl h
  · rcases hw.tasks h with h | ⟨o, h⟩
    · exact .inr ⟨hname, .inl h⟩
    · exact .inr ⟨hname, .inr ⟨o, h.mono hc⟩⟩
  · exact .inr ⟨hname, .inr h⟩

def Desk.withProgress {σ : Type} (x : Desk σ) (p : Progress) : Desk σ :=
  { x with job := { x.job with progress := p } }

namespace Milestone

variable {σ : Type} (s : Services σ)

/-- How a milestone came to be done: it had been reached, an answer settled it, or its task was
successful. -/
inductive Completed (m : Milestone) (x : Desk σ) : Desk σ → Prop where
  | before (h : m.isReached x.job.progress = true) : Completed m x x
  | found {kind : LookupKind} {extra : Job → Fields} {found : Json} {p : Progress} {y : Desk σ}
      (hlookup : m.lookup = some (kind, extra)) (hfound : Found y.world.calls kind found)
      (hp : m.ofFound x.job found = .ok (some p)) (hw : Worked x y) :
      Completed m x (y.withProgress p)
  | task {job : Job} {t : TaskRecord} {p : Progress} {y : Desk σ} (hs : t.state = .successful)
      (ht : Obtained s x y m.operation t) (hjob : job.progress = x.job.progress)
      (hp : m.ofTask job t = .ok p) (hw : Worked x y) : Completed m x (y.withProgress p)

theorem look_cases (m : Milestone) (x : Desk σ) :
    (∃ kind extra found p y, m.look s x = .ok (some p) y ∧ m.lookup = some (kind, extra) ∧
      Found y.world.calls kind found ∧ m.ofFound x.job found = .ok (some p) ∧ Worked x y) ∨
    ∃ y, Worked x y ∧ (m.look s x = .ok none y ∨ ∃ e, m.look s x = .error e y) := by
  unfold look
  cases hl : m.lookup with
  | none => exact .inr ⟨x, refl_of Worked x, .inl rfl⟩
  | some look =>
    obtain ⟨kind, extra⟩ := look
    simp only [currentJob_bind]
    split
    · exact .inr ⟨x, refl_of Worked x, .inl rfl⟩
    · have hw := s.goes_worked_lookup kind m.role (extra x.job) x
      rcases s.lookup_cases kind m.role (extra x.job) x with
        ⟨found, y, request, h, hj, hk, hc⟩ | ⟨e, y, h, hj, hc⟩
      · rw [h, left_ok] at hw
        rw [bind_of_ok h]
        cases found with
        | none => exact .inr ⟨y, hw, .inl rfl⟩
        | some found =>
          have hf : Found y.world.calls kind found := ⟨request, hk, by simp [hc]⟩
          cases hp : m.ofFound x.job found with
          | error e => exact .inr ⟨y, hw, .inr ⟨e, by simp only [hp]; rfl⟩⟩
          | ok p =>
            cases p with
            | none => exact .inr ⟨y, hw, .inl (by simp only [hp]; rfl)⟩
            | some p =>
              exact .inl ⟨kind, extra, found, p, y, by simp only [hp]; rfl, rfl, hf, hp, hw⟩
      · rw [h, left_error] at hw
        rw [bind_of_error h]
        exact .inr ⟨y, hw, .inr ⟨e, rfl⟩⟩

theorem perform_cases (m : Milestone) (x : Desk σ) :
    (∃ t p y, m.perform s x = .ok .done (y.withProgress p) ∧ t.state = .successful ∧
      Obtained s x y m.operation t ∧ m.ofTask x.job t = .ok p ∧ Worked x y) ∨
    ∃ y, Worked x y ∧
      ((∃ t, m.perform s x = .ok (.waiting t) y) ∨ ∃ e, m.perform s x = .error e y) := by
  obtain ⟨hw, hfrom⟩ := s.runTask_spec m.operation m.role (m.extra x.job) x
  unfold perform
  rw [currentJob_bind]
  cases h : s.runTask m.operation m.role (m.extra x.job) x with
  | error e y =>
    rw [h] at hw
    rw [bind_of_error h]
    exact .inr ⟨y, hw, .inr ⟨e, rfl⟩⟩
  | ok t y =>
    rw [h] at hw
    rw [bind_of_ok h]
    by_cases hs : t.state = .successful
    · cases hp : m.ofTask x.job t with
      | error e => exact .inr ⟨y, hw, .inr ⟨e, by simp only [hs, if_true]; rfl⟩⟩
      | ok p =>
        refine .inl ⟨t, p, y, by simp only [hs, if_true]; rfl, hs, ?_, hp, hw⟩
        rcases hfrom t y h with ht | ⟨name, hname, ht⟩
        · exact .inl ht
        · have hn := TaskList.name_eq ht
          exact .inr ⟨by rw [hname, hn], .inl (by rw [hn, ht])⟩
    · exact .inr ⟨y, hw, .inl ⟨t, by simp only [hs, if_false]; rfl⟩⟩

theorem run_cases (m : Milestone) (x : Desk σ) :
    (∃ y, m.run s x = .ok .done y ∧ Completed s m x y) ∨
    ∃ y, Worked x y ∧ ((∃ t, m.run s x = .ok (.waiting t) y) ∨ ∃ e, m.run s x = .error e y) := by
  unfold run
  rw [currentJob_bind]
  split
  · next hr => exact .inl ⟨x, rfl, .before hr⟩
  · rcases m.look_cases s x with
      ⟨kind, extra, found, p, y, h, hl, hf, hp, hw⟩ | ⟨y, hw, h | ⟨e, h⟩⟩
    · exact .inl ⟨y.withProgress p, by rw [bind_of_ok h]; rfl, .found hl hf hp hw⟩
    · rw [bind_of_ok h]
      -- The task is run at the desk after the lookup, where the progress is still the same.
      rcases m.perform_cases s y with ⟨t, p, z, hz, hs, ht, hp, hw'⟩ | ⟨z, hw', hz⟩
      · exact .inl ⟨z.withProgress p, hz, .task hs (ht.of_worked hw hw'.calls) hw.progress hp
          (hw.trans hw')⟩
      · exact .inr ⟨z, hw.trans hw', hz⟩
    · exact .inr ⟨y, hw, .inr ⟨e, by rw [bind_of_error h]⟩⟩

end Milestone

namespace Step

variable {σ : Type} (s : Services σ)

theorem runClear_cases (x : Desk σ) :
    (x.job.progress.transactionCleared = some true ∧ runClear s x = .ok .done x) ∨
    (∃ y, Worked x y ∧ ⟨.clear x.job.transactionId, .ok ()⟩ ∈ y.world.calls ∧ runClear s x =
      .ok .done (y.withProgress { x.job.progress with transactionCleared := some true })) ∨
    ∃ e y, Worked x y ∧ runClear s x = .error e y := by
  unfold runClear
  rw [currentJob_bind]
  split
  · next h => exact .inl ⟨h, rfl⟩
  · rcases s.clear_cases x with ⟨y, h, hj, hc⟩ | ⟨e, e', y, h, hj, hc⟩
    · exact .inr (.inl ⟨y, worked_of_job_eq hj (by simp [hc]), by simp [hc],
        by rw [bind_of_ok h]; rfl⟩)
    · exact .inr (.inr ⟨e, y, worked_of_job_eq hj (by simp [hc]), by rw [bind_of_error h]⟩)

theorem runFindProject_cases (x : Desk σ) :
    (∃ found y, runFindProject s x = .ok .settled y ∧ Found y.world.calls .projectTask found ∧
      (found.foundText? "ProjectID").isSome = true) ∨
    ∃ y, Worked x y ∧
      (runFindProject s x = .ok .done y ∨ ∃ e, runFindProject s x = .error e y) := by
  unfold runFindProject
  rw [currentJob_bind]
  split
  · exact .inr ⟨x, refl_of Worked x, .inl rfl⟩
  · have hw := s.goes_worked_lookup .projectTask none ∅ x
    rcases s.lookup_cases .projectTask none ∅ x with
      ⟨found, y, request, h, hj, hk, hc⟩ | ⟨e, y, h, hj, hc⟩
    · rw [h, left_ok] at hw
      rw [bind_of_ok h]
      cases found with
      | none => exact .inr ⟨y, hw, .inl rfl⟩
      | some found =>
        have hf : Found y.world.calls .projectTask found := ⟨request, hk, by simp [hc]⟩
        cases hp : found.foundText? "ProjectID" with
        | none =>
          have ho : x.job.ofFoundProject found =
              .error (.internal "project task lookup returned no ProjectID") := by
            simp [Job.ofFoundProject, hp]
          exact .inr ⟨y, hw, .inr ⟨_, by simp only [ho]; rfl⟩⟩
        | some id =>
          obtain ⟨p, ho⟩ : ∃ p, x.job.ofFoundProject found = .ok p := by
            simp [Job.ofFoundProject, hp]
          exact .inl ⟨found, y.withProgress p, by simp only [ho]; rfl, hf, by simp [hp]⟩
    · rw [h, left_error] at hw
      rw [bind_of_error h]
      exact .inr ⟨y, hw, .inr ⟨e, rfl⟩⟩

end Step

namespace Desk

variable {σ : Type} {x y : Desk σ}

/-- The packet of the job is the same, and the calls that were made are still known. -/
def Grew (x y : Desk σ) : Prop := y.job.packet = x.job.packet ∧ x.world.calls ⊆ y.world.calls

instance : IsPreorder (Desk σ) Grew where
  refl _ := ⟨rfl, List.Subset.refl _⟩
  trans _ _ _ h h' := ⟨h'.1.trans h.1, List.Subset.trans h.2 h'.2⟩

theorem upheld_grew (s : Services σ) : Upheld s Grew where
  lookup kind role extra x :=
    have h := s.goes_worked_lookup kind role extra x
    ⟨h.packet, h.calls⟩
  clear x := by
    rcases s.clear_cases x with ⟨y, h, hj, hc⟩ | ⟨e, e', y, h, hj, hc⟩ <;> rw [h] <;>
      exact ⟨by simp [hj], by simp [hc]⟩
  runTask operation role extra x :=
    have h := (s.runTask_spec operation role extra x).1
    ⟨h.packet, h.calls⟩
  setProgress _ _ := ⟨rfl, List.Subset.refl _⟩

end Desk

end SiteBroker
