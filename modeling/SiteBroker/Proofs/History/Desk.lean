import SiteBroker.Proofs.History
import SiteBroker.Proofs.Workflow

/-! The work on a job as a history: whatever docket holds the job, each call made and each result
found at the desk is a deed that the docket allows. -/

namespace SiteBroker

open Program

namespace Desk

variable {σ : Type} {x y z : Desk σ}

/-- One desk leads to another if it does so for each docket that holds the job, and drops
nothing. -/
def Leads (x y : Desk σ) : Prop :=
  y.job.packet = x.job.packet ∧
  ∀ d : Docket, d.Sound → d.job? x.job.transactionId = some x.job →
    Situation.LeadsBy (·.drops = false) ⟨d, x.world.calls⟩
      ⟨d.mapJob x.job.transactionId fun _ => y.job, y.world.calls⟩

theorem leads_of_eq (hj : y.job = x.job) (hc : y.world.calls = x.world.calls) : Leads x y := by
  refine ⟨by rw [hj], fun d _ hd => ?_⟩
  rw [hc, Docket.mapJob_of_fixed hd hj]
  exact .refl _ _

theorem Leads.trans (hxy : Leads x y) (hyz : Leads y z) : Leads x z := by
  obtain ⟨hp, h⟩ := hxy
  obtain ⟨hp', h'⟩ := hyz
  refine ⟨hp'.trans hp, fun d hs hd => ?_⟩
  have hid : y.job.transactionId = x.job.transactionId := by
    rw [Job.transactionId, hp]
    rfl
  have hstep := h d hs hd
  have hrest := h' (d.mapJob x.job.transactionId fun _ => y.job) (hstep.leads.sound hs)
    (by rw [hid, Docket.job?_mapJob, hd, Option.map_some])
  rw [hid, Docket.mapJob_mapJob] at hrest
  exact hstep.trans hrest

instance : IsPreorder (Desk σ) Leads where
  refl _ := leads_of_eq rfl rfl
  trans _ _ _ := Leads.trans

theorem leads_of_call {e : Exchange} (hj : y.job = x.job)
    (hc : y.world.calls = x.world.calls ++ [e]) (hm : e.moves = [])
    (ha : ∀ a : Situation, a.Allows (.called e)) : Leads x y := by
  have hd : (Deed.called e).drops = false := by simp [Deed.drops, Deed.moves, hm]
  refine ⟨by rw [hj], fun d _ hjob => .of_deed (ha _) hd ?_ hc⟩
  rw [Deed.moves, hm]
  exact Docket.mapJob_of_fixed hjob hj

theorem leads_of_progress {p : Progress} (hj : y.job = { x.job with progress := p })
    (hc : y.world.calls = x.world.calls) : Leads x y := by
  refine ⟨by rw [hj], fun d _ hd =>
    .of_silent_deed (e := .progressed x.job.transactionId p) trivial rfl rfl ?_ hc⟩
  exact Docket.mapJob_congr hd hj

theorem goes_setProgress (p : Progress) : Goes Leads (setProgress p : Work σ Unit) :=
  fun _ => leads_of_progress rfl rfl

end Desk

namespace Services

open Desk

variable {σ : Type} (s : Services σ)

theorem goes_lookup (kind : LookupKind) (role : Option Role) (extra : Fields) :
    Goes Leads (s.lookup kind role extra) := by
  intro x
  rcases s.lookup_cases kind role extra x with
    ⟨found, y, request, h, hj, -, hc⟩ | ⟨e, y, h, hj, hc | ⟨request, e', hc⟩⟩ <;> rw [h]
  · exact leads_of_call hj hc rfl fun _ => trivial
  · exact leads_of_eq hj hc
  · exact leads_of_call hj hc rfl fun _ => trivial

theorem goes_clear : Goes Leads s.clear := by
  intro x
  rcases s.clear_cases x with ⟨y, h, hj, hc⟩ | ⟨e, e', y, h, hj, hc⟩ <;> rw [h]
  · exact leads_of_call hj hc rfl fun _ => trivial
  · exact leads_of_call hj hc rfl fun _ => trivial

/-- The job makes the request, so it is for the job, and it is allowed if the task is open. -/
theorem Requests.allowed {job : Job} {operation : Operation} {name : String}
    {request : TaskRequest} (h : Requests job operation name request)
    (ho : (job.tasks.get? name).all (·.isOpen) = true) {d : Docket}
    (hd : d.job? job.transactionId = some job) (calls : List Exchange)
    (outcome : Except ServiceError TaskRecord) :
    Situation.Allows ⟨d, calls⟩ (.called ⟨.submit request, outcome⟩) := by
  refine ⟨job, ?_, ?_, ?_⟩
  · rw [h.keys]
    exact hd
  · rw [h.keys]
    rfl
  · rwa [h.name]

theorem leads_submit (operation : Operation) {name : String} (role : Option Role) (extra : Fields)
    {x : Desk σ} (ho : (x.job.tasks.get? name).all (·.isOpen) = true) :
    Leads x (left (s.submit operation name role extra x)) := by
  rcases s.submit_cases operation name role extra x with
    ⟨t, y, request, h, hr, hj, hc⟩ | ⟨e, y, h, hj, hc | ⟨request, e', hr, hc⟩⟩ <;>
    rw [h]
  · refine ⟨by simp [hj], fun d _ hd => .of_deed (hr.allowed ho hd _ (.ok t)) rfl ?_ hc⟩
    have hid : request.keys.transactionId = x.job.transactionId := by rw [hr.keys]; rfl
    show _ = d.mapJob request.keys.transactionId (·.putTask t)
    rw [hid]
    exact Docket.mapJob_congr hd hj
  · exact leads_of_eq hj hc
  · exact ⟨by simp [hj], fun d _ hd => .of_deed (hr.allowed ho hd _ (.error e'))
      rfl (Docket.mapJob_of_fixed hd hj) hc⟩

theorem goes_runTask (operation : Operation) (role : Option Role) (extra : Fields) :
    Goes Leads (s.runTask operation role extra) := by
  intro x
  rcases s.runTask_cases operation role extra x with
    ⟨e, h⟩ | ⟨name, -, ⟨t, -, h⟩ | ⟨ho, h⟩⟩ <;> rw [h]
  · exact refl_of Leads x
  · exact goes_lift _ x
  · have hsub := s.leads_submit operation role extra ho
    cases hs : s.submit operation name role extra x with
    | ok t y =>
      rw [bind_of_ok hs]
      rw [hs] at hsub
      exact hsub.trans (goes_lift _ y)
    | error e y =>
      rw [bind_of_error hs]
      rwa [hs] at hsub

end Services

theorem Desk.upheld_leads {σ : Type} (s : Services σ) : Upheld s Leads where
  lookup := s.goes_lookup
  clear := s.goes_clear
  runTask := s.goes_runTask
  setProgress := goes_setProgress

theorem Registry.goes_catalog {σ : Type} (s : Services σ) (t : PacketType) :
    Goes Desk.Leads ((Registry.catalog s).work t) := goes_work (Desk.upheld_leads s) t

end SiteBroker
