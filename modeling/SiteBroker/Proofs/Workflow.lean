import SiteBroker.Proofs.Desk
import SiteBroker.Workflow

/-! The work that a workflow makes of requests, and relations between desks that it upholds because
the requests do. -/

namespace SiteBroker

open Program

namespace Desk

variable {σ : Type} {R : Desk σ → Desk σ → Prop} [IsPreorder (Desk σ) R]

/-- The requests from a desk, and what is noted of their results, lead from desk to desk as the
relation allows. -/
structure Upheld (s : Services σ) (R : Desk σ → Desk σ → Prop) : Prop where
  lookup : ∀ kind role extra, Goes R (s.lookup kind role extra)
  clear : Goes R s.clear
  runTask : ∀ operation role extra, Goes R (s.runTask operation role extra)
  setProgress : ∀ p, Goes R (setProgress p)

theorem goes_currentJob : Goes R (currentJob : Work σ Job) := fun x => refl_of R x

theorem goes_lift {α : Type} (r : Except ServiceError α) : Goes R (lift r : Work σ α) := by
  cases r <;> exact fun x => refl_of R x

end Desk

open Desk

variable {σ : Type} {s : Services σ} {R : Desk σ → Desk σ → Prop} [IsPreorder (Desk σ) R]
  (hR : Upheld s R)

include hR

theorem Milestone.goes_look (m : Milestone) : Goes R (m.look s) := by
  unfold Milestone.look
  split
  · exact .pure _
  · next kind extra _ =>
    refine .bind goes_currentJob fun job => ?_
    split
    · exact .pure _
    · refine .bind (hR.lookup kind m.role (extra job)) fun found => ?_
      split
      · exact .pure _
      · exact goes_lift _

theorem Milestone.goes_perform (m : Milestone) : Goes R (m.perform s) := by
  unfold Milestone.perform
  refine .bind goes_currentJob fun job => .bind (hR.runTask _ _ _) fun t => ?_
  split
  · exact .bind (goes_lift _) fun p => .bind (hR.setProgress p) fun _ => .pure _
  · exact .pure _

theorem Milestone.goes_run (m : Milestone) : Goes R (m.run s) := by
  unfold Milestone.run
  refine .bind goes_currentJob fun job => ?_
  split
  · exact .pure _
  · refine .bind (m.goes_look hR) fun found => ?_
    split
    · next p => exact .bind (hR.setProgress p) fun _ => .pure _
    · exact m.goes_perform hR

theorem Step.goes_runClear : Goes R (Step.runClear s) := by
  unfold Step.runClear
  refine .bind goes_currentJob fun job => ?_
  split
  · exact .pure _
  · exact .bind hR.clear fun _ => .bind (hR.setProgress _) fun _ => .pure _

theorem Step.goes_runFindProject : Goes R (Step.runFindProject s) := by
  unfold Step.runFindProject
  refine .bind goes_currentJob fun job => ?_
  split
  · exact .pure _
  · refine .bind (hR.lookup _ _ _) fun found => ?_
    split
    · exact .pure _
    · exact .bind (goes_lift _) fun p => .bind (hR.setProgress p) fun _ => .pure _

theorem Step.goes_run (step : Step) : Goes R (step.run s) := by
  cases step with
  | milestone m => exact m.goes_run hR
  | adopt f =>
    exact .bind goes_currentJob fun job => .bind (goes_lift _) fun p =>
      .bind (hR.setProgress p) fun _ => .pure _
  | clear => exact Step.goes_runClear hR
  | findProject => exact Step.goes_runFindProject hR

theorem Step.goes_runAll (steps : List Step) : Goes R (Step.runAll s steps) := by
  induction steps with
  | nil => exact .pure _
  | cons step rest ih =>
    refine .bind (step.goes_run hR) fun result => ?_
    cases result with
    | done => exact ih
    | waiting t => exact .pure _
    | settled => exact .pure _

theorem Workflow.goes_work (w : Workflow) : Goes R (w.work s) := by
  unfold Workflow.work
  refine .bind goes_currentJob fun job => .bind (Step.goes_runAll hR _) fun result => ?_
  cases result with
  | waiting t => exact .pure _
  | done => exact .bind goes_currentJob fun job => .pure _
  | settled => exact .bind goes_currentJob fun job => .pure _

/-- The work on a job of any type, also of one that no workflow serves. -/
theorem Registry.goes_work (t : PacketType) : Goes R ((catalog s).work t) := by
  unfold work catalog
  cases Workflow.ofType? t with
  | none => exact .bind goes_currentJob fun job => .pure _
  | some w => exact w.goes_work hR

end SiteBroker
