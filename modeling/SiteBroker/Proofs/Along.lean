import SiteBroker.Proofs.Errand

/-! Relations between worlds that all that a broker does leads along, because the few things that
happen in the world do. -/

namespace SiteBroker

open Program

/-- What happens in the world, and what is kept there between calls, leads along the relation. -/
structure Services.Upheld {σ : Type} (s : Services σ) (R : World σ → World σ → Prop) : Prop where
  read : ∀ w, R w (s.clock.read w).2
  sleep : ∀ d w, R w (s.clock.sleep d w)
  ask : ∀ c w, R w (s.ask c w).2
  setEpisode : ∀ w episode side, R w (World.setEpisode w episode side)
  stored : ∀ w key record outcome, R w (World.note w (.stored key record outcome))

/-- The worlds of two states are related. -/
def Along {σ α : Type} (R : World σ → World σ → Prop) (world : α → World σ) (a a' : α) : Prop :=
  R (world a) (world a')

section

variable {σ α : Type} {R : World σ → World σ → Prop}

theorem Desk.goes_outside {x : EStateM ServiceError (World σ) α} (h : Goes R x) :
    Goes (Along R Desk.world) (Desk.outside x) := by
  intro d
  have hx := h d.world
  unfold Desk.outside
  revert hx
  cases x d.world <;> exact id

def Broker.world (b : Broker σ) : World σ := b.office.world

theorem Broker.goes_outside {x : EStateM ServiceError (World σ) α} (h : Goes R x) :
    Goes (Along R Broker.world) (Broker.outside x) := by
  intro b
  have hx := h b.office.world
  unfold Broker.outside
  revert hx
  cases x b.office.world <;> exact id

theorem Broker.world_withoutTaskOnly (b : Broker σ) : b.withoutTaskOnly.world = b.world :=
  (foldl_purge b.office b.docket.taskOnly).2

variable [IsPreorder (World σ) R]

instance {world : α → World σ} : IsPreorder α (Along R world) where
  refl a := refl_of R (world a)
  trans _ _ _ h h' := trans_of R h h'

theorem along_of_eq {world : α → World σ} {a a' : α} (h : world a' = world a) :
    Along R world a a' := by
  rw [Along, h]
  exact refl_of R _

theorem Desk.goes_validated (r : Except ValidationError α) :
    Goes (Along R Desk.world) (validated r : Work σ α) := by
  cases r <;> exact fun x => refl_of (Along R Desk.world) x

theorem Broker.goes_modifyGet {f : Broker σ → α × Broker σ} (h : ∀ b, (f b).2.world = b.world) :
    Goes (Along R Broker.world) (modifyGet f : Brokerage σ α) := fun b => along_of_eq (h b)

end

variable {σ : Type} {R : World σ → World σ → Prop} [IsPreorder (World σ) R]

namespace Services.Upheld

variable {s : Services σ} (hR : s.Upheld R)

include hR

theorem attempt (policy : RetryPolicy) (c : Call) (episode : Option Episode) (w : World σ) :
    R w (policy.attempt s.clock (s.ask c) episode w).2.2 := by
  unfold RetryPolicy.attempt
  rcases episode with _ | ep
  case' none => have h := hR.ask c w
  case' some => have h := trans_of R (hR.sleep ep.delay w) (hR.ask c _)
  all_goals
    dsimp only
    split
    · next a w' he => rwa [he] at h
    · next e w' he =>
      rw [he] at h
      split
      · exact trans_of R h (hR.read w')
      · exact h

theorem call (c : Call) : Goes R (s.call c) := by
  intro w
  have h := hR.attempt (s.policy c.side) c (w.episode c.side) w
  unfold Services.call
  revert h
  rcases (s.policy c.side).attempt s.clock (s.ask c) (w.episode c.side) w with ⟨outcome, _, w'⟩
  intro h
  cases outcome <;> exact trans_of R h (hR.setEpisode w' _ _)

omit [IsPreorder (World σ) R] in
theorem now {ε : Type} : Goes R (s.now : EStateM ε (World σ) Instant) := hR.read

theorem submit (operation : Operation) (name : String) (role : Option Role) (extra : Fields) :
    Goes (Along R Desk.world) (s.submit operation name role extra) := by
  refine .bind Desk.goes_currentJob fun job => .bind (Desk.goes_outside hR.now) fun now => ?_
  refine .bind (Desk.goes_validated _) fun request => ?_
  refine .bind (Desk.goes_outside (hR.call _)) fun t => ?_
  exact .bind (fun x => refl_of (Along R Desk.world) x) fun _ => .pure t

theorem work : Desk.Upheld s (Along R Desk.world) where
  lookup kind role extra := .bind Desk.goes_currentJob fun job =>
    .bind (Desk.goes_validated _) fun request => Desk.goes_outside (hR.call _)
  clear := .bind Desk.goes_currentJob fun job => Desk.goes_outside (hR.call _)
  runTask operation role extra := by
    intro x
    rcases s.runTask_cases operation role extra x with
      ⟨e, h⟩ | ⟨name, -, ⟨t, -, h⟩ | ⟨-, h⟩⟩ <;> rw [h]
    · exact refl_of (Along R Desk.world) x
    · exact Desk.goes_lift _ x
    · exact Goes.bind (hR.submit operation name role extra) (fun t => Desk.goes_lift t.settled) x
  setProgress _ x := refl_of (Along R Desk.world) x

end Services.Upheld

namespace Office

variable {s : Services σ} (hR : s.Upheld R)

include hR

theorem along_attend (x : Desk σ) : Along R Desk.world x (attend (Registry.catalog s) x).2 := by
  have h := Registry.goes_work hR.work x.job.packet.type x
  unfold attend
  revert h
  cases (Registry.catalog s).work x.job.packet.type x with
  | ok outcome y => cases outcome <;> exact id
  | error e y => exact id

theorem along_serve_one (id : TransactionId) (o : Office σ) :
    Along R Office.world o (left (o.serveAll s (Registry.catalog s) [] [id])) := by
  simp only [serveAll]
  split
  · exact refl_of (Along R Office.world) o
  · next job _ =>
    have h := along_attend hR ⟨job, o.world⟩
    revert h
    rcases attend (Registry.catalog s) ⟨job, o.world⟩ with ⟨outcome, desk⟩
    intro h
    have h : R o.world desk.world := h
    cases outcome with
    | error e => exact h
    | ok answer =>
      cases answer with
      | none => exact trans_of R h (hR.stored _ _ _ _)
      | some reply => exact trans_of R h (trans_of R (hR.stored _ _ _ _) (hR.read _))

end Office

namespace Broker

variable {setup : Setup σ} (hR : setup.services.Upheld R)

include hR

theorem along_call (c : Call) : Goes (Along R world) (call setup c) := goes_outside (hR.call c)

omit [IsPreorder (World σ) R] in
theorem along_now : Goes (Along R world) (now setup) := goes_outside hR.now

theorem along_sendAll (packets : List Packet) : Goes (Along R world) (sendAll setup packets) := by
  induction packets with
  | nil => exact .pure _
  | cons p rest ih =>
    refine .bind (along_call hR _) fun _ => ?_
    dsimp only
    split
    · exact .bind (goes_modifyGet fun b => rfl) fun _ => .bind ih fun _ => .pure _
    · exact .bind ih fun _ => .pure _

theorem along_carryOut (hr : setup.registry = Registry.catalog setup.services) (b : Broker σ)
    (e : Errand) : Along R world b (carryOut setup b e) := by
  cases e with
  | readClock => exact along_now hR b
  | loadTasks wait =>
    exact Goes.bind .get
      (fun _ => .bind (along_call hR _) fun _ => goes_modifyGet fun _ => rfl) b
  | list => exact trans_of (Along R world) (along_now hR b) (along_call hR _ _)
  | take query p => exact refl_of (Along R world) b
  | close p => exact Goes.bind (along_call hR _) (fun _ => goes_modifyGet fun _ => rfl) b
  | dropTaskOnly => exact along_of_eq (world_withoutTaskOnly b)
  | settle query => exact refl_of (Along R world) b
  | attend id =>
    have h := Office.along_serve_one hR id b.office
    rwa [← hr] at h
  | flush =>
    exact Goes.bind (along_now hR)
      (fun _ => .bind (goes_modifyGet fun _ => rfl) fun due => along_sendAll hR due) b
  | nextWait => exact Goes.bind (along_now hR) (fun _ => goes_modifyGet fun _ => rfl) b
  | sleep seconds => exact hR.sleep _ b.office.world

theorem along_of_carries (hr : setup.registry = Registry.catalog setup.services)
    {b b' : Broker σ} (h : Carries setup b b') : Along R world b b' := by
  obtain ⟨errands, -, rfl⟩ := h
  induction errands generalizing b with
  | nil => exact refl_of (Along R world) b
  | cons e errands ih => exact trans_of (Along R world) (along_carryOut hR hr b e) ih

end Broker

end SiteBroker
