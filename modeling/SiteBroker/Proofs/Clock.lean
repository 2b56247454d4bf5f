import Mathlib.Logic.Relation
import SiteBroker.Proofs.Along

/-! How time passes outside while a broker works: what it does to the services and their clock is a
series of readings, waits and calls. -/

namespace SiteBroker

namespace Environment

variable {σ : Type} (e : Environment σ)

inductive Step : σ → σ → Prop
  | read (o : σ) : Step o (e.clock.read o).2
  | sleep (d : Duration) (o : σ) : Step o (e.clock.sleep d o)
  | answer (c : Call) (o : σ) : Step o (e.answer c o).2

abbrev Passes : σ → σ → Prop := Relation.ReflTransGen e.Step

/-- What the clock shows. -/
def time (o : σ) : Instant := (e.clock.read o).1

/-- From a state on the clock never goes back. -/
def NeverGoesBack (start : σ) : Prop :=
  ∀ o o', e.Passes start o → e.Passes o o' → e.time o ≤ e.time o'

theorem neverGoesBack_of_step {e : Environment σ}
    (h : ∀ o o', e.Step o o' → e.time o ≤ e.time o') (start : σ) : e.NeverGoesBack start := by
  intro o o' _ hpasses
  induction hpasses with
  | refl => exact Instant.le_refl _
  | tail _ hstep ih => exact Instant.le_trans ih (h _ _ hstep)

end Environment

variable {σ α : Type} {world : α → World σ} (s : Services σ)

/-- What leads from one world to the other is what the services outside have been through. -/
def Services.Elapses (world : α → World σ) (a a' : α) : Prop :=
  s.environment.Passes (world a).outside (world a').outside

instance : IsPreorder α (s.Elapses world) where
  refl _ := .refl
  trans _ _ _ := .trans

theorem Services.upheld_elapses : s.Upheld (s.Elapses id) where
  read w := .single (.read w.outside)
  sleep d w := .single (.sleep d w.outside)
  ask c w := .single (.answer c w.outside)
  setEpisode w _ side := by cases side <;> exact refl_of (s.Elapses id) w
  stored w _ _ _ := refl_of (s.Elapses id) w

namespace Broker

/-- Time passes outside from one broker to another. -/
abbrev Elapses (setup : Setup σ) : Broker σ → Broker σ → Prop :=
  setup.services.Elapses (·.office.world)

theorem elapses_of_carries {setup : Setup σ}
    (hr : setup.registry = Registry.catalog setup.services) {b b' : Broker σ}
    (h : Carries setup b b') : Elapses setup b b' :=
  along_of_carries setup.services.upheld_elapses hr h

end Broker

end SiteBroker
