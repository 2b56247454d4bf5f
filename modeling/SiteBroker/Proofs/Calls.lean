import Mathlib.Data.List.Induction
import SiteBroker.Proofs.Program
import SiteBroker.World

/-! The calls that were made, as the log of the world tells of them. -/

namespace SiteBroker

namespace TaskRequest

theorem of_ofPacketFields {operation : Operation} {keys : TaskKeys} {name : String}
    {timestamp : Instant} {fields : Fields} {r : TaskRequest}
    (h : ofPacketFields operation keys name timestamp fields = .ok r) :
    r.operation = operation ∧ r.keys = keys ∧ r.taskName = name := by
  unfold ofPacketFields build at h
  split at h
  · cases h
    exact ⟨rfl, rfl, rfl⟩
  · cases h

end TaskRequest

namespace LookupRequest

theorem kind_of_ofPacketFields {kind : LookupKind} {fields : Fields} {r : LookupRequest}
    (h : ofPacketFields kind fields = .ok r) : r.kind = kind := by
  unfold ofPacketFields build at h
  split at h
  · cases h
    rfl
  · cases h

end LookupRequest

/-- A call and what came of it. -/
structure Exchange where
  call : Call
  outcome : Except ServiceError call.Answer

def Event.exchange? : Event → Option Exchange
  | .called call outcome => some ⟨call, outcome⟩
  | .slept _ | .attended _ | .stored .. => none

namespace World

variable {σ : Type}

def calls (w : World σ) : List Exchange := w.log.filterMap Event.exchange?

theorem calls_note (w : World σ) (e : Event) :
    (w.note e).calls = w.calls ++ e.exchange?.toList := by
  cases h : e.exchange? <;> simp [calls, note, h]

@[simp] theorem calls_note_called (w : World σ) (c : Call)
    (outcome : Except ServiceError c.Answer) :
    (w.note (.called c outcome)).calls = w.calls ++ [⟨c, outcome⟩] := w.calls_note _

@[simp] theorem calls_note_stored (w : World σ) (key : String) (record : Fields)
    (outcome : Except FileError Bool) : (w.note (.stored key record outcome)).calls = w.calls := by
  simp [calls_note, Event.exchange?]

@[simp] theorem calls_setEpisode (w : World σ) (episode : Option Episode) (side : Side) :
    (w.setEpisode episode side).calls = w.calls := by
  cases side <;> rfl

/-- From one world to the other all calls that were made are of some kind. -/
def Makes (P : Call → Prop) (w w' : World σ) : Prop :=
  ∃ news, w'.calls = w.calls ++ news ∧ ∀ x ∈ news, P x.call

namespace Makes

variable {P P' : Call → Prop} {w w' w'' : World σ}

theorem of_eq (h : w'.calls = w.calls) : w.Makes P w' :=
  ⟨[], by rw [h, List.append_nil], fun _ hx => absurd hx List.not_mem_nil⟩

theorem of_call {x : Exchange} (h : w'.calls = w.calls ++ [x]) (hx : P x.call) : w.Makes P w' :=
  ⟨[x], h, fun y hy => by rwa [List.mem_singleton.mp hy]⟩

theorem trans (h : w.Makes P w') (h' : w'.Makes P w'') : w.Makes P w'' := by
  obtain ⟨news, hc, hnews⟩ := h
  obtain ⟨news', hc', hnews'⟩ := h'
  refine ⟨news ++ news', by rw [hc', hc, List.append_assoc], fun x hx => ?_⟩
  exact (List.mem_append.mp hx).elim (hnews x) (hnews' x)

theorem mono (h : w.Makes P w') (hP : ∀ c, P c → P' c) : w.Makes P' w' := by
  obtain ⟨news, hc, hnews⟩ := h
  exact ⟨news, hc, fun x hx => hP x.call (hnews x hx)⟩

end Makes

end World

/-- What is found in the log of a run that started with an empty one was entered at one step. -/
theorem exists_step_of_logged {α β γ : Type} {step : β → α → β} {log : β → List γ}
    (hgrows : ∀ b a, log b <+: log (step b a)) {b : β} (hb : log b = []) {l : List α}
    {front rest : List γ} {x : γ} (h : log (l.foldl step b) = front ++ x :: rest) :
    ∃ before a after mid rest', l = before ++ a :: after ∧
      front = log (before.foldl step b) ++ mid ∧
      log (step (before.foldl step b) a) = log (before.foldl step b) ++ (mid ++ x :: rest') := by
  induction l using List.reverseRecOn generalizing rest with
  | nil => simp [hb] at h
  | append_singleton l a ih =>
    rw [List.foldl_append, List.foldl_cons, List.foldl_nil] at h
    obtain ⟨news, hnews⟩ := hgrows (l.foldl step b) a
    rw [← hnews] at h
    rcases List.append_eq_append_iff.mp h with ⟨mid, hfront, he⟩ | ⟨mid, hlog, he⟩
    · exact ⟨l, a, [], mid, rest, rfl, hfront, by rw [← hnews, he]⟩
    · cases mid with
      | nil =>
        refine ⟨l, a, [], [], rest, rfl, by simpa using hlog.symm, ?_⟩
        rw [← hnews, List.nil_append, he, List.nil_append]
      | cons y mid =>
        obtain ⟨rfl, -⟩ := List.cons.inj he
        obtain ⟨before, a', after, mid', rest', hl, hfront, hstep⟩ := ih hlog
        exact ⟨before, a', after ++ [a], mid', rest', by simp [hl], hfront, hstep⟩

namespace Services

variable {σ : Type} (s : Services σ)

@[simp] theorem calls_read (w : World σ) : (s.clock.read w).2.calls = w.calls := rfl

@[simp] theorem calls_sleep (d : Duration) (w : World σ) : (s.clock.sleep d w).calls = w.calls := by
  simp [clock, World.calls, World.note, Event.exchange?]

/-- An attempt makes its call once, after a wait or at once. The error that it ends in may be
another than that of the call. -/
theorem attempt_ask_cases (policy : RetryPolicy) (c : Call) (episode : Option Episode)
    (w : World σ) :
    (∃ a episode' w', policy.attempt s.clock (s.ask c) episode w = (.ok a, episode', w') ∧
      w'.calls = w.calls ++ [⟨c, .ok a⟩]) ∨
    ∃ e e' episode' w', policy.attempt s.clock (s.ask c) episode w = (.error e, episode', w') ∧
      w'.calls = w.calls ++ [⟨c, .error e'⟩] := by
  have hask : ∀ w₁ : World σ, w₁.calls = w.calls →
      (s.ask c w₁).2.calls = w.calls ++ [⟨c, (s.ask c w₁).1⟩] := fun w₁ h => by
    rw [← h]
    exact World.calls_note_called _ c _
  unfold RetryPolicy.attempt
  rcases episode with _ | ep
  case' none => have h := hask w rfl
  case' some => have h := hask _ (s.calls_sleep ep.delay w)
  all_goals
    dsimp only
    split
    · next a w₂ he =>
      rw [he] at h
      exact .inl ⟨a, none, w₂, rfl, h⟩
    · next e w₂ he =>
      rw [he] at h
      right
      split <;> exact ⟨_, _, _, _, rfl, h⟩

theorem call_cases (c : Call) (w : World σ) :
    (∃ a w', s.call c w = .ok a w' ∧ w'.calls = w.calls ++ [⟨c, .ok a⟩]) ∨
    ∃ e e' w', s.call c w = .error e w' ∧ w'.calls = w.calls ++ [⟨c, .error e'⟩] := by
  unfold call
  rcases s.attempt_ask_cases (s.policy c.side) c (w.episode c.side) w with
    ⟨a, episode, w', h, hc⟩ | ⟨e, e', episode, w', h, hc⟩
  · exact .inl ⟨a, _, by rw [h], by rw [World.calls_setEpisode, hc]⟩
  · exact .inr ⟨e, e', _, by rw [h], by rw [World.calls_setEpisode, hc]⟩

theorem calls_attempt_ask (policy : RetryPolicy) (c : Call) (episode : Option Episode)
    (w : World σ) : ∃ o, (policy.attempt s.clock (s.ask c) episode w).2.2.calls =
      w.calls ++ [⟨c, (s.environment.answer c o).1⟩] := by
  have hask : ∀ w₁ : World σ, w₁.calls = w.calls → ∃ o,
      (s.ask c w₁).2.calls = w.calls ++ [⟨c, (s.environment.answer c o).1⟩] := fun w₁ h => by
    rw [← h]
    exact ⟨w₁.outside, World.calls_note_called _ c _⟩
  unfold RetryPolicy.attempt
  rcases episode with _ | ep
  case' none => obtain ⟨o, h⟩ := hask w rfl
  case' some => obtain ⟨o, h⟩ := hask _ (s.calls_sleep ep.delay w)
  all_goals
    refine ⟨o, ?_⟩
    dsimp only
    split
    · next a w₂ he => rwa [he] at h
    · next e w₂ he =>
      rw [he] at h
      split <;> exact h

/-- What is noted of a call is the answer of the environment. -/
theorem calls_call (c : Call) (w : World σ) :
    ∃ o, (Program.left (s.call c w)).calls = w.calls ++ [⟨c, (s.environment.answer c o).1⟩] := by
  obtain ⟨o, h⟩ := s.calls_attempt_ask (s.policy c.side) c (w.episode c.side) w
  refine ⟨o, ?_⟩
  unfold call
  revert h
  rcases (s.policy c.side).attempt s.clock (s.ask c) (w.episode c.side) w with ⟨outcome, _, w'⟩
  intro h
  cases outcome with
  | ok a => exact (World.calls_setEpisode _ _ _).trans h
  | error e => exact (World.calls_setEpisode _ _ _).trans h

end Services

end SiteBroker
