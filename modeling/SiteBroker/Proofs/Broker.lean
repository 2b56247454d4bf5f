import SiteBroker.Broker
import SiteBroker.Proofs.Program

/-! The commands that a broker can be given, and relations between brokers that all of them uphold
because the few operations they are made of do. -/

namespace SiteBroker

open Program

namespace Broker

variable {σ : Type} (setup : Setup σ)

inductive Command where
  | loadTasks (wait : Nat)
  | loadPackets
  | servePackets
  | flush
  | runOnce
  | nextWait
  | cycle
  | cycles (n : Nat)
  | persistently (n : Nat)

def perform : Command → Brokerage σ Unit
  | .loadTasks wait => discard (loadTasks setup wait)
  | .loadPackets => discard (loadPackets setup)
  | .servePackets => discard (servePackets setup)
  | .flush => discard (flush setup)
  | .runOnce => runOnce setup
  | .nextWait => discard (nextWait setup)
  | .cycle => runCycle setup
  | .cycles n => runCycles setup n
  | .persistently n => runPersistently setup n

/-- The broker after some commands, whether or not they ended in errors. -/
def performAll (b : Broker σ) (commands : List Command) : Broker σ :=
  commands.foldl (fun b c => left (perform setup c b)) b

/-- The operations that commands are made of lead from broker to broker as the relation allows. -/
structure Upheld (R : Broker σ → Broker σ → Prop) : Prop where
  now : Goes R (now setup)
  loadTasks : ∀ wait, Goes R (loadTasks setup wait)
  loadPackets : Goes R (loadPackets setup)
  servePackets : Goes R (servePackets setup)
  flush : Goes R (flush setup)
  nextWait : Goes R (nextWait setup)
  sleep : ∀ seconds, Goes R (sleep setup seconds)

namespace Upheld

variable {setup} {R : Broker σ → Broker σ → Prop} [IsPreorder (Broker σ) R]
  (hR : Upheld setup R)

include hR

theorem await : Goes R (await setup) := by
  refine .bind hR.nextWait fun (side, wait) => ?_
  cases side with
  | «local» => exact .bind (hR.loadTasks wait) fun _ => .pure _
  | remote =>
    dsimp only
    split
    · exact .bind (hR.sleep wait) fun _ => .bind (hR.loadTasks 0) fun _ => .pure _
    · exact .bind (hR.loadTasks 0) fun _ => .pure _

theorem runOnce : Goes R (runOnce setup) :=
  .bind (hR.loadTasks 0) fun _ => .bind hR.loadPackets fun _ =>
    .bind hR.servePackets fun _ => .bind hR.flush fun _ => .pure _

theorem runCycle : Goes R (runCycle setup) := by
  refine .bind hR.await fun _ => .bind hR.now fun now => .bind .get fun b => ?_
  dsimp only
  have hrest : Goes R (do
      let _ ← Broker.servePackets setup
      let _ ← Broker.flush setup : Brokerage σ Unit) :=
    .bind hR.servePackets fun _ => .bind hR.flush fun _ => .pure _
  split
  · exact .bind hR.loadPackets fun _ => hrest
  · exact hrest

theorem runCycles (n : Nat) : Goes R (runCycles setup n) := by
  induction n with
  | zero => exact .pure _
  | succ n ih => exact .bind hR.runCycle fun _ => ih

theorem runPersistently (n : Nat) : Goes R (runPersistently setup n) := by
  induction n with
  | zero => exact .pure _
  | succ n ih =>
    intro b
    have h := hR.runCycle b
    unfold Broker.runPersistently
    cases hc : Broker.runCycle setup b with
    | ok u b' =>
      rw [hc] at h
      exact trans_of R h (ih b')
    | error e b' =>
      rw [hc] at h
      dsimp only
      split
      · exact trans_of R h (ih b')
      · exact h

omit hR in
theorem goes_discard {α : Type} {x : Brokerage σ α} (h : Goes R x) : Goes R (discard x) :=
  .bind h fun _ => .pure _

theorem perform (c : Command) : Goes R (perform setup c) := by
  cases c with
  | loadTasks wait => exact goes_discard (hR.loadTasks wait)
  | loadPackets => exact goes_discard hR.loadPackets
  | servePackets => exact goes_discard hR.servePackets
  | flush => exact goes_discard hR.flush
  | runOnce => exact hR.runOnce
  | nextWait => exact goes_discard hR.nextWait
  | cycle => exact hR.runCycle
  | cycles n => exact hR.runCycles n
  | persistently n => exact hR.runPersistently n

theorem performAll (b : Broker σ) (commands : List Command) :
    R b (performAll setup b commands) := by
  induction commands generalizing b with
  | nil => exact refl_of R b
  | cons c commands ih => exact trans_of R (hR.perform c b) (ih _)

end Upheld

end Broker

end SiteBroker
