import Mathlib.Algebra.Group.Nat.Defs
import Mathlib.Data.Nat.Log
import Mathlib.Logic.Function.Iterate
import SiteBroker.Proofs.Waiting

/-! How waits grow. While the same one is wanted again and again, each wait is twice the one before,
from four seconds on, until the one that is wanted is reached; from then on nothing changes. A
broker gets as far while its next listing comes nearer, as long as that stays far off. -/

namespace SiteBroker

open Program

/-- The number of times that four seconds are doubled until they reach a wait. -/
def doublings (wanted : Nat) : Nat := Nat.clog 2 ((wanted + 3) / 4)

theorem doublings_le_iff {wanted d : Nat} : doublings wanted ≤ d ↔ wanted ≤ 4 * 2 ^ d := by
  rw [doublings, Nat.clog_le_iff_le_pow Nat.one_lt_two]
  omega

/-- Waits that follow one another come to the one that is wanted, whatever they started from, and
stay there. -/
structure Converges (waits : Nat → Nat) (wanted : Nat) : Prop where
  bounded : ∀ k, waits (k + 1) ≤ wanted
  grows : ∀ j k, j ≤ k → waits (j + 1) ≤ waits (k + 1)
  positive : 0 < wanted → ∀ k, 0 < waits (k + 1)
  reaches : ∀ k, doublings wanted ≤ k → waits (k + 1) = wanted

section

variable {wanted : Nat} (h : wanted ≤ waitLimit)

include h

/-- The limit on doubled waits holds up no wait within it. -/
theorem rampWait_eq (previous : Nat) :
    rampWait previous wanted = min wanted (max (2 * previous) 4) := by
  unfold rampWait
  split <;> omega

theorem rampWait_min {wait : Nat} (hwait : 4 ≤ wait) :
    rampWait (min wanted wait) wanted = min wanted (2 * wait) := by
  rw [rampWait_eq h]
  omega

theorem iterate_rampWait (previous k : Nat) :
    (rampWait · wanted)^[k + 1] previous = min wanted (2 ^ k * max (2 * previous) 4) := by
  induction k with
  | zero =>
    rw [pow_zero, one_mul]
    exact rampWait_eq h previous
  | succ k ih =>
    have hfour : 4 ≤ 2 ^ k * max (2 * previous) 4 :=
      Nat.le_trans (Nat.le_max_right _ _) (Nat.le_mul_of_pos_left _ (Nat.two_pow_pos k))
    calc (rampWait · wanted)^[k + 2] previous
        = rampWait ((rampWait · wanted)^[k + 1] previous) wanted :=
          Function.iterate_succ_apply' _ _ _
      _ = rampWait (min wanted (2 ^ k * max (2 * previous) 4)) wanted := by rw [ih]
      _ = min wanted (2 * (2 ^ k * max (2 * previous) 4)) := rampWait_min h hfour
      _ = min wanted (2 ^ (k + 1) * max (2 * previous) 4) := by rw [pow_succ', mul_assoc]

theorem iterate_rampWait_mono (previous : Nat) {j k : Nat} (hjk : j ≤ k) :
    (rampWait · wanted)^[j + 1] previous ≤ (rampWait · wanted)^[k + 1] previous := by
  have hgrown : 2 ^ j * max (2 * previous) 4 ≤ 2 ^ k * max (2 * previous) 4 :=
    Nat.mul_le_mul_right _ (Nat.pow_le_pow_right Nat.two_pos hjk)
  rw [iterate_rampWait h, iterate_rampWait h]
  omega

theorem iterate_rampWait_of_doublings (previous : Nat) {k : Nat} (hk : doublings wanted ≤ k) :
    (rampWait · wanted)^[k + 1] previous = wanted := by
  have hreach : wanted ≤ 2 ^ k * max (2 * previous) 4 :=
    calc wanted ≤ 4 * 2 ^ k := doublings_le_iff.mp hk
      _ = 2 ^ k * 4 := Nat.mul_comm _ _
      _ ≤ 2 ^ k * max (2 * previous) 4 := Nat.mul_le_mul_left _ (Nat.le_max_right _ _)
  rw [iterate_rampWait h, Nat.min_eq_left hreach]

/-- After a wait that was no longer than two seconds none of the doublings can be spared. -/
theorem iterate_rampWait_eq_iff {previous : Nat} (hprevious : previous ≤ 2) (k : Nat) :
    (rampWait · wanted)^[k + 1] previous = wanted ↔ doublings wanted ≤ k := by
  have hfour : max (2 * previous) 4 = 4 := by omega
  rw [iterate_rampWait h, hfour, doublings_le_iff]
  omega

end

/-- However long the wait before was: waits for which the same one is wanted are, from the first of
them on, not longer than that, not shorter than the one before, and not zero unless that is. They
have come to it one wait after the doublings from four seconds that it takes, and not sooner if the
wait before was at most two seconds. -/
theorem ramp_converges {wanted : Nat} (h : wanted ≤ waitLimit) (previous : Nat) :
    Converges (fun k => (rampWait · wanted)^[k] previous) wanted ∧
    (previous ≤ 2 → ∀ k,
      (rampWait · wanted)^[k + 1] previous = wanted ↔ doublings wanted ≤ k) := by
  refine ⟨?_, fun hprevious k => iterate_rampWait_eq_iff h hprevious k⟩
  constructor
  case bounded =>
    intro k
    rw [Function.iterate_succ_apply']
    exact rampWait_le _ wanted
  case grows => exact fun j k => iterate_rampWait_mono h previous
  case positive =>
    intro hpos k
    rw [Function.iterate_succ_apply']
    exact rampWait_pos hpos
  case reaches => exact fun k => iterate_rampWait_of_doublings h previous

/-- The longest wait there is takes 63 waits, the 62nd being the last that is shorter. -/
theorem ramp_converges_waitLimit :
    waitLimit ≤ waitLimit ∧ doublings waitLimit = 62 ∧
    Converges (fun k => (rampWait · waitLimit)^[k] 0) waitLimit ∧
    (rampWait · waitLimit)^[63] 0 = waitLimit ∧ (rampWait · waitLimit)^[62] 0 ≠ waitLimit := by
  have hdoublings : doublings waitLimit = 62 :=
    Nat.le_antisymm (doublings_le_iff.mpr (by decide))
      (Nat.lt_of_not_le fun h => absurd (doublings_le_iff.mp h) (by decide))
  obtain ⟨hconverges, hexact⟩ := ramp_converges (Nat.le_refl waitLimit) 0
  refine ⟨Nat.le_refl _, hdoublings, hconverges, ?_, ?_⟩
  · rw [hexact (Nat.zero_le 2), hdoublings]
  · rw [Ne, hexact (Nat.zero_le 2), hdoublings]
    decide

/-- A wait is no shorter after a longer one, and if one is wanted that is no shorter. -/
theorem rampWait_le_rampWait {previous previous' wanted wanted' : Nat} (h : wanted ≤ waitLimit)
    (hprevious : previous ≤ previous') (hwanted : wanted ≤ wanted') :
    rampWait previous wanted ≤ rampWait previous' wanted' := by
  unfold rampWait
  split <;> split <;> omega

theorem iterate_le_foldl_rampWait {wanted : Nat} (h : wanted ≤ waitLimit) {waits : List Nat}
    (hfar : ∀ wait ∈ waits, wanted ≤ wait) {previous previous' : Nat}
    (hprevious : previous ≤ previous') :
    (rampWait · wanted)^[waits.length] previous ≤ waits.foldl rampWait previous' := by
  induction waits generalizing previous previous' with
  | nil => exact hprevious
  | cons wait waits ih =>
    obtain ⟨hwait, hrest⟩ := List.forall_mem_cons.mp hfar
    exact ih hrest (rampWait_le_rampWait h hprevious hwait)

namespace Broker

variable {σ : Type} (setup : Setup σ)

theorem previousWait_sendAll (packets : List Packet) (b : Broker σ) :
    (left (sendAll setup packets b)).previousWait = b.previousWait := by
  induction packets generalizing b with
  | nil => rfl
  | cons p rest ih =>
    rcases sendAll_outcomes setup b p rest with ⟨w, -, h, -⟩ | ⟨e, e', w, h, -⟩ <;> rw [h]
    · rw [ih]
      unfold afterSending
      split <;> rfl
    · rfl

/-- The seconds until packets are to be listed, if an errand is to decide how long to wait. -/
def wanted? (b : Broker σ) : Errand → Option Nat
  | .nextWait => some ((reading setup b).secondsUntil (b.remoteTarget (reading setup b)))
  | _ => none

def wantedAll (b : Broker σ) : List Errand → List Nat
  | [] => []
  | e :: errands => (wanted? setup b e).toList ++ wantedAll (carryOut setup b e) errands

theorem previousWait_carryOut (b : Broker σ) (e : Errand) : (carryOut setup b e).previousWait =
    (wanted? setup b e).toList.foldl rampWait b.previousWait := by
  cases e with
  | readClock => rfl
  | loadTasks wait =>
    rw [carryOut]
    rcases loadTasks_outcomes setup b wait with ⟨tasks, w, n, h, -⟩ | ⟨e, e', w, h, -⟩ <;>
      rw [h] <;> rfl
  | list =>
    rw [carryOut]
    rcases loadPackets_outcomes setup b with ⟨e, e', w, h, -⟩ | ⟨packets, w, h, -⟩ <;> rw [h] <;>
      rfl
  | take query p => rfl
  | close p =>
    rw [carryOut]
    rcases complete_outcomes setup b p.transactionId with ⟨w, h, -⟩ | ⟨e, e', w, h, -⟩ <;>
      rw [h] <;> rfl
  | dropTaskOnly => rfl
  | settle query => rfl
  | attend id => rfl
  | flush =>
    obtain ⟨w, -, h⟩ := flush_outcome setup b
    rw [carryOut, h]
    exact previousWait_sendAll setup _ _
  | nextWait =>
    obtain ⟨w, -, h⟩ := nextWait_outcome setup b
    rw [carryOut, h]
    exact waitAt_snd setup b (reading setup b)
  | sleep seconds => rfl

/-- Whatever happens between them, the waits of a broker follow one another on the ramp. -/
theorem previousWait_carryOutAll (b : Broker σ) (errands : List Errand) :
    (carryOutAll setup b errands).previousWait =
      (wantedAll setup b errands).foldl rampWait b.previousWait := by
  induction errands generalizing b with
  | nil => rfl
  | cons e errands ih =>
    have hrest := ih (carryOut setup b e)
    rw [previousWait_carryOut, ← List.foldl_append] at hrest
    exact hrest

/-- A broker that finds its next listing at least some seconds off, whenever it decides how long to
wait, waits as long as that once it has decided more often than it takes doublings from four seconds
to get there. -/
theorem le_previousWait_of_far (b : Broker σ) (errands : List Errand) {seconds : Nat}
    (h : seconds ≤ waitLimit) (hfar : ∀ wanted ∈ wantedAll setup b errands, seconds ≤ wanted)
    (hmany : doublings seconds < (wantedAll setup b errands).length) :
    seconds ≤ (carryOutAll setup b errands).previousWait := by
  obtain ⟨k, hk⟩ := Nat.exists_eq_add_of_lt hmany
  have hreach : (rampWait · seconds)^[(wantedAll setup b errands).length] b.previousWait =
      seconds := by
    rw [hk]
    exact iterate_rampWait_of_doublings h _ (Nat.le_add_right _ _)
  rw [previousWait_carryOutAll]
  exact hreach.ge.trans (iterate_le_foldl_rampWait h hfar (Nat.le_refl _))

end Broker

end SiteBroker
