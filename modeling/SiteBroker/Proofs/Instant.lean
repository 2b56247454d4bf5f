import SiteBroker.Instant
import SiteBroker.Timer

/-! The order of instants, and what lies between two of them. -/

namespace SiteBroker

namespace Instant

instance : Std.IsLinearOrder Instant where
  le_refl := le_refl
  le_trans _ _ _ := le_trans
  le_antisymm _ _ := le_antisymm
  le_total a b := by rw [le_iff, le_iff]; omega

instance : Std.LawfulOrderLT Instant where
  lt_iff a b := by rw [le_iff, le_iff, lt_iff]; omega

theorem max_def (a b : Instant) : max a b = if a ≤ b then b else a := rfl

theorem min_def (a b : Instant) : min a b = if a ≤ b then a else b := rfl

instance : Std.LawfulOrderMax Instant where
  max_eq_or a b := by
    rw [max_def]
    split <;> simp
  max_le_iff a b c := by
    rw [max_def]
    split
    · next h => exact ⟨fun hc => ⟨le_trans h hc, hc⟩, And.right⟩
    · next h =>
      have hba : b ≤ a := Std.le_total.resolve_left h
      exact ⟨fun hc => ⟨hc, le_trans hba hc⟩, And.left⟩

instance : Std.LawfulOrderMin Instant where
  min_eq_or a b := by
    rw [min_def]
    split <;> simp
  le_min_iff a b c := by
    rw [min_def]
    split
    · next h => exact ⟨fun hc => ⟨hc, le_trans hc h⟩, And.left⟩
    · next h =>
      have hba : c ≤ b := Std.le_total.resolve_left h
      exact ⟨fun hc => ⟨le_trans hc hba, hc⟩, And.right⟩

instance : Std.Commutative (max : Instant → Instant → Instant) where
  comm a b := by
    refine le_antisymm ?_ ?_ <;>
      exact (Std.LawfulOrderSup.max_le_iff _ _ _).mpr ⟨Std.right_le_max, Std.left_le_max⟩

/-- The nanoseconds since 1970. -/
def ticks (t : Instant) : Int := t.seconds * 1000000000 + t.nanos

/-- The instant is not within a leap second. -/
def Plain (t : Instant) : Prop := t.nanos < 1000000000

instance : DecidablePred Plain := fun t => inferInstanceAs (Decidable (t.nanos < 1000000000))

theorem Plain.le_iff_ticks {a b : Instant} (ha : a.Plain) (hb : b.Plain) :
    a ≤ b ↔ a.ticks ≤ b.ticks := by
  unfold Plain at ha hb
  rw [le_iff, ticks, ticks]
  omega

theorem plain_ofNanos (seconds : Int) (nanos : Nat) : (ofNanos seconds nanos).Plain :=
  Nat.mod_lt _ (by decide)

theorem plain_ofMillis (ms : Int) : (ofMillis ms).Plain := by
  show (ms % 1000).toNat * 1000000 < 1000000000
  omega

theorem ofMillis_le {a b : Int} (h : a ≤ b) : ofMillis a ≤ ofMillis b := by
  rw [le_iff]
  simp only [ofMillis]
  omega

theorem Plain.after {t : Instant} (h : t.Plain) (d : Duration) : (t.after d).Plain := by
  unfold Plain at h
  unfold Instant.after
  dsimp only
  rw [if_pos h]
  split
  · exact plain_ofNanos _ _
  · show last.nanos < 1000000000
    decide

/-- Clipped at the last instant, time still goes on before it. -/
theorem lt_after {t : Instant} {d : Duration} (hd : 0 < d) (ht : t < last) : t < t.after d := by
  have hclip : ∀ sum : Instant, t < sum → t < if sum ≤ last then sum else last := fun sum h => by
    split
    · exact h
    · exact ht
  have hpos : (0 : Nat) < d := hd
  refine hclip _ ?_
  rw [lt_iff]
  split
  · simp only [ofNanos]
    omega
  · split
    · exact .inr ⟨rfl, Nat.lt_add_of_pos_right (by omega)⟩
    · simp only [ofNanos]
      omega

/-- The length of the leap second that an instant is within, in nanoseconds. -/
def leap (t : Instant) : Int := if t.Plain then 0 else 1000000000

theorem leapBetween_eq {target : Instant} (h : target.Plain) (now : Instant) :
    now.leapBetween target =
      if now.secondOfDay < target.secondOfDay ∧ ¬ now.Plain then 1 else 0 := by
  unfold Plain at *
  simp only [leapBetween, Nat.not_lt, Nat.not_le.mpr h, and_false, if_false]

theorem secondsUntil_eq {now target : Instant} (hnow : now.Plain) (htarget : target.Plain) :
    now.secondsUntil target = ((target.ticks - now.ticks) / 1000000000).toNat := by
  rw [secondsUntil, leapBetween_eq htarget, if_neg fun h => h.2 hnow, ticks, ticks]
  congr 2
  omega

/-- A wait that starts within a leap second may take that second, which ticks do not count. -/
theorem ticks_add_secondsUntil_le {now target : Instant} (htarget : target.Plain)
    (h : 0 < now.secondsUntil target) :
    now.ticks + now.secondsUntil target * 1000000000 ≤ target.ticks + now.leap := by
  rw [secondsUntil, leapBetween_eq htarget] at *
  rw [ticks, ticks, leap]
  split at h <;> split <;> simp_all <;> omega

theorem secondsUntil_pos {now target : Instant} (htarget : target.Plain)
    (h : now.ticks + 1000000000 ≤ target.ticks) : 0 < now.secondsUntil target := by
  rw [secondsUntil, leapBetween_eq htarget]
  rw [ticks, ticks] at h
  split <;> omega

end Instant

end SiteBroker
