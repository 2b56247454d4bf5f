import Mathlib.Data.List.Chain
import SiteBroker.Proofs.Instant
import SiteBroker.Proofs.Retry

/-! A service that is dead is given up on: each wait of an episode takes some time, so only so many
failures fit in before its deadline. -/

namespace SiteBroker

theorem Instant.after_lt_after {t : Instant} {d d' : Nat} (hd : d < d')
    (h : t.after d' < last) : t.after d < t.after d' := by
  have hclip : ∀ sum sum' : Instant, sum < sum' → (if sum' ≤ last then sum' else last) < last →
      (if sum ≤ last then sum else last) < if sum' ≤ last then sum' else last := by
    intro sum sum' hlt hend
    split at hend
    · next hle =>
      have hle' : sum ≤ last := Std.le_of_lt (Std.lt_of_lt_of_le hlt hle)
      rwa [if_pos hle', if_pos hle]
    · exact absurd hend (Std.lt_irrefl)
  refine hclip _ _ ?_ h
  clear h hclip
  rw [lt_iff]
  split
  · simp only [ofNanos]
    omega
  · split <;> split <;> simp only [ofNanos, true_and] <;> omega

theorem Instant.Plain.after_le_iff {a b : Instant} (ha : a.Plain) (hb : b.Plain) (hend : b < last)
    (d : Duration) : a.after d ≤ b ↔ a.ticks + (d : Nat) * 1000000 ≤ b.ticks := by
  have hsum : (ofNanos a.seconds (a.nanos + d * 1000000)).ticks =
      a.ticks + (d : Nat) * 1000000 := by
    simp only [ticks, ofNanos]
    omega
  have hplain := plain_ofNanos a.seconds (a.nanos + d * 1000000)
  rw [← hsum, ← hplain.le_iff_ticks hb]
  unfold Plain at ha
  unfold Instant.after
  dsimp only
  rw [if_pos ha]
  split
  · exact Iff.rfl
  · next hover =>
    have hlast : ¬ last ≤ b := not_le.mpr hend
    exact iff_of_false hlast fun h => hover (le_trans h (Std.le_of_lt hend))

variable {ω ι : Type} {Answer : ι → Type}

/-- What the clock showed, and how long had been slept before. -/
structure Reading where
  slept : Duration
  time : Instant

namespace Reading

/-- Between two readings the clock went on by no less than was slept. -/
def Apart (a b : Reading) : Prop :=
  a.slept ≤ b.slept ∧ a.time.ticks + (b.slept - a.slept : Nat) * 1000000 ≤ b.time.ticks

instance : Trans Apart Apart Apart where
  trans := by
    rintro a b c ⟨hab, hab'⟩ ⟨hbc, hbc'⟩
    exact ⟨Nat.le_trans hab hbc, by omega⟩

end Reading

def Sight.sleep : Sight Answer → Duration
  | .slept d => d
  | .answered .. | .read _ => 0

def slept : List (Sight Answer) → Duration
  | [] => 0
  | sight :: rest => sight.sleep + slept rest

theorem slept_append (sights sights' : List (Sight Answer)) :
    slept (sights ++ sights') = slept sights + slept sights' := by
  induction sights with
  | nil => simp [slept]
  | cons sight sights ih => simp only [List.cons_append, slept, ih, Nat.add_assoc]

def readings (before : Duration) : List (Sight Answer) → List Reading
  | [] => []
  | .slept d :: rest => readings (before + d) rest
  | .answered _ _ :: rest => readings before rest
  | .read t :: rest => ⟨before, t⟩ :: readings before rest

theorem readings_append (before : Duration) (sights sights' : List (Sight Answer)) :
    readings before (sights ++ sights') =
      readings before sights ++ readings (before + slept sights) sights' := by
  induction sights generalizing before with
  | nil => simp [readings, slept]
  | cons sight sights ih =>
    cases sight <;> simp [readings, slept, Sight.sleep, ih, Nat.add_assoc]

theorem pairwise_slept (before : Duration) (sights : List (Sight Answer)) :
    (∀ r ∈ readings before sights, before ≤ r.slept) ∧
      (readings before sights).Pairwise fun a b => a.slept ≤ b.slept := by
  induction sights generalizing before with
  | nil => simp [readings]
  | cons sight sights ih =>
    cases sight with
    | slept d =>
      obtain ⟨hle, hsorted⟩ := ih (before + d)
      refine ⟨fun r hr => ?_, hsorted⟩
      exact Nat.le_trans (Nat.le_add_right before d) (hle r hr)
    | answered call outcome => exact ih before
    | read t =>
      obtain ⟨hle, hsorted⟩ := ih before
      exact ⟨List.forall_mem_cons.mpr ⟨Nat.le_refl _, hle⟩, List.pairwise_cons.mpr ⟨hle, hsorted⟩⟩

/-- The clock does not go back, and goes on by as much as is slept. Time does not come to its
end. -/
structure Steady (sights : List (Sight Answer)) : Prop where
  apart : (readings 0 sights).Pairwise fun a b => a.time.after (b.slept - a.slept) ≤ b.time
  ends : ∀ r ∈ readings 0 sights, r.time < .last

/-- Without leap seconds it is enough to compare each reading with the next. -/
theorem Steady.of_isChain {sights : List (Sight Answer)}
    (hplain : ∀ r ∈ readings 0 sights, r.time.Plain)
    (hends : ∀ r ∈ readings 0 sights, r.time < .last)
    (h : (readings 0 sights).IsChain fun a b => a.time.after (b.slept - a.slept) ≤ b.time) :
    Steady sights := by
  have hfar : (readings 0 sights).IsChain Reading.Apart := by
    rw [List.isChain_iff_getElem] at h ⊢
    intro i hi
    have hlater := List.pairwise_iff_getElem.mp (pairwise_slept 0 sights).2 i (i + 1)
      (Nat.lt_of_succ_lt hi) hi (Nat.lt_succ_self i)
    have hstep := h i hi
    rw [Instant.Plain.after_le_iff (hplain _ (List.getElem_mem _)) (hplain _ (List.getElem_mem _))
      (hends _ (List.getElem_mem _))] at hstep
    exact ⟨hlater, hstep⟩
  refine ⟨hfar.pairwise.imp_of_mem fun ha hb hab => ?_, hends⟩
  exact ((hplain _ ha).after_le_iff (hplain _ hb) (hends _ hb) _).mpr hab.2

theorem Steady.of_append {sights sights' : List (Sight Answer)} (h : Steady (sights ++ sights')) :
    Steady sights := by
  obtain ⟨hapart, hends⟩ := h
  rw [readings_append] at hapart hends
  exact ⟨(List.pairwise_append.mp hapart).1, fun r hr => hends r (List.mem_append_left _ hr)⟩

namespace Seen

/-- The service answered the call with a transient failure. -/
def FailsTransiently (s : Seen Answer) : Prop :=
  ∃ e : ServiceError, .answered s.call (.error e) ∈ s.sights ∧ e.isTransient = true

def TimesOut (s : Seen Answer) : Prop := ∃ e, s.result = .error e ∧ e.isTimeout = true

end Seen

namespace Attempt

def sights (trace : List (Attempt Answer)) : List (Sight Answer) := trace.flatMap (·.seen.sights)

theorem sights_concat (trace : List (Attempt Answer)) (a : Attempt Answer) :
    sights (trace ++ [a]) = sights trace ++ a.seen.sights := by
  simp [sights]

theorem slept_sights (a : Attempt Answer) : slept a.seen.sights = a.wait.getD 0 := by
  cases hw : a.wait <;> cases hf : a.failedAt <;> simp [seen, slept, Sight.sleep, hw, hf]

theorem readings_sights (before : Duration) (a : Attempt Answer) :
    readings before a.seen.sights = a.failedAt.toList.map fun t => ⟨before + a.wait.getD 0, t⟩ := by
  cases hw : a.wait <;> cases hf : a.failedAt <;> simp [seen, readings, hw, hf]

theorem slept_concat (trace : List (Attempt Answer)) (a : Attempt Answer) :
    slept (sights (trace ++ [a])) = slept (sights trace) + a.wait.getD 0 := by
  rw [← slept_sights, sights_concat, slept_append]

theorem readings_concat (trace : List (Attempt Answer)) (a : Attempt Answer) :
    readings 0 (sights (trace ++ [a])) = readings 0 (sights trace) ++
      a.failedAt.toList.map fun t => ⟨slept (sights trace) + a.wait.getD 0, t⟩ := by
  rw [sights_concat, readings_append, readings_sights, Nat.zero_add]

theorem timesOut_seen {a : Attempt Answer} (h : a.timesOut = true) : a.seen.TimesOut := by
  unfold timesOut at h
  cases hresult : a.result with
  | ok answer => simp [hresult] at h
  | error e => exact ⟨e, hresult, by simpa [hresult] using h⟩

theorem outcome_of_failsTransiently {a : Attempt Answer} (h : a.seen.FailsTransiently) :
    ∃ e, a.outcome = .error e ∧ e.isTransient = true := by
  obtain ⟨e, hm, he⟩ := h
  refine ⟨e, ?_, he⟩
  have hanswer : Sight.answered a.call (.error e) = .answered a.call a.outcome := by
    simpa [seen] using hm
  injection hanswer with _ houtcome
  exact houtcome.symm

end Attempt

namespace RetryPolicy

variable (policy : RetryPolicy)

theorem le_delayAfter (n : Nat) : min policy.minDelay policy.maxDelay ≤ policy.delayAfter n := by
  induction n with
  | zero => exact Nat.min_le_left _ _
  | succ n ih =>
    have hdouble : policy.delayAfter n ≤ 2 * policy.delayAfter n :=
      Nat.le_mul_of_pos_left _ (by decide)
    exact Nat.le_min.mpr ⟨Nat.le_trans ih hdouble, Nat.min_le_right _ _⟩

section

variable {policy} {trace before : List (Attempt Answer)} {a : Attempt Answer} {opened : Instant}
  {more : List Instant}

/-- Since an episode was opened, each further failure in it came after a wait. -/
theorem exists_opening
    (htrace : ∀ before a after, trace = before ++ a :: after → policy.Scheduled before a)
    (h : Attempt.failures trace = opened :: more) :
    ∃ n, ⟨n, opened⟩ ∈ readings 0 (Attempt.sights trace) ∧
      n + more.length * min policy.minDelay policy.maxDelay ≤ slept (Attempt.sights trace) := by
  induction trace using List.reverseRecOn generalizing more with
  | nil => simp [Attempt.failures] at h
  | append_singleton trace a ih =>
    have hlast : policy.Scheduled trace a := htrace trace a [] rfl
    have hearlier : ∀ before b after, trace = before ++ b :: after → policy.Scheduled before b :=
      fun before b after ht => htrace before b (after ++ [a]) (by simp [ht])
    cases hc : a.closes with
    | true => simp [Attempt.failures_concat_of_closes hc] at h
    | false =>
      rw [Attempt.failures_concat_of_open hc] at h
      rw [Attempt.readings_concat, Attempt.slept_concat]
      cases hbefore : Attempt.failures trace with
      | nil =>
        -- The episode is opened here.
        rw [hbefore, List.nil_append] at h
        obtain ⟨hopened, rfl⟩ : a.failedAt = some opened ∧ more = [] := by
          cases hf : a.failedAt <;> simp_all
        refine ⟨slept (Attempt.sights trace) + a.wait.getD 0, ?_, by simp⟩
        simp [hopened]
      | cons first rest =>
        rw [hbefore, List.cons_append] at h
        obtain ⟨rfl, rfl⟩ := List.cons.inj h
        obtain ⟨n, hn, hslept⟩ := ih hearlier hbefore
        have hwait : a.wait.getD 0 = policy.delayAfter rest.length := by
          rw [hlast.within _ _ hbefore, Option.getD_some]
        have hdelay := policy.le_delayAfter rest.length
        refine ⟨n, List.mem_append_left _ hn, ?_⟩
        rw [hwait]
        cases a.failedAt with
        | none =>
          rw [Option.toList_none, List.append_nil]
          exact Nat.le_trans hslept (Nat.le_add_right _ _)
        | some t =>
          rw [Option.toList_some, List.length_append, List.length_singleton, Nat.succ_mul,
            ← Nat.add_assoc]
          exact Nat.add_le_add hslept hdelay

/-- A failure that so many others have come before is final. -/
theorem Scheduled.timesOut
    (htrace : ∀ front b after, before ++ [a] = front ++ b :: after → policy.Scheduled front b)
    (hclock : Steady (Attempt.sights (before ++ [a])))
    (hmin : 0 < policy.minDelay) (hmax : 0 < policy.maxDelay)
    (hfailures : policy.timeMax / min policy.minDelay policy.maxDelay <
      (Attempt.failures before).length)
    (hfail : a.seen.FailsTransiently) : a.timesOut = true := by
  have ha : policy.Scheduled before a := htrace before a [] rfl
  have hearlier : ∀ front b after, before = front ++ b :: after → policy.Scheduled front b :=
    fun front b after h => htrace front b (after ++ [a]) (by simp [h])
  obtain ⟨e, hout, he⟩ := Attempt.outcome_of_failsTransiently hfail
  obtain ⟨t, ht⟩ := Option.isSome_iff_exists.mp (ha.notices.mpr ⟨e, hout, he⟩)
  obtain ⟨opened, more, hopened⟩ : ∃ opened more, Attempt.failures before = opened :: more :=
    List.exists_cons_of_length_pos (Nat.zero_lt_of_lt hfailures)
  obtain ⟨n, hn, hslept⟩ := exists_opening hearlier hopened
  have hwait : a.wait.getD 0 = policy.delayAfter more.length := by
    rw [ha.within _ _ hopened, Option.getD_some]
  have hdelay := policy.le_delayAfter more.length
  obtain ⟨hapart, hends⟩ := hclock
  rw [Attempt.readings_concat, ht, Option.toList_some, List.map_singleton] at hapart hends
  obtain ⟨-, -, hcross⟩ := List.pairwise_append.mp hapart
  have hlate : opened.after (slept (Attempt.sights before) + a.wait.getD 0 - n) ≤ t :=
    hcross ⟨n, opened⟩ hn ⟨_, t⟩ (List.mem_singleton_self _)
  have hend : t < .last := hends _ (List.mem_append_right _ (List.mem_singleton_self _))
  have hlong : policy.timeMax < slept (Attempt.sights before) + a.wait.getD 0 - n := by
    have hpos : 0 < min policy.minDelay policy.maxDelay := Nat.lt_min.mpr ⟨hmin, hmax⟩
    have hquot : policy.timeMax / min policy.minDelay policy.maxDelay < more.length + 1 := by
      rwa [hopened, List.length_cons] at hfailures
    have hall := (Nat.div_lt_iff_lt_mul hpos).mp hquot
    rw [Nat.succ_mul] at hall
    have hwaited := Nat.add_le_add hslept hdelay
    rw [← hwait, Nat.add_assoc] at hwaited
    exact Nat.lt_of_lt_of_le hall (Nat.le_sub_of_add_le' hwaited)
  have hfinal : opened.after policy.timeMax < t := by
    have hbefore := Instant.after_lt_after hlong (Std.lt_of_le_of_lt hlate hend)
    exact Std.lt_of_lt_of_le hbefore hlate
  have hresult := ha.fails opened more hopened e t hout ht
  rw [if_pos hfinal] at hresult
  simp [Attempt.timesOut, hresult, ServiceError.isTimeout]

/-- As long as no failure is final, all of them count. -/
theorem length_le_failures {block : List (Attempt Answer)}
    (htrace : ∀ front b after, before ++ block = front ++ b :: after → policy.Scheduled front b)
    (hfail : ∀ a ∈ block, a.seen.FailsTransiently) (hopen : ∀ a ∈ block, a.timesOut = false) :
    block.length ≤ (Attempt.failures (before ++ block)).length := by
  induction block using List.reverseRecOn with
  | nil => exact Nat.zero_le _
  | append_singleton block a ih =>
    rw [← List.append_assoc] at htrace ⊢
    have ha : policy.Scheduled (before ++ block) a := htrace (before ++ block) a [] rfl
    obtain ⟨e, hout, he⟩ := Attempt.outcome_of_failsTransiently (hfail a (by simp))
    obtain ⟨t, ht⟩ := Option.isSome_iff_exists.mp (ha.notices.mpr ⟨e, hout, he⟩)
    have hclosed : a.closes = false := by
      simp [Attempt.closes, hout, hopen a (by simp), Except.isOk, Except.toBool]
    have hearlier := ih (fun front b after h => htrace front b (after ++ [a]) (by simp [h]))
      (fun b hb => hfail b (by simp [hb])) (fun b hb => hopen b (by simp [hb]))
    rw [Attempt.failures_concat_of_open hclosed, ht]
    simpa using hearlier

/-- So many failures in a row cannot all be kept. -/
theorem exists_timesOut {block : List (Attempt Answer)}
    (htrace : ∀ front b after, before ++ block = front ++ b :: after → policy.Scheduled front b)
    (hclock : Steady (Attempt.sights (before ++ block)))
    (hmin : 0 < policy.minDelay) (hmax : 0 < policy.maxDelay)
    (hlength : block.length = policy.timeMax / min policy.minDelay policy.maxDelay + 2)
    (hfail : ∀ a ∈ block, a.seen.FailsTransiently) : ∃ a ∈ block, a.timesOut = true := by
  by_contra hnone
  have hopen : ∀ a ∈ block, a.timesOut = false := fun a ha =>
    Bool.eq_false_iff.mpr fun h => hnone ⟨a, ha, h⟩
  obtain ⟨init, a, rfl⟩ : ∃ init a, block = init ++ [a] := by
    simpa using (List.eq_nil_or_concat block).resolve_left
      (List.ne_nil_of_length_eq_add_one hlength)
  have hinit : init.length = policy.timeMax / min policy.minDelay policy.maxDelay + 1 := by
    rw [List.length_append, List.length_singleton] at hlength
    exact Nat.succ.inj hlength
  rw [← List.append_assoc] at htrace hclock
  have hearlier : ∀ front b after, before ++ init = front ++ b :: after →
      policy.Scheduled front b :=
    fun front b after h => htrace front b (after ++ [a]) (by simp [h])
  have hcounted : init.length ≤ (Attempt.failures (before ++ init)).length :=
    length_le_failures hearlier (fun b hb => hfail b (List.mem_append_left _ hb))
      fun b hb => hopen b (List.mem_append_left _ hb)
  rw [hinit] at hcounted
  have hlast : a ∈ init ++ [a] := List.mem_append_right _ (List.mem_singleton_self a)
  have hlate : a.timesOut = true :=
    Scheduled.timesOut htrace hclock hmin hmax hcounted (hfail a hlast)
  exact hnone ⟨a, hlast, hlate⟩

end

variable (clock : Clock ω)
  (service : (call : ι) → ω → Except ServiceError (Answer call) × ω)

/-- Whatever happened on a line before: of so many calls in a row that all fail for the moment, one
is reported as out of time. -/
theorem timesOut_of_failing (hmin : 0 < policy.minDelay) (hmax : 0 < policy.maxDelay)
    (calls : List (ι × ω)) {before block after : List (Seen Answer)}
    (hline : (policy.putAllThrough clock service calls).1 = before ++ block ++ after)
    (hclock : Steady ((policy.putAllThrough clock service calls).1.flatMap (·.sights)))
    (hlength : block.length = policy.timeMax / min policy.minDelay policy.maxDelay + 2)
    (hfail : ∀ s ∈ block, s.FailsTransiently) :
    (serveAll (fun call => policy.attempt clock (service call)) none calls).1 =
        (before ++ block ++ after).map (fun s => ⟨s.call, s.result⟩) ∧
      ∃ s ∈ block, s.TimesOut := by
  obtain ⟨trace, htrace, hscheduled⟩ := policy.putAllThrough_scheduled clock service calls
  refine ⟨by rw [serveAll_attempt, hline], ?_⟩
  obtain ⟨front, back, rfl, hfront, -⟩ :
      ∃ front back, trace = front ++ back ∧ front.map Attempt.seen = before ++ block ∧
        back.map Attempt.seen = after := List.map_eq_append_iff.mp (by rw [← hline, htrace])
  obtain ⟨quiet, dead, rfl, -, rfl⟩ := List.map_eq_append_iff.mp hfront
  have hupTo : ∀ pre a rest, quiet ++ dead = pre ++ a :: rest → policy.Scheduled pre a :=
    fun pre a rest h => hscheduled pre a (rest ++ back) (by simp [h])
  have hsteady : Steady (Attempt.sights (quiet ++ dead)) := by
    rw [htrace, List.flatMap_map, List.flatMap_append] at hclock
    exact hclock.of_append
  rw [List.length_map] at hlength
  have hfailing : ∀ a ∈ dead, a.seen.FailsTransiently := fun a ha =>
    hfail a.seen (List.mem_map_of_mem ha)
  obtain ⟨a, ha, hlate⟩ := exists_timesOut hupTo hsteady hmin hmax hlength hfailing
  exact ⟨a.seen, List.mem_map_of_mem ha, Attempt.timesOut_seen hlate⟩

theorem answered_mem_sights (episode : Option Episode) (call : ι) (w : ω) :
    ∃ w', Sight.answered call (service call w').1 ∈
      (policy.attempt clock.watched (watched service call) episode (w, [])).2.2.2 := by
  rw [attempt_eq]
  generalize clock.watched.rested episode (w, []) = x
  refine ⟨x.1, ?_⟩
  simp only [watched]
  obtain ⟨outcome, w'⟩ := service call x.1
  cases outcome with
  | ok answer => simp
  | error e =>
    by_cases he : e.isTransient = true <;> simp [he, Clock.watched]

variable {service} in
/-- Each call of a dead service counts. -/
theorem failsTransiently_of_mem
    (hdead : ∀ call w, ∃ e, (service call w).1 = .error e ∧ e.isTransient = true)
    (calls : List (ι × ω)) :
    ∀ s ∈ (policy.putAllThrough clock service calls).1, s.FailsTransiently := by
  induction calls using List.reverseRecOn with
  | nil => simp [putAllThrough]
  | append_singleton calls c ih =>
    intro s hs
    rw [putAllThrough_concat, putThrough, List.mem_append, List.mem_singleton] at hs
    rcases hs with hs | rfl
    · exact ih s hs
    · obtain ⟨w, hanswered⟩ := policy.answered_mem_sights clock service
        (policy.putAllThrough clock service calls).2 c.1 c.2
      obtain ⟨e, hout, he⟩ := hdead c.1 w
      exact ⟨e, hout ▸ hanswered, he⟩

/-- The cap on the wait is below its start, and the four calls begin within an episode. -/
theorem timesOut_of_refused :
    let policy : RetryPolicy :=
      { name := "sp", minDelay := 3000, maxDelay := 2000, timeMax := 5000 }
    let clock : Clock Nat := ⟨fun ms => (.ofMillis ms, ms), fun d ms => ms + d⟩
    let service (_ : Unit) (ms : Nat) : Except ServiceError Unit × Nat :=
      (.error (.connection "refused"), ms)
    let line := (policy.putAllThrough clock service
      [((), 0), ((), 0), ((), 3000), ((), 5000), ((), 7000)]).1
    Steady (line.flatMap (·.sights)) ∧ (∀ s ∈ line.drop 1, s.FailsTransiently) ∧
      (line.drop 1).length = policy.timeMax / min policy.minDelay policy.maxDelay + 2 ∧
      ∃ s ∈ line.drop 1, s.TimesOut := by
  intro policy clock service line
  have hclock : Steady (line.flatMap (·.sights)) :=
    .of_isChain (by decide +kernel) (by decide +kernel) (by decide +kernel)
  have hfail : ∀ s ∈ line.drop 1, s.FailsTransiently := fun s hs =>
    policy.failsTransiently_of_mem clock (fun _ _ => ⟨_, rfl, rfl⟩) _ s (List.mem_of_mem_drop hs)
  have hline : line = line.take 1 ++ line.drop 1 ++ [] := by
    rw [List.append_nil, List.take_append_drop]
  have hlength : (line.drop 1).length =
      policy.timeMax / min policy.minDelay policy.maxDelay + 2 := by decide +kernel
  exact ⟨hclock, hfail, hlength, (policy.timesOut_of_failing clock service (by decide) (by decide) _
    hline hclock hlength hfail).2⟩

end RetryPolicy

end SiteBroker
