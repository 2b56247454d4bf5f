import SiteBroker.Proofs.Split
import SiteBroker.Retry

/-! The schedule of calls over one line to a service, as a watcher of the line sees it. How long a
call waits and what its failure counts for depend on the transient failures since the last success
or timeout, and on nothing else. -/

namespace SiteBroker

variable {ω ι : Type} {Answer : ι → Type}

/-- What a watcher sees of a call. -/
inductive Sight (Answer : ι → Type) where
  | slept (d : Duration)
  | answered (call : ι) (outcome : Except ServiceError (Answer call))
  /-- The clock was read. -/
  | read (t : Instant)

/-- A call with all that was seen of it, in order, and what its caller got. -/
structure Seen (Answer : ι → Type) where
  call : ι
  sights : List (Sight Answer)
  result : Except ServiceError (Answer call)

def Clock.watched (clock : Clock ω) : Clock (ω × List (Sight Answer)) where
  read x :=
    let (now, w) := clock.read x.1
    (now, w, x.2 ++ [.read now])
  sleep d x := (clock.sleep d x.1, x.2 ++ [.slept d])

/-- The world after the wait that an episode asks for. -/
def Clock.rested (clock : Clock ω) (episode : Option Episode) (w : ω) : ω :=
  match episode with
  | some ep => clock.sleep ep.delay w
  | none => w

/-- A service that is watched. -/
def watched (service : (call : ι) → ω → Except ServiceError (Answer call) × ω) (call : ι)
    (x : ω × List (Sight Answer)) :
    Except ServiceError (Answer call) × ω × List (Sight Answer) :=
  let (outcome, w) := service call x.1
  (outcome, w, x.2 ++ [.answered call outcome])

/-- The wait before the next attempt and the time after which a failure is final, either of which
could be set without the other. -/
structure Marks where
  delay : Option Duration
  deadline : Option Instant

def Marks.ofEpisode (episode : Option Episode) : Marks :=
  ⟨episode.map Episode.delay, episode.map Episode.deadline⟩

/-- Makes calls one after another, each in the world that it finds, and keeps what the line keeps
between them. -/
def serveAll {σ : Type}
    (attempt : (call : ι) → σ → ω → Except ServiceError (Answer call) × σ × ω) (start : σ)
    (calls : List (ι × ω)) : List ((call : ι) × Except ServiceError (Answer call)) × σ :=
  calls.foldl (fun line c =>
    let (result, kept, _) := attempt c.1 line.2 c.2
    (line.1 ++ [⟨c.1, result⟩], kept)) ([], start)

theorem serveAll_concat {σ : Type}
    (attempt : (call : ι) → σ → ω → Except ServiceError (Answer call) × σ × ω) (start : σ)
    (calls : List (ι × ω)) (c : ι × ω) :
    serveAll attempt start (calls ++ [c]) =
      ((serveAll attempt start calls).1 ++
          [⟨c.1, (attempt c.1 (serveAll attempt start calls).2 c.2).1⟩],
        (attempt c.1 (serveAll attempt start calls).2 c.2).2.1) := by
  simp [serveAll]

/-- One attempt at a call: the wait before it, the answer of the service, when a transient failure
was noticed, and what the caller got. -/
structure Attempt (Answer : ι → Type) where
  call : ι
  wait : Option Duration
  outcome : Except ServiceError (Answer call)
  failedAt : Option Instant
  result : Except ServiceError (Answer call)

namespace Attempt

/-- The attempt as it is seen: the wait comes first, the look at the clock last. -/
def seen (a : Attempt Answer) : Seen Answer :=
  ⟨a.call, a.wait.toList.map .slept ++ .answered a.call a.outcome :: a.failedAt.toList.map .read,
    a.result⟩

def timesOut (a : Attempt Answer) : Bool :=
  match a.result with
  | .ok _ => false
  | .error e => e.isTimeout

/-- The attempt ends an episode: the service answered, or a transient failure was final. -/
def closes (a : Attempt Answer) : Bool := a.outcome.isOk || (a.failedAt.isSome && a.timesOut)

/-- The times of the transient failures since an attempt last closed an episode. -/
def failures (trace : List (Attempt Answer)) : List Instant :=
  (trace.reverse.takeWhile (!·.closes)).reverse.filterMap (·.failedAt)

theorem failures_concat_of_closes {a : Attempt Answer} (h : a.closes = true)
    (trace : List (Attempt Answer)) : failures (trace ++ [a]) = [] := by
  simp [failures, h]

theorem failures_concat_of_open {a : Attempt Answer} (h : a.closes = false)
    (trace : List (Attempt Answer)) :
    failures (trace ++ [a]) = failures trace ++ a.failedAt.toList := by
  cases hf : a.failedAt <;> simp [failures, h, hf]

end Attempt

namespace RetryPolicy

variable (policy : RetryPolicy)

/-- What a transient failure at a time is reported as, where the wait and the deadline are kept
apart. -/
def onFailureApart (marks : Marks) (now : Instant) (e : ServiceError) : ServiceError × Marks :=
  match marks.delay, marks.deadline with
  | some delay, some deadline =>
    if deadline < now then (.timeout (policy.name ++ ": " ++ e.message), ⟨none, none⟩)
    else (policy.transient e, { marks with delay := some (min (2 * delay) policy.maxDelay) })
  | _, _ => (policy.transient e, ⟨some policy.minDelay, some (now.after policy.timeMax)⟩)

/-- One attempt at a call, where the wait and the deadline are kept apart. -/
def attemptApart {α : Type} (clock : Clock ω) (call : ω → Except ServiceError α × ω)
    (marks : Marks) (w : ω) : Except ServiceError α × Marks × ω :=
  let w := match marks.delay with
    | some delay => clock.sleep delay w
    | none => w
  match call w with
  | (.ok a, w) => (.ok a, ⟨none, none⟩, w)
  | (.error e, w) =>
    if e.isTransient then
      let (now, w) := clock.read w
      let (e, marks) := policy.onFailureApart marks now e
      (.error e, marks, w)
    else (.error e, marks, w)

/-- The wait once so many transient failures have followed the one that opened the episode. -/
def delayAfter : Nat → Duration
  | 0 => policy.minDelay
  | n + 1 => min (2 * delayAfter n) policy.maxDelay

/-- The episode that failures at some times make. -/
def episodeOf : List Instant → Option Episode
  | [] => none
  | opened :: more => some ⟨policy.delayAfter more.length, opened.after policy.timeMax⟩

theorem episodeOf_concat {failures : List Instant} {ep : Episode}
    (h : policy.episodeOf failures = some ep) (t : Instant) :
    policy.episodeOf (failures ++ [t]) =
      some { ep with delay := min (2 * ep.delay) policy.maxDelay } := by
  cases failures with
  | nil => cases h
  | cons opened more =>
    obtain rfl := Option.some.inj h
    simp [episodeOf, delayAfter]

theorem onFailure_of_final {opened now : Instant} (h : opened.after policy.timeMax < now)
    (more : List Instant) (e : ServiceError) :
    policy.onFailure (policy.episodeOf (opened :: more)) now e =
      (.timeout (policy.name ++ ": " ++ e.message), none) := by
  simp only [episodeOf, onFailure, if_pos h]

theorem onFailure_of_open {failures : List Instant} {now : Instant}
    (h : ∀ opened more, failures = opened :: more → ¬ opened.after policy.timeMax < now)
    (e : ServiceError) : policy.onFailure (policy.episodeOf failures) now e =
      (policy.transient e, policy.episodeOf (failures ++ [now])) := by
  cases failures with
  | nil => rfl
  | cons opened more =>
    have hdeadline := h opened more rfl
    rw [policy.episodeOf_concat rfl]
    simp only [episodeOf, onFailure, if_neg hdeadline]

theorem isTimeout_transient (e : ServiceError) : (policy.transient e).isTimeout = false := by
  cases e <;> rfl

/-- An attempt after others goes as the failures so far have it. -/
structure Scheduled (before : List (Attempt Answer)) (a : Attempt Answer) : Prop where
  notices : a.failedAt.isSome = true ↔ ∃ e, a.outcome = .error e ∧ e.isTransient = true
  outside : Attempt.failures before = [] → a.wait = none
  within : ∀ opened more, Attempt.failures before = opened :: more →
    a.wait = some (policy.delayAfter more.length)
  answers : ∀ answer, a.outcome = .ok answer → a.result = .ok answer
  passes : ∀ e, a.outcome = .error e → e.isTransient = false → a.result = .error e
  opens : Attempt.failures before = [] → ∀ e t, a.outcome = .error e → a.failedAt = some t →
    a.result = .error (policy.transient e)
  fails : ∀ opened more, Attempt.failures before = opened :: more →
    ∀ e t, a.outcome = .error e → a.failedAt = some t →
      a.result = .error (if opened.after policy.timeMax < t
        then .timeout (policy.name ++ ": " ++ e.message) else policy.transient e)

/-- The wait that failures at some times ask for. -/
def waitAfter (failures : List Instant) : Option Duration :=
  (policy.episodeOf failures).map Episode.delay

section

variable {before : List (Attempt Answer)} {call : ι} {e : ServiceError}

theorem waitAfter_nil (h : Attempt.failures before = []) :
    policy.waitAfter (Attempt.failures before) = none := by
  rw [h]
  rfl

theorem waitAfter_cons (opened : Instant) (more : List Instant)
    (h : Attempt.failures before = opened :: more) :
    policy.waitAfter (Attempt.failures before) = some (policy.delayAfter more.length) := by
  rw [h]
  rfl

theorem Scheduled.of_ok (answer : Answer call) : policy.Scheduled before
    ⟨call, policy.waitAfter (Attempt.failures before), .ok answer, none, .ok answer⟩ := by
  refine ⟨by simp, policy.waitAfter_nil, policy.waitAfter_cons, fun _ => id, ?_, ?_, ?_⟩
  · rintro _ ⟨⟩
  · rintro _ _ _ ⟨⟩
  · rintro _ _ _ _ _ ⟨⟩

theorem Scheduled.of_error (he : e.isTransient = false) : policy.Scheduled before
    ⟨call, policy.waitAfter (Attempt.failures before), .error e, none, .error e⟩ := by
  refine ⟨by simp [he], policy.waitAfter_nil, policy.waitAfter_cons, ?_, fun _ h _ => h, ?_, ?_⟩
  · rintro _ ⟨⟩
  · rintro _ _ _ _ ⟨⟩
  · rintro _ _ _ _ _ _ ⟨⟩

theorem Scheduled.of_transient {now : Instant} {result : Except ServiceError (Answer call)}
    (he : e.isTransient = true)
    (hopens : Attempt.failures before = [] → result = .error (policy.transient e))
    (hfails : ∀ opened more, Attempt.failures before = opened :: more →
      result = .error (if opened.after policy.timeMax < now
        then .timeout (policy.name ++ ": " ++ e.message) else policy.transient e)) :
    policy.Scheduled before
      ⟨call, policy.waitAfter (Attempt.failures before), .error e, some now, result⟩ := by
  refine ⟨by simp [he], policy.waitAfter_nil, policy.waitAfter_cons, ?_, ?_, ?_, ?_⟩
  · rintro _ ⟨⟩
  · rintro _ ⟨⟩ h
    simp [he] at h
  · rintro h _ _ ⟨⟩ ⟨⟩
    exact hopens h
  · rintro opened more h _ _ ⟨⟩ ⟨⟩
    exact hfails opened more h

theorem Scheduled.of_final {opened now : Instant} {more : List Instant}
    (he : e.isTransient = true) (hf : Attempt.failures before = opened :: more)
    (hfinal : opened.after policy.timeMax < now) : policy.Scheduled before
      ⟨call, policy.waitAfter (Attempt.failures before), .error e, some now,
        .error (.timeout (policy.name ++ ": " ++ e.message))⟩ := by
  refine .of_transient policy he (fun h => ?_) fun _ _ h => ?_
  · cases hf.symm.trans h
  · cases hf.symm.trans h
    rw [if_pos hfinal]

theorem Scheduled.of_open {now : Instant} (he : e.isTransient = true)
    (hopen : ∀ opened more, Attempt.failures before = opened :: more →
      ¬ opened.after policy.timeMax < now) : policy.Scheduled before
      ⟨call, policy.waitAfter (Attempt.failures before), .error e, some now,
        .error (policy.transient e)⟩ :=
  .of_transient policy he (fun _ => rfl) fun opened more h => by rw [if_neg (hopen opened more h)]

end

theorem transient_ne_connection (e : ServiceError) (detail : String) :
    policy.transient e ≠ .connection detail := by
  cases e <;> rintro ⟨⟩

theorem Scheduled.result_ne_connection {before : List (Attempt Answer)} {a : Attempt Answer}
    (h : policy.Scheduled before a) (detail : String) : a.result ≠ .error (.connection detail) := by
  cases hout : a.outcome with
  | ok answer =>
    rw [h.answers answer hout]
    rintro ⟨⟩
  | error e =>
    cases he : e.isTransient with
    | false =>
      rw [h.passes e hout he]
      rintro ⟨⟩
      cases he
    | true =>
      obtain ⟨t, ht⟩ := Option.isSome_iff_exists.mp (h.notices.mpr ⟨e, hout, he⟩)
      cases hf : Attempt.failures before with
      | nil =>
        rw [h.opens hf e t hout ht]
        exact fun hc => policy.transient_ne_connection e detail (Except.error.inj hc)
      | cons opened more =>
        rw [h.fails opened more hf e t hout ht]
        split
        · rintro ⟨⟩
        · exact fun hc => policy.transient_ne_connection e detail (Except.error.inj hc)

section

variable {α : Type} {clock : Clock ω} {call : ω → Except ServiceError α × ω}
  {episode : Option Episode} {w w' : ω}

theorem attempt_eq : policy.attempt clock call episode w =
    match call (clock.rested episode w) with
    | (.ok a, w) => (.ok a, none, w)
    | (.error e, w) =>
      if e.isTransient then
        let (now, w) := clock.read w
        let (e, episode) := policy.onFailure episode now e
        (.error e, episode, w)
      else (.error e, episode, w) := rfl

theorem onFailureApart_ofEpisode (now : Instant) (e : ServiceError) :
    policy.onFailureApart (.ofEpisode episode) now e =
      ((policy.onFailure episode now e).1, .ofEpisode (policy.onFailure episode now e).2) := by
  cases episode with
  | none => rfl
  | some ep =>
    simp only [onFailureApart, onFailure, Marks.ofEpisode, Option.map_some]
    split <;> rfl

theorem attemptApart_ofEpisode : policy.attemptApart clock call (.ofEpisode episode) w =
    ((policy.attempt clock call episode w).1, .ofEpisode (policy.attempt clock call episode w).2.1,
      (policy.attempt clock call episode w).2.2) := by
  have hrested : (match (Marks.ofEpisode episode).delay with
      | some delay => clock.sleep delay w
      | none => w) = clock.rested episode w := by
    cases episode <;> rfl
  simp only [attemptApart, hrested, attempt_eq]
  obtain ⟨outcome, w'⟩ := call (clock.rested episode w)
  cases outcome with
  | ok a => rfl
  | error e =>
    dsimp only
    rw [onFailureApart_ofEpisode]
    split <;> rfl

theorem attempt_of_ok {a : α} (h : call (clock.rested episode w) = (.ok a, w')) :
    policy.attempt clock call episode w = (.ok a, none, w') := by
  rw [attempt_eq, h]

theorem attempt_of_error {e : ServiceError} (h : call (clock.rested episode w) = (.error e, w'))
    (he : e.isTransient = false) :
    policy.attempt clock call episode w = (.error e, episode, w') := by
  simp [attempt_eq, h, he]

theorem attempt_of_transient {e : ServiceError}
    (h : call (clock.rested episode w) = (.error e, w')) (he : e.isTransient = true) :
    policy.attempt clock call episode w =
      (.error (policy.onFailure episode (clock.read w').1 e).1,
        (policy.onFailure episode (clock.read w').1 e).2, (clock.read w').2) := by
  simp [attempt_eq, h, he]

end

section

variable (clock : Clock ω)
  (service : (call : ι) → ω → Except ServiceError (Answer call) × ω)

theorem attempt_unwatched (episode : Option Episode) (call : ι) (w : ω) :
    let watched := policy.attempt clock.watched (watched service call) episode (w, [])
    (policy.attempt clock (service call) episode w).1 = watched.1 ∧
      (policy.attempt clock (service call) episode w).2.1 = watched.2.1 := by
  have hrested : (clock.watched.rested episode (w, ([] : List (Sight Answer)))).1 =
      clock.rested episode w := by
    cases episode <;> rfl
  simp only [attempt_eq, watched, hrested]
  obtain ⟨outcome, w'⟩ := service call (clock.rested episode w)
  cases outcome with
  | ok answer => exact ⟨rfl, rfl⟩
  | error e =>
    dsimp only
    split <;> exact ⟨rfl, rfl⟩

/-- The three ways a call can go, with all that is seen of it. -/
theorem attempt_watched (episode : Option Episode) (call : ι) (w : ω) :
    let result := policy.attempt clock.watched (watched service call) episode (w, [])
    let waits := (episode.map Episode.delay).toList.map Sight.slept
    (∃ answer w', result = (.ok answer, none, w', waits ++ [.answered call (.ok answer)])) ∨
      (∃ e w', e.isTransient = false ∧
        result = (.error e, episode, w', waits ++ [.answered call (.error e)])) ∨
      ∃ e now w', e.isTransient = true ∧
        result = (.error (policy.onFailure episode now e).1, (policy.onFailure episode now e).2, w',
          waits ++ [.answered call (.error e), .read now]) := by
  intro result waits
  have hrested : clock.watched.rested episode (w, []) = (clock.rested episode w, waits) := by
    cases episode <;> rfl
  have hcalled : watched service call (clock.watched.rested episode (w, [])) =
      ((service call (clock.rested episode w)).1, (service call (clock.rested episode w)).2,
        waits ++ [.answered call (service call (clock.rested episode w)).1]) := by
    rw [hrested]
    rfl
  cases h : (service call (clock.rested episode w)).1 with
  | ok answer =>
    rw [h] at hcalled
    exact .inl ⟨answer, _, policy.attempt_of_ok hcalled⟩
  | error e =>
    rw [h] at hcalled
    cases he : e.isTransient with
    | false => exact .inr (.inl ⟨e, _, he, policy.attempt_of_error hcalled he⟩)
    | true =>
      have hread := policy.attempt_of_transient hcalled he
      simp only [Clock.watched, List.append_assoc, List.singleton_append] at hread
      exact .inr (.inr ⟨e, _, _, he, hread⟩)

/-- Puts a call through to the service, in the world that it finds. -/
def putThrough (line : List (Seen Answer) × Option Episode) (c : ι × ω) :
    List (Seen Answer) × Option Episode :=
  let (result, episode, _, sights) :=
    policy.attempt clock.watched (watched service c.1) line.2 (c.2, [])
  (line.1 ++ [⟨c.1, sights, result⟩], episode)

def putAllThrough (calls : List (ι × ω)) : List (Seen Answer) × Option Episode :=
  calls.foldl (policy.putThrough clock service) ([], none)

/-- The next call is an attempt that goes as scheduled, and leaves the episode that it makes with
those before. -/
def Continues (before : List (Attempt Answer)) (c : ι × ω) : Prop :=
  ∃ a : Attempt Answer, policy.Scheduled before a ∧
    policy.putThrough clock service
        (before.map Attempt.seen, policy.episodeOf (Attempt.failures before)) c =
      ((before ++ [a]).map Attempt.seen, policy.episodeOf (Attempt.failures (before ++ [a])))

section

variable {clock service} {before : List (Attempt Answer)} {w : ω} (w' : ω)

theorem continues_of_attempt {a : Attempt Answer} (ha : policy.Scheduled before a)
    (h : policy.attempt clock.watched (watched service a.call)
        (policy.episodeOf (Attempt.failures before)) (w, []) =
      (a.result, policy.episodeOf (Attempt.failures (before ++ [a])), w', a.seen.sights)) :
    policy.Continues clock service before (a.call, w) := by
  refine ⟨a, ha, ?_⟩
  simp only [putThrough, h, List.map_append, List.map_cons, List.map_nil]
  rfl

/-- A transient failure opens an episode, is final, or makes the wait longer. -/
theorem continues_of_transient {call : ι} {e : ServiceError} {now : Instant}
    (he : e.isTransient = true)
    (h : policy.attempt clock.watched (watched service call)
        (policy.episodeOf (Attempt.failures before)) (w, []) =
      (.error (policy.onFailure (policy.episodeOf (Attempt.failures before)) now e).1,
        (policy.onFailure (policy.episodeOf (Attempt.failures before)) now e).2, w',
        (policy.waitAfter (Attempt.failures before)).toList.map .slept ++
          [.answered call (.error e), .read now])) :
    policy.Continues clock service before (call, w) := by
  by_cases hfinal : ∃ opened more, Attempt.failures before = opened :: more ∧
      opened.after policy.timeMax < now
  · obtain ⟨opened, more, hf, hlate⟩ := hfinal
    have hfailure : policy.onFailure (policy.episodeOf (Attempt.failures before)) now e =
        (.timeout (policy.name ++ ": " ++ e.message), none) := by
      rw [hf, policy.onFailure_of_final hlate]
    rw [hfailure] at h
    refine policy.continues_of_attempt w' (.of_final policy he hf hlate) ?_
    rw [Attempt.failures_concat_of_closes rfl]
    exact h
  · have hopen : ∀ opened more, Attempt.failures before = opened :: more →
        ¬ opened.after policy.timeMax < now := fun opened more hf hlate =>
      hfinal ⟨opened, more, hf, hlate⟩
    have hkept := Attempt.failures_concat_of_open
      (a := ⟨call, policy.waitAfter (Attempt.failures before), .error e, some now,
        .error (policy.transient e)⟩) (policy.isTimeout_transient e) before
    rw [policy.onFailure_of_open hopen] at h
    refine policy.continues_of_attempt w' (.of_open policy he hopen) ?_
    rw [hkept]
    exact h

end

theorem continues (before : List (Attempt Answer)) (c : ι × ω) :
    policy.Continues clock service before c := by
  obtain ⟨call, w⟩ := c
  obtain ⟨answer, w', h⟩ | ⟨e, w', he, h⟩ | ⟨e, now, w', he, h⟩ :=
    policy.attempt_watched clock service (policy.episodeOf (Attempt.failures before)) call w
  · refine policy.continues_of_attempt w' (.of_ok policy answer) ?_
    rw [Attempt.failures_concat_of_closes rfl]
    exact h
  · refine policy.continues_of_attempt w' (.of_error policy he) ?_
    rw [Attempt.failures_concat_of_open rfl, Option.toList_none, List.append_nil]
    exact h
  · exact policy.continues_of_transient w' he h

theorem putAllThrough_concat (calls : List (ι × ω)) (c : ι × ω) :
    policy.putAllThrough clock service (calls ++ [c]) =
      policy.putThrough clock service (policy.putAllThrough clock service calls) c := by
  simp [putAllThrough]

theorem putAllThrough_scheduled (calls : List (ι × ω)) :
    ∃ trace : List (Attempt Answer),
      policy.putAllThrough clock service calls =
          (trace.map Attempt.seen, policy.episodeOf (Attempt.failures trace)) ∧
        ∀ before a after, trace = before ++ a :: after → policy.Scheduled before a := by
  induction calls using List.reverseRecOn with
  | nil => exact ⟨[], rfl, by simp⟩
  | append_singleton calls c ih =>
    obtain ⟨trace, hline, htrace⟩ := ih
    obtain ⟨a, ha, hput⟩ := policy.continues clock service trace c
    refine ⟨trace ++ [a], ?_, fun before b after h => ?_⟩
    · rw [putAllThrough_concat, hline, hput]
    · rcases split_concat h with ⟨rfl, rfl⟩ | ⟨rest, hrest⟩
      · exact ha
      · exact htrace before b rest hrest

/-- The service and its clock do not notice that they are watched. -/
theorem serveAll_attempt (calls : List (ι × ω)) :
    serveAll (fun call => policy.attempt clock (service call)) none calls =
      ((policy.putAllThrough clock service calls).1.map fun s => ⟨s.call, s.result⟩,
        (policy.putAllThrough clock service calls).2) := by
  induction calls using List.reverseRecOn with
  | nil => rfl
  | append_singleton calls c ih =>
    have hwatched := policy.attempt_unwatched clock service
      (policy.putAllThrough clock service calls).2 c.1 c.2
    rw [serveAll_concat, ih, putAllThrough_concat, hwatched.1, hwatched.2]
    simp [putThrough]

/-- The wait and the deadline are set or unset together. -/
theorem serveAll_attemptApart (calls : List (ι × ω)) :
    serveAll (fun call => policy.attemptApart clock (service call)) (.ofEpisode none) calls =
      ((serveAll (fun call => policy.attempt clock (service call)) none calls).1,
        .ofEpisode (serveAll (fun call => policy.attempt clock (service call)) none calls).2) := by
  induction calls using List.reverseRecOn with
  | nil => rfl
  | append_singleton calls c ih =>
    rw [serveAll_concat, serveAll_concat, ih]
    simp only [attemptApart_ofEpisode]

/-- The wait before a call, what it returns and what is kept after it, for all calls of a line. -/
theorem calls_follow_schedule (calls : List (ι × ω)) :
    let line := policy.putAllThrough clock service calls
    let results : List ((call : ι) × Except ServiceError (Answer call)) :=
      line.1.map fun s => ⟨s.call, s.result⟩
    let apart := serveAll (fun call => policy.attemptApart clock (service call)) ⟨none, none⟩ calls
    (∃ trace : List (Attempt Answer),
        line = (trace.map Attempt.seen, policy.episodeOf (Attempt.failures trace)) ∧
          ∀ before a after, trace = before ++ a :: after → policy.Scheduled before a ∧
            ∀ detail, a.result ≠ .error (.connection detail)) ∧
      serveAll (fun call => policy.attempt clock (service call)) none calls = (results, line.2) ∧
      apart = (results, .ofEpisode line.2) ∧
      apart.2.delay.isSome = apart.2.deadline.isSome := by
  intro line results apart
  obtain ⟨trace, hline, htrace⟩ := policy.putAllThrough_scheduled clock service calls
  have htogether := policy.serveAll_attempt clock service calls
  have hapart : apart = (results, .ofEpisode line.2) := by
    have h := policy.serveAll_attemptApart clock service calls
    rwa [htogether] at h
  refine ⟨⟨trace, hline, fun before a after h => ?_⟩, htogether, hapart, ?_⟩
  · have ha := htrace before a after h
    exact ⟨ha, ha.result_ne_connection⟩
  · rw [hapart]
    simp [Marks.ofEpisode]

end

end RetryPolicy

end SiteBroker
