import SiteBroker.Proofs.Clock
import SiteBroker.Proofs.Transaction.Arrivals
import SiteBroker.Proofs.Waiting

/-! Waiting for nothing. A broker that has no second left to wait lists packets in the same cycle,
unless they are due within that second: then it neither waits nor lists them. -/

namespace SiteBroker

open Program

theorem rampWait_eq_zero_iff {previous wanted : Nat} :
    rampWait previous wanted = 0 ↔ wanted = 0 := by
  unfold rampWait
  split <;> omega

theorem Instant.secondsUntil_eq_zero_iff {now target : Instant} (hnow : now.Plain)
    (htarget : target.Plain) :
    now.secondsUntil target = 0 ↔ target.ticks < now.ticks + 1000000000 := by
  rw [secondsUntil_eq hnow htarget]
  omega

namespace Docket

variable {d : Docket} {last t : Instant}

theorem isTarget_iff : d.IsTarget last t ↔ t = last.after d.waits.idle ∨
    ∃ id transaction timer, d.get? id = some transaction ∧ transaction.timer? = some timer ∧
      t = timer.target := by
  refine or_congr_right ⟨?_, ?_⟩
  · rintro ⟨u, hu, timer, htimer, ht⟩
    obtain ⟨id, hid⟩ := mem_toList.mp hu
    exact ⟨id, u, timer, hid, htimer, ht⟩
  · rintro ⟨id, u, timer, hid, htimer, ht⟩
    exact ⟨u, mem_toList.mpr ⟨id, hid⟩, timer, htimer, ht⟩

theorem timer?_of_putTask (task : TaskRecord) (id : TransactionId) :
    ((d.putTask task).get? id).bind (·.timer?) = (d.get? id).bind (·.timer?) := by
  unfold putTask
  rw [get?_set]
  split
  · next h =>
    subst h
    rw [Option.bind_some, Transaction.timer?_putTask]
    unfold transaction
    cases d.get? _ <;> rfl
  · rfl

theorem isTarget_putTask (task : TaskRecord) :
    (d.putTask task).IsTarget last t ↔ d.IsTarget last t := by
  have hof : ∀ d : Docket, (∃ id transaction timer, d.get? id = some transaction ∧
      transaction.timer? = some timer ∧ t = timer.target) ↔
      ∃ id timer, (d.get? id).bind (·.timer?) = some timer ∧ t = timer.target := fun d => by
    simp only [Option.bind_eq_some_iff]
    exact ⟨fun ⟨id, u, timer, hid, h, ht⟩ => ⟨id, timer, ⟨u, hid, h⟩, ht⟩,
      fun ⟨id, timer, ⟨u, hid, h⟩, ht⟩ => ⟨id, u, timer, hid, h, ht⟩⟩
  rw [isTarget_iff, isTarget_iff, hof, hof]
  simp only [timer?_of_putTask]
  rfl

theorem target_putTasks (tasks : List TaskRecord) (last : Instant) :
    (d.putTasks tasks).1.target last = d.target last := by
  have hsame : ∀ t, (d.putTasks tasks).1.IsTarget last t ↔ d.IsTarget last t := fun t => by
    rw [putTasks_fst]
    induction tasks generalizing d with
    | nil => rfl
    | cons task tasks ih => exact (ih (d := d.putTask task)).trans (isTarget_putTask task)
  obtain ⟨htarget, hleast⟩ := d.target_least last
  obtain ⟨htarget', hleast'⟩ := (d.putTasks tasks).1.target_least last
  exact Instant.le_antisymm (hleast' _ ((hsame _).mpr htarget)) (hleast _ ((hsame _).mp htarget'))

end Docket

namespace Broker

variable {σ : Type} (setup : Setup σ) {b b₁ : Broker σ}

/-- Packets are to be listed after a time, but within a second of it. -/
def WithinSecond (b : Broker σ) (now : Instant) : Prop :=
  now.ticks < (b.remoteTarget now).ticks ∧
    (b.remoteTarget now).ticks < now.ticks + 1000000000

/-- Packets are listed in the next cycle. -/
def Lists (b : Broker σ) : Prop :=
  ∃ news since outcome, (left (runCycle setup b)).calls = b.calls ++ news ∧
    ⟨.listPackets since, outcome⟩ ∈ news

theorem OnTime.plain_remoteTarget (hb : OnTime b) {now : Instant} (hnow : now.Plain) :
    (b.remoteTarget now).Plain := by
  unfold remoteTarget
  cases hc : b.packetCursor with
  | none => exact hnow
  | some last =>
    exact hb.timers.plain_of_isTarget (hb.cursor last hc) (b.docket.target_least last).1

theorem OnTime.waitAt_eq_zero_iff (hb : OnTime b) {now : Instant} (hnow : now.Plain) :
    (b.waitAt setup now).2 = 0 ↔ b.remoteTarget now ≤ now ∨ b.WithinSecond now := by
  have htarget := hb.plain_remoteTarget hnow
  rw [waitAt_snd, rampWait_eq_zero_iff, Instant.secondsUntil_eq_zero_iff hnow htarget,
    htarget.le_iff_ticks hnow, WithinSecond]
  omega

theorem remoteTarget_loadTasks (wait : Nat) (b : Broker σ) (now : Instant) :
    (left (loadTasks setup wait b)).remoteTarget now = b.remoteTarget now := by
  obtain ⟨outcome, -, hdocket, -, hcursor⟩ := loadTasks_polls setup wait b
  have hturn : turn setup b (.loadTasks wait) = left (loadTasks setup wait b) := rfl
  rw [hturn] at hdocket hcursor
  unfold remoteTarget
  rw [hcursor, hdocket]
  cases b.packetCursor with
  | none => rfl
  | some last => exact Docket.target_putTasks _ last

theorem await_of_zero (h : (b.waitAt setup (reading setup b)).2 = 0) :
    ∃ w, w.calls = b.calls ∧ await setup b =
      (loadTasks setup 0 >>= fun _ => pure ()) { b.inWorld w with previousWait := 0 } := by
  obtain ⟨w, hw, hnext⟩ := nextWait_outcome setup b
  refine ⟨w, hw, ?_⟩
  unfold await
  rw [bind_of_ok hnext]
  rcases hwait : b.waitAt setup (reading setup b) with ⟨_ | _, n⟩ <;> rw [hwait] at h <;>
    obtain rfl : n = 0 := h
  · rfl
  · rfl

/-- What a cycle does last. -/
def wrapUp : Brokerage σ Unit := do
  let _ ← servePackets setup
  let _ ← flush setup

theorem calls_wrapUp (hr : setup.registry = Registry.catalog setup.services) (b : Broker σ) :
    ∃ rest, (left (wrapUp setup b)).calls = b.calls ++ rest ∧
      ∀ x ∈ rest, x.call.isPoll = false := by
  have hgoes : Goes Unpolled (wrapUp setup) :=
    .bind (unpolled_servePackets setup hr) fun _ => .bind (unpolled_flush setup) fun _ => .pure _
  exact (hgoes b).calls

theorem runCycle_of_await (h : await setup b = .ok () b₁) : ∃ w, w.calls = b₁.calls ∧
    runCycle setup b = (if b₁.remoteTarget (reading setup b₁) ≤ reading setup b₁ then
      loadPackets setup >>= fun _ => wrapUp setup else wrapUp setup) (b₁.inWorld w) := by
  obtain ⟨w, hnow, hw⟩ := now_outcome setup b₁
  refine ⟨w, hw, ?_⟩
  have hget : (get : Brokerage σ (Broker σ)) (b₁.inWorld w) = .ok (b₁.inWorld w) (b₁.inWorld w) :=
    rfl
  have hsame : (b₁.inWorld w).remoteTarget (reading setup b₁) =
    b₁.remoteTarget (reading setup b₁) := rfl
  unfold runCycle
  rw [bind_of_ok h, bind_of_ok hnow, bind_of_ok hget, hsame]
  split <;> rfl

/-- Once a cycle has waited, it lists packets if and only if they are due. -/
theorem lists_iff (hr : setup.registry = Registry.catalog setup.services)
    (h : await setup b = .ok () b₁) {news : List Exchange} (hcalls : b₁.calls = b.calls ++ news)
    (hnews : ∀ since outcome, ⟨.listPackets since, outcome⟩ ∉ news) :
    Lists setup b ↔ b₁.remoteTarget (reading setup b₁) ≤ reading setup b₁ := by
  obtain ⟨w, hw, hrun⟩ := runCycle_of_await setup h
  have hcalls : (b₁.inWorld w).calls = b.calls ++ news := hw.trans hcalls
  unfold Lists
  rw [hrun]
  split
  · next hdue =>
    -- The call is made whether or not it succeeds, and what follows takes no call back.
    refine iff_of_true ?_ hdue
    obtain ⟨outcome, clears, hlist, -⟩ := loadPackets_polls setup (b₁.inWorld w)
    rw [turn, hcalls, List.append_assoc] at hlist
    cases hl : loadPackets setup (b₁.inWorld w) with
    | error e b₂ =>
      rw [hl, left_error] at hlist
      rw [bind_of_error hl, left_error]
      exact ⟨_, _, outcome, hlist, by simp⟩
    | ok n b₂ =>
      rw [hl, left_ok] at hlist
      obtain ⟨rest, hrest, -⟩ := calls_wrapUp setup hr b₂
      rw [hlist, List.append_assoc] at hrest
      rw [bind_of_ok hl]
      exact ⟨_, _, outcome, hrest, by simp⟩
  · next hdue =>
    refine iff_of_false ?_ hdue
    rintro ⟨all, since, outcome, hall, hmem⟩
    obtain ⟨rest, hrest, hpoll⟩ := calls_wrapUp setup hr (b₁.inWorld w)
    rw [hcalls, List.append_assoc] at hrest
    obtain rfl := List.append_cancel_left (hall.symm.trans hrest)
    rcases List.mem_append.mp hmem with hx | hx
    · exact hnews since outcome hx
    · cases hpoll _ hx

/-- Nothing but a call for tasks stands between a broker that does not wait and its decision. -/
theorem await_unwaiting (hwait : (b.waitAt setup (reading setup b)).2 = 0)
    (h : await setup b = .ok () b₁) :
    (∃ outcome, b₁.calls =
      b.calls ++ [⟨.getTasks b.taskCursor.isNone 0 b.taskCursor, outcome⟩]) ∧
    ∀ now, b₁.remoteTarget now = b.remoteTarget now := by
  -- Be it for the one side or the other, without a wait all that is done is to ask for tasks.
  obtain ⟨w, hw, hawait⟩ := await_of_zero setup hwait
  obtain ⟨n, b₂, hload, hb⟩ := bind_eq_ok (hawait.symm.trans h)
  obtain rfl : b₂ = b₁ := by cases hb; rfl
  obtain ⟨outcome, hcalls, -⟩ := loadTasks_polls setup 0 { b.inWorld w with previousWait := 0 }
  have htarget := remoteTarget_loadTasks setup 0 { b.inWorld w with previousWait := 0 }
  have hturn : turn setup { b.inWorld w with previousWait := 0 } (.loadTasks 0) =
    left (loadTasks setup 0 { b.inWorld w with previousWait := 0 }) := rfl
  rw [hturn, hload] at hcalls
  rw [hload] at htarget
  have hcalls : b₂.calls = w.calls ++ _ := hcalls
  rw [hw] at hcalls
  exact ⟨⟨outcome, hcalls⟩, htarget⟩

/-- Whatever a broker has been asked to do, and however the services answered: it has no second left
to wait if and only if packets are due or will be within the second. A cycle that starts so and is
told of its tasks lists packets if and only if they are due by then; that they are as long as the
clock does not go back, unless they were to be listed within the second. -/
theorem lists_of_zero_wait (siteName : String) (s : Services σ) (localWaits waits : WaitTimes)
    (folder : SnapshotFolder) (outside : σ)
    (hclock : ∀ o, (s.environment.clock.read o).1.Plain) (commands : List Command) :
    let setup : Setup σ := ⟨siteName, s, Registry.catalog s, localWaits⟩
    let b := performAll setup (Broker.start waits folder { outside }) commands
    (∀ now : Instant, now.Plain →
      ((b.waitAt setup now).2 = 0 ↔ b.remoteTarget now ≤ now ∨ b.WithinSecond now)) ∧
    ∀ b', (b.waitAt setup (reading setup b)).2 = 0 → await setup b = .ok () b' →
      (Lists setup b ↔ b.remoteTarget (reading setup b') ≤ reading setup b') ∧
      (s.environment.NeverGoesBack outside → ¬ b.WithinSecond (reading setup b) →
        Lists setup b) := by
  intro setup b
  have hr : setup.registry = Registry.catalog setup.services := rfl
  have htime : OnTime b := onTime_performAll hr hclock waits folder outside commands
  refine ⟨fun now hnow => htime.waitAt_eq_zero_iff setup hnow, fun b' hwait hawait => ?_⟩
  obtain ⟨⟨outcome, hcalls⟩, htarget⟩ := await_unwaiting setup hwait hawait
  have hlists : Lists setup b ↔ b.remoteTarget (reading setup b') ≤ reading setup b' := by
    rw [lists_iff setup hr hawait hcalls (by simp), htarget]
  refine ⟨hlists, fun hforward hnot => hlists.mpr ?_⟩
  have hdue : b.remoteTarget (reading setup b) ≤ reading setup b :=
    ((htime.waitAt_eq_zero_iff setup (hclock _)).mp hwait).resolve_right hnot
  have hlater : reading setup b ≤ reading setup b' := by
    have hb : Carries setup (Broker.start waits folder { outside }) b :=
      exists_errands setup _ commands
    have hb' : Carries setup b b' := by
      have hcarried := (upheld_carries setup).await b
      rwa [hawait] at hcarried
    exact hforward _ _ (elapses_of_carries hr hb) (elapses_of_carries hr hb')
  -- Before a first listing packets are due at any time, after it at a fixed one.
  unfold remoteTarget at hdue ⊢
  cases hcursor : b.packetCursor with
  | none => exact Instant.le_refl _
  | some last =>
    rw [hcursor] at hdue
    exact Instant.le_trans hdue hlater

/-- A clock of milliseconds, no tasks, and listings without packets that take some time. -/
def slow (elapse : Nat) : Services Nat :=
  { ticking with environment := { ticking.environment with
      answer := fun
        | .listPackets _, ms => (.ok [], ms + elapse)
        | c, ms => ticking.environment.answer c ms } }

def slowSetup (elapse : Nat) : Setup Nat :=
  ⟨"REMOTE", slow elapse, Registry.catalog (slow elapse), ⟨20000, 120000, 7200000⟩⟩

theorem neverGoesBack_slow (elapse start : Nat) :
    (slow elapse).environment.NeverGoesBack start := by
  refine Environment.neverGoesBack_of_step (fun ms ms' hstep => ?_) start
  have hle : ms ≤ ms' := by
    cases hstep with
    | read => exact Nat.le_refl ms
    | sleep d => exact Nat.le_add_right ms d
    | answer c => cases c <;> first | exact Nat.le_add_right ms elapse | exact Nat.le_refl ms
  exact Instant.ofMillis_le (Int.ofNat_le.mpr hle)

/-- A broker that is to list packets every twenty seconds, after a listing that began at five
seconds and took some time. -/
def listed (elapse : Nat) : Broker Nat :=
  performAll (slowSetup elapse) (Broker.start ⟨10000, 60000, 20000⟩ {} { outside := 5000 })
    [.loadPackets]

theorem lists_of_zero_wait_listed :
    (∀ ms, ((slow 20500).environment.clock.read ms).1.Plain) ∧
    (slow 20500).environment.NeverGoesBack 5000 ∧
    (listed 20500).waitAt (slowSetup 20500) (reading (slowSetup 20500) (listed 20500)) =
      (.remote, 0) ∧
    ¬ (listed 20500).WithinSecond (reading (slowSetup 20500) (listed 20500)) ∧
    Lists (slowSetup 20500) (listed 20500) := by
  have hclock : ∀ ms, ((slow 20500).environment.clock.read ms).1.Plain := fun ms =>
    Instant.plain_ofMillis ms
  have hwait : (listed 20500).waitAt (slowSetup 20500)
      (reading (slowSetup 20500) (listed 20500)) = (.remote, 0) := by decide +kernel
  have hnot : ¬ (listed 20500).WithinSecond (reading (slowSetup 20500) (listed 20500)) := by
    unfold WithinSecond
    decide +kernel
  have hawait : Succeeds (await (slowSetup 20500) (listed 20500)) := by decide +kernel
  refine ⟨hclock, neverGoesBack_slow 20500 5000, hwait, hnot, ?_⟩
  obtain ⟨-, h⟩ := lists_of_zero_wait "REMOTE" (slow 20500) ⟨20000, 120000, 7200000⟩
    ⟨10000, 60000, 20000⟩ {} 5000 hclock [.loadPackets]
  exact (h _ (congrArg Prod.snd hwait) hawait.eq_ok).2
    (neverGoesBack_slow 20500 5000) hnot

/-- A listing that leaves half a second until the next one: the broker neither waits nor lists. -/
theorem not_lists_listed :
    ((listed 19500).waitAt (slowSetup 19500) (reading (slowSetup 19500) (listed 19500))).2 = 0 ∧
    ¬ (listed 19500).remoteTarget (reading (slowSetup 19500) (listed 19500)) ≤
      reading (slowSetup 19500) (listed 19500) ∧
    Succeeds (runCycle (slowSetup 19500) (listed 19500)) ∧
    ¬ Lists (slowSetup 19500) (listed 19500) := by
  have hwait : ((listed 19500).waitAt (slowSetup 19500)
      (reading (slowSetup 19500) (listed 19500))).2 = 0 := by decide +kernel
  refine ⟨hwait, by decide +kernel, by decide +kernel, ?_⟩
  have hawait : Succeeds (await (slowSetup 19500) (listed 19500)) := by decide +kernel
  obtain ⟨⟨outcome, hcalls⟩, -⟩ := await_unwaiting _ hwait hawait.eq_ok
  rw [lists_iff _ rfl hawait.eq_ok hcalls (by simp)]
  decide +kernel

end Broker

end SiteBroker
