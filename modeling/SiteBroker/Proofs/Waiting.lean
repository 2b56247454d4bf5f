import SiteBroker.Proofs.Answers
import SiteBroker.Proofs.Polling

/-! How long a broker waits: never past a time at which something is due, and step by step longer
while nothing happens. -/

namespace SiteBroker

open Program

theorem rampWait_le (previous wanted : Nat) : rampWait previous wanted ≤ wanted := by
  unfold rampWait
  split <;> omega

theorem rampWait_le_of_longer {previous wanted : Nat} (h : previous < rampWait previous wanted) :
    rampWait previous wanted ≤ max (2 * previous) 4 := by
  unfold rampWait at *
  split at h
  · next hl =>
    rw [if_pos hl]
    omega
  · omega

theorem rampWait_pos {previous wanted : Nat} (h : 0 < wanted) : 0 < rampWait previous wanted := by
  unfold rampWait
  split <;> omega

namespace Docket

variable {d : Docket}

/-- The tasks on record, with jobs or set aside, let one expect news after the delay of a class. -/
def Expects (d : Docket) : DelayClass → Prop
  | .imminent => ∃ k t, d.ledger k = some t ∧ t.state.isBusy = true
  | .human => (∀ k t, d.ledger k = some t → t.state.isBusy = false) ∧
      ∃ k t, d.ledger k = some t ∧ t.state.isWaiting = true
  | .idle => ∀ k t, d.ledger k = some t → t.state.isBusy = false ∧ t.state.isWaiting = false

theorem expects_delayClass (hs : d.Sound) : d.Expects d.expected.delayClass := by
  have hmem : ∀ t, t ∈ d.allTasks ↔ ∃ k, d.ledger k = some t := fun t =>
    (lists_allTasks hs).mem_iff
  have hany : ∀ f : TaskRecord → Bool, d.allTasks.any f = true ↔
      ∃ k t, d.ledger k = some t ∧ f t = true := fun f => by
    simp only [List.any_eq_true, hmem]
    exact ⟨fun ⟨t, ⟨k, hk⟩, hf⟩ => ⟨k, t, hk, hf⟩, fun ⟨k, t, hk, hf⟩ => ⟨t, ⟨k, hk⟩, hf⟩⟩
  have hnone : ∀ {f : TaskRecord → Bool}, d.allTasks.any f = false →
      ∀ k t, d.ledger k = some t → f t = false := fun hf k t hk =>
    Bool.eq_false_iff.mpr (List.any_eq_false.mp hf t ((hmem t).mpr ⟨k, hk⟩))
  have hclass : d.expected.delayClass =
      if d.allTasks.any (·.state.isBusy) then .imminent
      else if d.allTasks.any (·.state.isBusy) || d.allTasks.any (·.state.isWaiting) then .human
      else .idle := rfl
  rw [hclass]
  cases hb : d.allTasks.any (·.state.isBusy) with
  | true => exact (hany _).mp hb
  | false =>
    cases hw : d.allTasks.any (·.state.isWaiting) with
    | true => exact ⟨hnone hb, (hany _).mp hw⟩
    | false => exact fun k t hk => ⟨hnone hb k t hk, hnone hw k t hk⟩

/-- The time after which packets are to be listed, or at which a transaction is due. -/
def IsTarget (d : Docket) (last t : Instant) : Prop :=
  t = last.after d.waits.idle ∨
    ∃ transaction ∈ d.toList, ∃ timer, transaction.timer? = some timer ∧ t = timer.target

theorem target_least (d : Docket) (last : Instant) : d.IsTarget last (d.target last) ∧
    ∀ t, d.IsTarget last t → d.target last ≤ t := by
  have hmin : (last.after d.waits.idle :: (d.toList.filterMap (·.timer?)).map (·.target)).min? =
      some (d.target last) := by
    rw [List.min?_cons', List.foldl_map]
    rfl
  have hmem : ∀ t, d.IsTarget last t ↔
      t ∈ last.after d.waits.idle :: (d.toList.filterMap (·.timer?)).map (·.target) := by
    intro t
    simp only [IsTarget, List.mem_cons, List.mem_map, List.mem_filterMap]
    refine or_congr_right ⟨?_, ?_⟩
    · rintro ⟨u, hu, timer, ht, rfl⟩
      exact ⟨timer, ⟨u, hu, ht⟩, rfl⟩
    · rintro ⟨timer, ⟨u, hu, ht⟩, rfl⟩
      exact ⟨u, hu, timer, ht, rfl⟩
  simp only [hmem]
  exact List.min?_eq_some_iff.mp hmin

end Docket

/-- The timer of what is held is due outside of leap seconds. -/
def Held.Timed (h : Held) : Prop := h.timer.target.Plain

theorem Held.durable_timed :
    Held.Durable Instant.Plain (fun _ => True) (fun _ => True) Held.Timed where
  worked _ h := h
  rearmed waits c hbase _ := hbase.after (waits.delay c)
  accepted waits hquery _ := hquery.after (waits.delay .human)
  acknowledged waits hquery _ _ := hquery.after (waits.delay .human)
  replied hnow _ := hnow

theorem Docket.Keeps.plain_of_isTarget {d : Docket} (hk : d.Keeps Held.Timed) {last t : Instant}
    (hlast : last.Plain) (ht : d.IsTarget last t) : t.Plain := by
  rcases ht with rfl | ⟨u, hu, timer, htimer, rfl⟩
  · exact hlast.after d.waits.idle
  · obtain ⟨id, hid⟩ := mem_toList.mp hu
    obtain ⟨h, hh, rfl⟩ := Option.map_eq_some_iff.mp htimer
    exact hk id u hid h hh

theorem Situation.Leads.waits {a b : Situation} (h : a.Leads b) :
    b.docket.waits = a.docket.waits := by
  obtain ⟨history, -, rfl⟩ := h
  induction history generalizing a with
  | nil => rfl
  | cons e history ih => exact ih.trans (Docket.waits_performAll e.moves)

namespace Broker

variable {σ : Type} (setup : Setup σ) {b : Broker σ}

/-- What times are told by is outside of leap seconds. -/
structure OnTime (b : Broker σ) : Prop where
  timers : b.docket.Keeps Held.Timed
  cursor : ∀ last, b.packetCursor = some last → last.Plain

theorem packetCursor_carryOut (b : Broker σ) {e : Errand} (he : ∀ query, e ≠ .settle query) :
    (carryOut setup b e).packetCursor = b.packetCursor := by
  cases e with
  | readClock => rfl
  | loadTasks wait =>
    obtain ⟨-, -, -, -, h⟩ := loadTasks_polls setup wait b
    exact h
  | list =>
    rw [carryOut]
    rcases loadPackets_outcomes setup b with ⟨e, e', w, h, -⟩ | ⟨packets, w, h, -⟩ <;> rw [h] <;>
      rfl
  | take query p => rfl
  | close p => exact (unpolled_complete setup p.transactionId b).packetCursor
  | dropTaskOnly => rfl
  | settle query => exact absurd rfl (he query)
  | attend id => rfl
  | flush => exact (unpolled_flush setup b).packetCursor
  | nextWait => rfl
  | sleep seconds => rfl

section

variable {setup} (hr : setup.registry = Registry.catalog setup.services)
  (hclock : ∀ t, IsReading setup t → t.Plain)

include hr hclock

theorem OnTime.carryOut (hb : OnTime b) {e : Errand} (hfit : Fits setup b e) :
    OnTime (carryOut setup b e) where
  timers := keeps_carryOut hr Held.durable_timed hclock hb.timers hfit (fun _ _ => trivial)
    fun _ => trivial
  cursor last hlast := by
    by_cases he : ∃ query, e = .settle query
    · obtain ⟨query, rfl⟩ := he
      obtain rfl : query = last := Option.some.inj hlast
      exact hclock query hfit
    · rw [packetCursor_carryOut setup b (not_exists.mp he)] at hlast
      exact hb.cursor last hlast

theorem OnTime.carryOutAll (hb : OnTime b) {errands : List Errand} (hfit : FitAll setup b errands) :
    OnTime (carryOutAll setup b errands) := by
  induction errands generalizing b with
  | nil => exact hb
  | cons e errands ih => exact ih (hb.carryOut hr hclock hfit.1) hfit.2

end

/-- From the start on all that a broker does is on time. -/
theorem onTime_performAll {setup : Setup σ} (hr : setup.registry = Registry.catalog setup.services)
    (hclock : ∀ o, (setup.services.environment.clock.read o).1.Plain) (waits : WaitTimes)
    (folder : SnapshotFolder) (outside : σ) (commands : List Command) :
    OnTime (performAll setup (Broker.start waits folder { outside }) commands) := by
  have hreading : ∀ t, IsReading setup t → t.Plain := by
    rintro _ ⟨o, rfl⟩
    exact hclock o
  have hstart : OnTime (Broker.start waits folder { outside }) :=
    ⟨Docket.keeps_start waits _, fun last h => by cases h⟩
  obtain ⟨errands, hfit, hrun⟩ :=
    exists_errands setup (Broker.start waits folder { outside }) commands
  rw [← hrun]
  exact hstart.carryOutAll hr hreading hfit

/-- A side and a number of seconds are right to wait for at a time, if packets were last listed at
another: nothing is due while the broker waits. Ticks do not count leap seconds, so a wait that
starts within one may take as much longer. -/
structure Paces (b : Broker σ) (last now : Instant) (side : Side) (wait : Nat) : Prop where
  bounded : wait = 0 ∨ ∀ t, b.docket.IsTarget last t →
    now.ticks + wait * 1000000000 ≤ t.ticks + now.leap
  ramped : b.previousWait < wait → wait ≤ max (2 * b.previousWait) 4
  positive : (∀ t, b.docket.IsTarget last t → now.ticks + 1000000000 ≤ t.ticks) → 0 < wait
  side : ∃ c, b.docket.Expects c ∧ (side = .local ↔
    ∀ t, b.docket.IsTarget last t → now.after (setup.localWaits.delay c) ≤ t)

theorem waitAt_snd (b : Broker σ) (now : Instant) : (b.waitAt setup now).2 =
    rampWait b.previousWait (now.secondsUntil (b.remoteTarget now)) := by
  simp only [waitAt]
  split
  · next h => rw [h]; rfl
  · rfl

theorem paces_waitAt {last now : Instant} (hs : b.docket.Sound) (hb : OnTime b)
    (hc : b.packetCursor = some last) :
    Paces setup b last now (b.waitAt setup now).1 (b.waitAt setup now).2 := by
  obtain ⟨htarget, hleast⟩ := b.docket.target_least last
  have hplain : ∀ {t}, b.docket.IsTarget last t → t.Plain :=
    hb.timers.plain_of_isTarget (hb.cursor last hc)
  have hremote : b.remoteTarget now = b.docket.target last := by simp [remoteTarget, hc]
  have hwait : (b.waitAt setup now).2 =
      rampWait b.previousWait (now.secondsUntil (b.docket.target last)) := by
    rw [waitAt_snd, hremote]
  have hside : (b.waitAt setup now).1 =
      if now.after (setup.localWaits.delay b.docket.expected.delayClass) ≤ b.docket.target last
      then .local else .remote := by
    simp only [waitAt, hremote]
    rfl
  have hall : ∀ t, (∀ t', b.docket.IsTarget last t' → t ≤ t') ↔ t ≤ b.docket.target last :=
    fun t => ⟨fun h => h _ htarget, fun h t' ht' => Instant.le_trans h (hleast t' ht')⟩
  rw [hwait, hside]
  constructor
  case bounded =>
    have hle := rampWait_le b.previousWait (now.secondsUntil (b.docket.target last))
    rcases Nat.eq_zero_or_pos (rampWait b.previousWait _) with h0 | hpos
    · exact .inl h0
    · refine .inr fun t ht => ?_
      have huntil := Instant.ticks_add_secondsUntil_le (hplain htarget)
        (Nat.lt_of_lt_of_le hpos hle)
      have hfirst := ((hplain htarget).le_iff_ticks (hplain ht)).mp (hleast t ht)
      omega
  case ramped => exact rampWait_le_of_longer
  case positive =>
    exact fun h => rampWait_pos (Instant.secondsUntil_pos (hplain htarget) (h _ htarget))
  case side =>
    refine ⟨_, Docket.expects_delayClass hs, ?_⟩
    rw [hall]
    split <;> simp_all

/-- Whatever a broker has been asked to do, and however the services answered: once a listing of
packets was taken in completely, the next wait is over before anything is due, grows step by step,
and is for the local side if that is expected to have news first. -/
theorem nextWait_paces (siteName : String) (s : Services σ) (localWaits waits : WaitTimes)
    (folder : SnapshotFolder) (outside : σ)
    (hclock : ∀ o, (s.environment.clock.read o).1.Plain) (commands : List Command) :
    let setup : Setup σ := ⟨siteName, s, Registry.catalog s, localWaits⟩
    let b := performAll setup (Broker.start waits folder { outside }) commands
    b.docket.waits = waits ∧
    (∃ b', nextWait setup b = .ok (b.waitAt setup (reading setup b)) b' ∧
      b'.previousWait = (b.waitAt setup (reading setup b)).2) ∧
    ∀ last now, b.packetCursor = some last →
      Paces setup b last now (b.waitAt setup now).1 (b.waitAt setup now).2 := by
  intro setup b
  have hsound : (Broker.start waits folder { outside }).docket.Sound := Docket.sound_start waits
  have hleads : (Broker.start waits folder { outside }).situation.Leads b.situation :=
    leads_performAll setup rfl _ commands hsound
  have htime : OnTime b := onTime_performAll rfl hclock waits folder outside commands
  obtain ⟨w, -, hwait⟩ := nextWait_outcome setup b
  refine ⟨hleads.waits, ⟨_, hwait, rfl⟩, fun last now hlast => ?_⟩
  exact paces_waitAt setup (hleads.sound hsound) htime hlast

/-- A clock of milliseconds, one packet for all who ask, and tasks that stay queued. -/
def ticking : Services Nat where
  environment := {
    clock := ⟨fun ms => (.ofMillis ms, ms), fun d ms => ms + d⟩
    answer := fun
      | .getTasks .., ms => (.ok [], ms)
      | .clear _, ms => (.ok (), ms)
      | .lookup _, ms => (.ok none, ms)
      | .submit request, ms =>
        (.ok ⟨request.keys, request.taskName, .queued, request.timestamp, []⟩, ms)
      | .listPackets _, ms => (.ok [Docket.projectEnd], ms)
      | .sendPacket _, ms => (.ok (), ms) }
  localPolicy := { name := "local" }
  remotePolicy := { name := "remote" }
  taskName? o := some o.name

def tickingSetup : Setup Nat :=
  ⟨"REMOTE", ticking, Registry.catalog ticking, ⟨20000, 120000, 7200000⟩⟩

/-- A broker that took in the packet at five seconds and put a task for it. -/
def working : Broker Nat :=
  performAll tickingSetup (Broker.start ⟨10000, 60000, 3600000⟩ {} { outside := 5000 })
    [.loadPackets, .servePackets]

theorem nextWait_paces_working :
    (∀ ms, (ticking.environment.clock.read ms).1.Plain) ∧
    working.packetCursor = some (.ofMillis 5000) ∧
    working.waitAt tickingSetup (.ofMillis 6000) = (.remote, 4) ∧
    Paces tickingSetup working (.ofMillis 5000) (.ofMillis 6000) .remote 4 := by
  have hclock : ∀ ms, (ticking.environment.clock.read ms).1.Plain := fun ms => by
    show ((ms : Int) % 1000).toNat * 1000000 < 1000000000
    omega
  have hcursor : working.packetCursor = some (.ofMillis 5000) := by decide +kernel
  have hwait : working.waitAt tickingSetup (.ofMillis 6000) = (.remote, 4) := by decide +kernel
  obtain ⟨-, -, h⟩ := nextWait_paces "REMOTE" ticking ⟨20000, 120000, 7200000⟩
    ⟨10000, 60000, 3600000⟩ {} 5000 hclock [.loadPackets, .servePackets]
  have hpaces : Paces tickingSetup working (.ofMillis 5000) (.ofMillis 6000)
      (working.waitAt tickingSetup (.ofMillis 6000)).1
      (working.waitAt tickingSetup (.ofMillis 6000)).2 := h _ _ hcursor
  rw [hwait] at hpaces
  exact ⟨hclock, hcursor, hwait, hpaces⟩

end Broker

end SiteBroker
