import SiteBroker.Proofs.Clock
import SiteBroker.Proofs.Rejection
import SiteBroker.Proofs.Waiting

/-! A pass over both sides leaves no timer behind that has run out: whatever became of the packets
of a listing, each transaction is due at a later time than that of the listing. -/

namespace SiteBroker

open Program

/-- What is held is a reply that is yet to be acknowledged, or is due after a time. -/
def Held.Awaits (q : Instant) (h : Held) : Prop :=
  (∃ r, h.content = .outgoing r false) ∨ q < h.timer.target

namespace Transaction

variable {t : Transaction} {waits : WaitTimes} {q now : Instant} {h : Held}

theorem awaits_refresh (hh : t.held = some h) (hq : q < q.after waits.humanAction) :
    ∃ h', (t.refresh waits q).held = some h' ∧ h'.Awaits q := by
  obtain ⟨content, timer⟩ := h
  unfold refresh
  rw [hh]
  split
  · next r timer' he =>
    cases he
    exact ⟨_, hh, .inl ⟨r, rfl⟩⟩
  · next h' _ he =>
    cases he
    split
    · exact ⟨_, by rw [rearm, hh]; rfl, .inr hq⟩
    · next hlate => exact ⟨_, hh, .inr (Instant.not_le.mp hlate)⟩
  · next he => cases he

theorem awaits_mapJob (f : Job → Job) (hh : t.held = some h) (hq : h.Awaits q) :
    ∃ h', (t.mapJob f).held = some h' ∧ h'.Awaits q := by
  obtain ⟨content, timer⟩ := h
  cases content with
  | incoming job =>
    refine ⟨⟨.incoming (f job), timer⟩, by simp [mapJob, hh], .inr ?_⟩
    rcases hq with ⟨r, hr⟩ | hq
    · cases hr
    · exact hq
  | outgoing r acknowledged => exact ⟨_, by simp [mapJob, hh], hq⟩

theorem awaits_holdReply (p : Packet) (now : Instant) (ht : ∀ h, t.held = some h → h.Awaits q) :
    ∃ h, (t.holdReply now p).held = some h ∧ h.Awaits q := by
  unfold holdReply
  split
  · next hholds =>
    obtain ⟨r, acknowledged, timer, hh, -⟩ := holdsReply_iff.mp hholds
    exact ⟨_, hh, ht _ hh⟩
  · exact ⟨_, rfl, .inl ⟨p, rfl⟩⟩

/-- A reply that was due is due again when an answer to it should have come. -/
theorem later_afterDue (hh : t.held = some h) (hq : h.Awaits q) (hle : q ≤ now)
    (hnow : now < now.after waits.autoReply) :
    ∃ h', (t.afterDue waits now).held = some h' ∧ q < h'.timer.target := by
  unfold afterDue
  by_cases hdue : (t.due? now).isSome = true
  · rw [if_pos hdue]
    refine ⟨_, by rw [rearm, hh]; rfl, ?_⟩
    exact Std.lt_of_le_of_lt hle hnow
  · rw [if_neg hdue]
    refine ⟨h, hh, ?_⟩
    rcases hq with ⟨r, hr⟩ | hq
    · obtain ⟨content, timer⟩ := h
      obtain rfl : content = .outgoing r false := hr
      have hlate : ¬ timer.target ≤ now := fun hlate => hdue (by simp [due?, hh, hlate])
      exact Std.lt_of_le_of_lt hle (Instant.not_le.mp hlate)
    · exact hq

end Transaction

namespace Docket

variable {d : Docket} {P : Held → Prop} {q now : Instant}

/-- Each transaction holds a packet, with a timer of some kind. -/
def AllHold (d : Docket) (P : Held → Prop) : Prop :=
  ∀ id t, d.get? id = some t → ∃ h, t.held = some h ∧ P h

theorem AllHold.purge (hd : d.AllHold P) (id : TransactionId) : (d.purge id).AllHold P := by
  intro i t hg
  rw [get?_purge] at hg
  split at hg
  · cases hg
  · exact hd i t hg

theorem AllHold.set (hd : d.AllHold P) {id : TransactionId} {t : Transaction}
    (ht : ∃ h, t.held = some h ∧ P h) : (d.set id t).AllHold P := by
  intro i u hg
  rw [get?_set] at hg
  split at hg
  · cases hg
    exact ht
  · exact hd i u hg

/-- Once a listing was taken in, what is held is yet to be acknowledged or is due after it. -/
theorem allHold_refresh (hs : d.Sound) (hq : q < q.after d.waits.humanAction) :
    ((d.purgeAll d.taskOnly).refresh q).AllHold (Held.Awaits q) := by
  intro i u hg
  rw [refresh, get?_mapAll, get?_purgeAll] at hg
  obtain ⟨t, ht, rfl⟩ := Option.map_eq_some_iff.mp hg
  rw [Option.ite_none_left_eq_some] at ht
  obtain ⟨hi, ht⟩ := ht
  rw [hs.mem_taskOnly ht] at hi
  obtain ⟨h, hh⟩ := Option.ne_none_iff_exists'.mp hi
  rw [waits_purgeAll]
  exact Transaction.awaits_refresh hh hq

theorem AllHold.mapJob (hd : d.AllHold (Held.Awaits q)) (id : TransactionId) (f : Job → Job) :
    (d.mapJob id f).AllHold (Held.Awaits q) := by
  intro i u hg
  rw [get?_mapJob] at hg
  split at hg
  · obtain ⟨t, ht, rfl⟩ := Option.map_eq_some_iff.mp hg
    obtain ⟨h, hh, hq⟩ := hd i t ht
    exact Transaction.awaits_mapJob f hh hq
  · exact hd i u hg

theorem AllHold.holdReply (hd : d.AllHold (Held.Awaits q)) (now : Instant) (p : Packet) :
    (d.holdReply now p).AllHold (Held.Awaits q) := by
  refine hd.set (Transaction.awaits_holdReply p now fun h hh => ?_)
  unfold transaction at hh
  cases hg : d.get? p.transactionId with
  | none =>
    rw [hg] at hh
    cases hh
  | some t =>
    rw [hg] at hh
    obtain ⟨h', hh', hq⟩ := hd _ t hg
    cases hh'.symm.trans hh
    exact hq

theorem allHold_afterDue (hd : d.AllHold (Held.Awaits q)) (hle : q ≤ now)
    (hnow : now < now.after d.waits.autoReply) :
    (d.afterDue now).AllHold (q < ·.timer.target) := by
  intro i u hg
  rw [afterDue, get?_mapAll] at hg
  obtain ⟨t, ht, rfl⟩ := Option.map_eq_some_iff.mp hg
  obtain ⟨h, hh, hq⟩ := hd i t ht
  exact Transaction.later_afterDue hh hq hle hnow

theorem AllHold.lt_target (hd : d.AllHold (q < ·.timer.target)) (hq : q < q.after d.waits.idle) :
    q < d.target q := by
  rcases (d.target_least q).1 with h | ⟨t, ht, timer, htimer, h⟩ <;> rw [h]
  · exact hq
  · obtain ⟨i, hg⟩ := mem_toList.mp ht
    obtain ⟨held, hh, hlater⟩ := hd i t hg
    have ho : timer = held.timer := by simpa [Transaction.timer?, hh, eq_comm] using htimer
    rwa [ho]

end Docket

namespace Broker

variable {σ : Type} (setup : Setup σ) {q : Instant}

/-- Work on the jobs gives each transaction that is answered a reply to send. -/
theorem allHold_servePackets (b : Broker σ) (hb : b.docket.AllHold (Held.Awaits q)) :
    (left (servePackets setup b)).docket.AllHold (Held.Awaits q) := by
  have hone : ∀ id (o : Office σ), o.docket.AllHold (Held.Awaits q) →
      (left (o.serveAll setup.services setup.registry [] [id])).docket.AllHold (Held.Awaits q) := by
    intro id o ho
    rcases o.serve_one_outcomes setup.services setup.registry id with
      ⟨-, h⟩ | ⟨job, answer, desk, -, -, -, ⟨-, h⟩ | ⟨r, w, -, h⟩⟩ <;> rw [h]
    · exact ho
    · exact ho.mapJob id _
    · exact (ho.mapJob id _).holdReply _ r
  let R (o o' : Office σ) : Prop :=
    o.docket.AllHold (Held.Awaits q) → o'.docket.AllHold (Held.Awaits q)
  have : IsPreorder (Office σ) R := { refl := fun _ => id, trans := fun _ _ _ h h' => h' ∘ h }
  have h := Office.goes_serveAll setup.services setup.registry (R := R) hone
    (b.office.docket.jobsInOrder.map (·.transactionId)) b.office [] hb
  unfold servePackets Office.serve
  revert h
  cases Office.serveAll setup.services setup.registry b.office []
    (b.office.docket.jobsInOrder.map (·.transactionId)) <;> exact id

theorem allHold_sendAll (packets : List Packet) (b : Broker σ)
    (hb : b.docket.AllHold (q < ·.timer.target)) :
    (left (sendAll setup packets b)).docket.AllHold (q < ·.timer.target) := by
  induction packets generalizing b with
  | nil => exact hb
  | cons p rest ih =>
    rcases sendAll_outcomes setup b p rest with ⟨w, -, h, -⟩ | ⟨e, e', w, h, -⟩ <;> rw [h]
    · refine ih _ ?_
      unfold afterSending
      split
      · exact hb
      · exact hb.purge p.transactionId
    · exact hb

theorem allHold_loadPackets (hr : setup.registry = Registry.catalog setup.services)
    {b b' : Broker σ} {n : Nat} (hs : b.docket.Sound)
    (hquery : reading setup b < (reading setup b).after b.docket.waits.humanAction)
    (h : loadPackets setup b = .ok n b') :
    b'.packetCursor = some (reading setup b) ∧
      b'.docket.AllHold (Held.Awaits (reading setup b)) := by
  rcases loadPackets_outcomes setup b with
    ⟨e, e', w, -, he, -⟩ | ⟨packets, w, hl, hc, ⟨e, b₁, -, he⟩ | ⟨n', b₁, htaken, he⟩⟩ <;>
    rw [he] at h <;> cases h
  have hlisted : Carries setup b (carryOut setup b .list) := .of_errand trivial
  have htook := carries_receiveAll_of_listed setup hc
  rw [carryOut, hl] at hlisted
  rw [htaken] at htook
  have hleads := leads_of_carries hr (hlisted.trans htook) hs
  have hwaits : b₁.docket.waits = b.docket.waits := hleads.waits
  refine ⟨rfl, ?_⟩
  rw [docket_settled, docket_withoutTaskOnly]
  exact Docket.allHold_refresh (hleads.sound hs) (by rwa [hwaits])

theorem allHold_flush {b b' : Broker σ} {n : Nat} (hb : b.docket.AllHold (Held.Awaits q))
    (hle : q ≤ reading setup b)
    (hnow : reading setup b < (reading setup b).after b.docket.waits.autoReply)
    (h : flush setup b = .ok n b') : b'.docket.AllHold (q < ·.timer.target) := by
  obtain ⟨w, -, hflush⟩ := flush_outcome setup b
  have hsent := allHold_sendAll setup (q := q) (b.docket.due (reading setup b))
    ((b.inWorld w).setDocket (b.docket.afterDue (reading setup b)))
    (Docket.allHold_afterDue hb hle hnow)
  rwa [← hflush, h] at hsent

/-- Whatever a broker has been through, and however the services answer: if a pass over both sides
succeeds before time comes to its end, each transaction that is still live holds a packet and is due
after the time at which the packets were listed, and so is the next listing. The clock must not go
back, and the delays for the remote side must not be none. -/
theorem due_after_pass (siteName : String) (s : Services σ) (localWaits waits : WaitTimes)
    (folder : SnapshotFolder) (outside : σ) (hwaits : ∀ c, 0 < waits.delay c)
    (hclock : s.environment.NeverGoesBack outside) (commands : List Command) :
    let setup : Setup σ := ⟨siteName, s, Registry.catalog s, localWaits⟩
    let b := performAll setup (Broker.start waits folder { outside }) commands
    let query := reading setup (left (loadTasks setup 0 b))
    ∀ b', runOnce setup b = .ok () b' → reading setup b' < .last →
      b'.packetCursor = some query ∧
      (∀ id t, b'.docket.get? id = some t → ∃ h, t.held = some h ∧ query < h.timer.target) ∧
      ∀ now, query < b'.remoteTarget now := by
  intro setup b query b' hrun hend
  have hr : setup.registry = Registry.catalog setup.services := rfl
  obtain ⟨n₁, b₁, htasks, hrest⟩ := bind_eq_ok hrun
  obtain ⟨n₂, b₂, hlist, hrest⟩ := bind_eq_ok hrest
  obtain ⟨replies, b₃, hserve, hrest⟩ := bind_eq_ok hrest
  obtain ⟨n₄, b₄, hflush, hrest⟩ := bind_eq_ok hrest
  obtain rfl : b₄ = b' := by cases hrest; rfl
  have hquery : reading setup b₁ = query := by
    show reading setup b₁ = reading setup (left (loadTasks setup 0 b))
    rw [htasks, left_ok]
  -- What is known of a broker on the way is known of all that errands lead to.
  have hb₁ : Carries setup (Broker.start waits folder { outside }) b₁ := by
    have htold : Carries setup b (carryOut setup b (.loadTasks 0)) := .of_errand trivial
    rw [carryOut, htasks] at htold
    exact Carries.trans (exists_errands setup _ commands) htold
  have hb₁₃ : Carries setup b₁ b₃ := by
    have hlisted := carries_loadPackets setup b₁
    have hserved := carries_servePackets setup b₂
    rw [hlist] at hlisted
    rw [hserve] at hserved
    exact hlisted.trans hserved
  have hb₃₄ : Carries setup b₃ b₄ := by
    have hflushed : Carries setup b₃ (carryOut setup b₃ .flush) := .of_errand trivial
    rwa [carryOut, hflush] at hflushed
  have hreached : ∀ x, Carries setup (Broker.start waits folder { outside }) x →
      x.docket.Sound ∧ x.docket.waits = waits := fun x hx => by
    have hsound : (Broker.start waits folder { outside }).docket.Sound := Docket.sound_start waits
    have hleads := leads_of_carries hr hx hsound
    exact ⟨hleads.sound hsound, hleads.waits⟩
  have hle : ∀ x y, Carries setup (Broker.start waits folder { outside }) x → Carries setup x y →
      reading setup x ≤ reading setup y := fun x y hx hxy =>
    hclock _ _ (elapses_of_carries hr hx) (elapses_of_carries hr hxy)
  have hlater : ∀ x c, Carries setup (Broker.start waits folder { outside }) x →
      Carries setup x b₄ → reading setup x < (reading setup x).after (x.docket.waits.delay c) :=
    fun x c hx hxb => by
      rw [(hreached x hx).2]
      exact Instant.lt_after (hwaits c) (Std.lt_of_le_of_lt (hle x b₄ hx hxb) hend)
  obtain ⟨hs₁, hw₁⟩ := hreached b₁ hb₁
  obtain ⟨hcursor, hheld⟩ := allHold_loadPackets setup hr hs₁
    (hlater b₁ .human hb₁ (hb₁₃.trans hb₃₄)) hlist
  rw [hquery] at hcursor hheld
  have hheld₃ : b₃.docket.AllHold (Held.Awaits query) := by
    have h := allHold_servePackets setup b₂ hheld
    rwa [hserve] at h
  have hheld₄ := allHold_flush setup hheld₃ (hquery ▸ hle b₁ b₃ hb₁ hb₁₃)
    (hlater b₃ .imminent (hb₁.trans hb₁₃) hb₃₄) hflush
  have hcursor₄ : b₄.packetCursor = some query := by
    have hserved := (unpolled_servePackets setup hr b₂).packetCursor
    have hflushed := (unpolled_flush setup b₃).packetCursor
    rw [hserve] at hserved
    rw [hflush] at hflushed
    exact hflushed.trans (hserved.trans hcursor)
  refine ⟨hcursor₄, hheld₄, fun now => ?_⟩
  have htarget : b₄.remoteTarget now = b₄.docket.target query := by
    rw [remoteTarget, hcursor₄]
  rw [htarget]
  refine Docket.AllHold.lt_target hheld₄ ?_
  have hw₄ := (hreached b₄ (hb₁.trans (hb₁₃.trans hb₃₄))).2
  have hidle := hlater b₁ .idle hb₁ (hb₁₃.trans hb₃₄)
  rwa [hw₁, ← hw₄, hquery] at hidle

theorem neverGoesBack_ticking (start : Nat) : ticking.environment.NeverGoesBack start := by
  refine Environment.neverGoesBack_of_step (fun ms ms' hstep => ?_) start
  have hle : ms ≤ ms' := by
    cases hstep with
    | read => exact Nat.le_refl ms
    | sleep d => exact Nat.le_add_right ms d
    | answer c => cases c <;> exact Nat.le_refl ms
  exact Instant.ofMillis_le (Int.ofNat_le.mpr hle)

/-- A broker that took in the packet `projectEnd` at five seconds, after one pass. -/
def passed : Broker Nat :=
  left (runOnce tickingSetup (performAll tickingSetup
    (Broker.start ⟨10000, 60000, 3600000⟩ {} { outside := 5000 }) [.loadPackets]))

theorem runOnce_eq_passed : runOnce tickingSetup (performAll tickingSetup
    (Broker.start ⟨10000, 60000, 3600000⟩ {} { outside := 5000 }) [.loadPackets]) =
      .ok () passed := by
  have hruns : (match runOnce tickingSetup (performAll tickingSetup
        (Broker.start ⟨10000, 60000, 3600000⟩ {} { outside := 5000 }) [.loadPackets]) with
      | .ok .. => true
      | .error .. => false) = true := by decide +kernel
  unfold passed
  revert hruns
  generalize runOnce tickingSetup _ = r
  intro hruns
  cases r with
  | ok _ b => rfl
  | error e b => cases hruns

theorem due_after_pass_passed :
    (∀ c, 0 < WaitTimes.delay ⟨10000, 60000, 3600000⟩ c) ∧ ticking.environment.NeverGoesBack 5000 ∧
    reading tickingSetup passed < .last ∧ passed.packetCursor = some (.ofMillis 5000) ∧
    (∀ id t, passed.docket.get? id = some t →
      ∃ h, t.held = some h ∧ .ofMillis 5000 < h.timer.target) ∧
    ∀ now, .ofMillis 5000 < passed.remoteTarget now := by
  have hwaits : ∀ c, 0 < WaitTimes.delay ⟨10000, 60000, 3600000⟩ c := by
    intro c
    cases c <;> decide
  have hend : reading tickingSetup passed < .last := by decide +kernel
  refine ⟨hwaits, neverGoesBack_ticking 5000, hend, ?_⟩
  exact due_after_pass "REMOTE" ticking ⟨20000, 120000, 7200000⟩ ⟨10000, 60000, 3600000⟩ {} 5000
    hwaits (neverGoesBack_ticking 5000) [.loadPackets] passed runOnce_eq_passed hend

end Broker

end SiteBroker
