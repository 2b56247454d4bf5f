import SiteBroker.Proofs.Answers
import SiteBroker.Proofs.Resending
import SiteBroker.Proofs.Submission

/-! Transactions are dropped when they are over, and at no other time: at the word of either side
that closes one, or because it was known from tasks alone and a listing has nothing for it. -/

namespace SiteBroker

open Program

theorem Deed.moves_cases (e : Deed) : e.moves = [] ∨ ∃ m, e.moves = [m] := by
  cases e with
  | called x =>
    obtain ⟨call, outcome⟩ := x
    cases call with
    | getTasks active wait since => cases outcome <;> simp [moves, Exchange.moves]
    | submit request => cases outcome <;> simp [moves, Exchange.moves]
    | sendPacket p =>
      cases outcome with
      | error e => exact .inl rfl
      | ok u =>
        rw [moves_sendPacket]
        cases p.expectsReply <;> simp
    | clear id => cases outcome <;> exact .inl rfl
    | lookup request => cases outcome <;> exact .inl rfl
    | listPackets since => cases outcome <;> exact .inl rfl
  | closed p outcome => cases outcome <;> simp [moves]
  | took query p => exact .inr ⟨_, rfl⟩
  | droppedTaskOnly => exact .inr ⟨_, rfl⟩
  | progressed id p => exact .inr ⟨_, rfl⟩
  | replied now p => exact .inr ⟨_, rfl⟩
  | collected now => exact .inr ⟨_, rfl⟩
  | refreshed query => exact .inr ⟨_, rfl⟩

namespace Situation

variable {a : Situation} {e : Deed} {id : TransactionId}

/-- The deed gives the transaction a packet to hold. -/
def Gives (a : Situation) (id : TransactionId) (e : Deed) : Prop :=
  ∃ m, e.moves = [m] ∧ a.docket.Occupies id m

/-- Since the transaction came to be, no deed of the history gave it a packet. -/
def NeverGives (a : Situation) (id : TransactionId) (history : List Deed) : Prop :=
  ∀ before e after, history = before ++ e :: after → (a.afterAll before).Gives id e →
    ¬ (a.afterAll (before ++ [e])).Keeps id after

theorem held_after {t t' : Transaction} (hg : a.docket.get? id = some t)
    (ht : t.packet?.isSome = true) (hg' : (a.after e).docket.get? id = some t') :
    t'.packet?.isSome = true := by
  rcases e.moves_cases with hm | ⟨m, hm⟩
  · rw [after_of_no_moves hm, hg] at hg'
    cases hg'
    exact ht
  · have hd : (a.after e).docket = a.docket.perform m := by
      rw [after, hm]
      rfl
    rw [hd] at hg'
    exact Docket.held_perform hg ht hg'

theorem held_afterAll {history : List Deed} {t t' : Transaction} (hg : a.docket.get? id = some t)
    (ht : t.packet?.isSome = true) (hk : a.Keeps id history)
    (hg' : (a.afterAll history).docket.get? id = some t') : t'.packet?.isSome = true := by
  induction history generalizing a t with
  | nil =>
    rw [afterAll_nil, hg] at hg'
    cases hg'
    exact ht
  | cons e history ih =>
    obtain ⟨u, hu⟩ := Option.isSome_iff_exists.mp hk.1
    exact ih hu (held_after hg ht hu) hk.2 hg'

theorem neverGives_of_free {history : List Deed} {t : Transaction}
    (hg : (a.afterAll history).docket.get? id = some t) (hh : t.held = none) :
    a.NeverGives id history := by
  rintro before e after rfl ⟨m, hm, ho⟩ hk
  obtain ⟨u, hu, hheld⟩ := Docket.held_of_occupies ho
  have hd : (a.afterAll (before ++ [e])).docket.get? id = some u := by
    rw [afterAll_append, afterAll_cons, afterAll_nil, Situation.after, hm]
    exact hu
  have hsplit : a.afterAll (before ++ e :: after) =
      (a.afterAll (before ++ [e])).afterAll after := by
    rw [← afterAll_append, List.append_assoc, List.singleton_append]
  rw [hsplit] at hg
  have hlast := held_afterAll hd hheld hk hg
  rw [Transaction.packet?_isSome, hh] at hlast
  cases hlast

end Situation

namespace Packet

/-- The packet closes its transaction or expects a reply, and not both. -/
def Answerable (p : Packet) : Prop := p.expectsReply = !p.type.closes

/-- Every type that a packet may be answered with expects an answer itself, but the last. -/
theorem IsReplyTo.answerable {r p : Packet} {failure : Prop} (h : r.IsReplyTo p failure) :
    r.Answerable := by
  unfold Answerable expectsReply
  rcases h.type with ht | ht
  · cases hp : p.type <;> rw [hp] at ht <;> simp_all [PacketType.expectedReplies] <;> rfl
  · rw [ht]
    rfl

end Packet

/-- Among the calls, the last packet of a transaction was sent. -/
def SentLast (calls : List Exchange) (id : TransactionId) : Prop :=
  ∃ p : Packet, p.type.closes = true ∧ p.transactionId = id ∧ ⟨.sendPacket p, .ok ()⟩ ∈ calls

/-- Among the calls, the local service dropped the records of a transaction that one of the packets
closes for the site. -/
def Closed (siteName : String) (packets : List Packet) (calls : List Exchange)
    (id : TransactionId) : Prop :=
  ∃ p ∈ packets, p.isAddressedTo siteName = true ∧ p.type.closes = true ∧ p.transactionId = id ∧
    ⟨.clear id, .ok ()⟩ ∈ calls

theorem not_sentLast_nil (id : TransactionId) : ¬ SentLast [] id := by
  rintro ⟨p, -, -, hp⟩
  cases hp

theorem sentLast_cons_sent {p : Packet} {calls : List Exchange} {id : TransactionId} :
    SentLast (⟨.sendPacket p, .ok ()⟩ :: calls) id ↔
      (p.type.closes = true ∧ p.transactionId = id) ∨ SentLast calls id := by
  constructor
  · rintro ⟨q, hc, hid, hq⟩
    rcases List.mem_cons.mp hq with he | hq
    · cases he
      exact .inl ⟨hc, hid⟩
    · exact .inr ⟨q, hc, hid, hq⟩
  · rintro (⟨hc, hid⟩ | ⟨q, hc, hid, hq⟩)
    · exact ⟨p, hc, hid, List.mem_cons_self⟩
    · exact ⟨q, hc, hid, List.mem_cons_of_mem _ hq⟩

theorem not_sentLast_error {p : Packet} {e : ServiceError} (id : TransactionId) :
    ¬ SentLast [⟨.sendPacket p, .error e⟩] id := by
  rintro ⟨q, -, -, hq⟩
  cases List.mem_singleton.mp hq

theorem Closed.mono {siteName : String} {packets packets' : List Packet}
    {calls calls' : List Exchange} {id : TransactionId} (h : Closed siteName packets calls id)
    (hp : packets ⊆ packets') (hc : calls ⊆ calls') : Closed siteName packets' calls' id := by
  obtain ⟨p, hm, ha, ht, hid, hx⟩ := h
  exact ⟨p, hp hm, ha, ht, hid, hc hx⟩

namespace Office

variable {σ : Type} (s : Services σ) (registry : Registry σ)

/-- From one office to the other no transaction was dropped. -/
def Spares (o o' : Office σ) : Prop :=
  ∀ id, (o.docket.get? id).isSome = true → (o'.docket.get? id).isSome = true

instance : IsPreorder (Office σ) Spares where
  refl _ _ := id
  trans _ _ _ h h' id := h' id ∘ h id

theorem spares_serve_one (id : TransactionId) (o : Office σ) :
    Spares o (left (o.serveAll s registry [] [id])) := by
  intro i hi
  have hwork : ∀ job, ((o.docket.mapJob id fun _ => job).get? i).isSome = true := fun job => by
    rwa [Docket.isSome_get?_mapJob]
  rcases o.serve_one_outcomes s registry id with
    ⟨-, h⟩ | ⟨job, answer, desk, -, -, -, ⟨-, hd⟩ | ⟨r, w, -, hd⟩⟩
  · rwa [h]
  · rw [hd]
    exact hwork desk.job
  · rw [hd, Docket.get?_holdReply]
    split
    · rfl
    · exact hwork desk.job

end Office

namespace Broker

variable {σ : Type} (setup : Setup σ)

/-- Every reply that a broker holds is answerable, whatever it was asked to do since it started. -/
theorem answerable_of_holds (hr : setup.registry = Registry.catalog setup.services)
    {waits : WaitTimes} {folder : SnapshotFolder} {world : World σ} {commands : List Command}
    {id : TransactionId} {r : Packet}
    (h : (performAll setup (start waits folder world) commands).docket.Holds id r) :
    r.Answerable := by
  obtain ⟨errands, hfit, hrun⟩ := exists_errands setup (start waits folder world) commands
  have hkeeps := keeps_carryOutAll setup hr (Held.durable_accounts _ Packet.Answerable)
    (fun _ _ => trivial) (fun ha => (isReplyTo_of_answers setup hr ha).answerable)
    (b := start waits folder world) (Docket.keeps_start waits _) hfit
  rw [hrun] at hkeeps
  exact hkeeps.replies_of_holds h

/-- A packet that expects no reply is the last of its transaction. -/
theorem live_afterSending {p : Packet} (hp : p.Answerable) (b : Broker σ) (id : TransactionId) :
    (b.afterSending p).Live id ↔ b.Live id ∧ ¬ (p.type.closes = true ∧ p.transactionId = id) := by
  have hcloses : p.type.closes = !p.expectsReply := by rw [hp, Bool.not_not]
  unfold afterSending
  cases hr : p.expectsReply with
  | true => simp [hcloses, hr]
  | false =>
    rw [if_neg Bool.false_ne_true, Live, docket_without, Docket.get?_purge]
    by_cases hi : p.transactionId = id
    · simp [hi, hcloses, hr]
    · simp [hi, Live]

/-- Of the transactions that were live before packets are sent, those remain whose last packet was
not among them. -/
theorem live_sendAll {packets : List Packet} (hp : ∀ p ∈ packets, p.Answerable) (b : Broker σ) :
    ∃ news, (left (sendAll setup packets b)).situation.calls = b.situation.calls ++ news ∧
      ∀ id, (left (sendAll setup packets b)).Live id ↔ b.Live id ∧ ¬ SentLast news id := by
  induction packets generalizing b with
  | nil =>
    refine ⟨[], (List.append_nil _).symm, fun id => ?_⟩
    exact ⟨fun h => ⟨h, not_sentLast_nil id⟩, fun h => h.1⟩
  | cons p rest ih =>
    obtain ⟨hanswer, hrest⟩ := List.forall_mem_cons.mp hp
    rcases sendAll_outcomes setup b p rest with ⟨w, hc, h, -⟩ | ⟨e, e', w, h, hc⟩ <;> rw [h]
    · obtain ⟨news, hnews, hlive⟩ := ih hrest ((b.inWorld w).afterSending p)
      have hcalls : ((b.inWorld w).afterSending p).situation.calls =
          b.situation.calls ++ [⟨.sendPacket p, .ok ()⟩] := (calls_afterSending _ p).trans hc
      refine ⟨⟨.sendPacket p, .ok ()⟩ :: news, by rw [hnews, hcalls]; simp, fun id => ?_⟩
      have hsent : ((b.inWorld w).afterSending p).Live id ↔
          b.Live id ∧ ¬ (p.type.closes = true ∧ p.transactionId = id) :=
        live_afterSending hanswer (b.inWorld w) id
      rw [hlive, hsent, sentLast_cons_sent]
      tauto
    · exact ⟨_, hc, fun id => ⟨fun hl => ⟨hl, not_sentLast_error id⟩, fun hl => hl.1⟩⟩

theorem live_flush {b : Broker σ} (hb : ∀ id r, b.docket.Holds id r → r.Answerable) :
    ∃ news, (left (flush setup b)).situation.calls = b.situation.calls ++ news ∧
      ∀ id, (left (flush setup b)).Live id ↔ b.Live id ∧ ¬ SentLast news id := by
  obtain ⟨w, hc, hrun⟩ := flush_outcome setup b
  rw [hrun]
  have hdue : ∀ p ∈ b.docket.due (reading setup b), p.Answerable := by
    intro p hp
    obtain ⟨id, hh⟩ := Docket.holds_of_mem_due hp
    exact hb id p hh
  obtain ⟨news, hnews, hlive⟩ := live_sendAll setup hdue
    ((b.inWorld w).setDocket (b.docket.afterDue (reading setup b)))
  refine ⟨news, hnews.trans (congrArg (· ++ news) hc), fun id => ?_⟩
  rw [hlive, Live, docket_setDocket, Docket.afterDue, Docket.get?_mapAll, Option.isSome_map]
  rfl

/-- What becomes of transactions when packets are taken in: each is closed, or it is there still.
One that held a packet holds one, and once all packets are taken in so does each that they are
for. -/
def Retains (packets : List Packet) (b b' : Broker σ) (complete : Prop) : Prop :=
  ∃ news, b'.situation.calls = b.situation.calls ++ news ∧
    ∀ id t, b.docket.get? id = some t → Closed setup.siteName packets news id ∨
      ∃ t', b'.docket.get? id = some t' ∧ (t.packet?.isSome = true → t'.packet?.isSome = true) ∧
        (complete → t'.packet?.isSome = true ∨
          ∀ p ∈ packets, p.isAddressedTo setup.siteName = true → p.transactionId ≠ id)

namespace Retains

variable {setup} {b b₁ b' : Broker σ} {p : Packet} {rest : List Packet} {complete : Prop}

theorem skip (h : Retains setup rest b b' complete)
    (hp : ¬ p.isAddressedTo setup.siteName = true) :
    Retains setup (p :: rest) b b' complete := by
  obtain ⟨news, hnews, hkept⟩ := h
  refine ⟨news, hnews, fun id t hg => ?_⟩
  rcases hkept id t hg with hclosed | ⟨t', hg', hheld, hall⟩
  · exact .inl (hclosed.mono (List.subset_cons_self p rest) (List.Subset.refl _))
  · refine .inr ⟨t', hg', hheld, fun hc => (hall hc).imp_right fun hnone => ?_⟩
    exact List.forall_mem_cons.mpr ⟨fun ha => absurd ha hp, hnone⟩

theorem took {query : Instant} (h : Retains setup rest b₁ b' complete)
    (hp : p.type.closes = false) (hd : b₁.docket = (b.docket.receive query p).1)
    (hc : b₁.situation.calls = b.situation.calls) : Retains setup (p :: rest) b b' complete := by
  obtain ⟨news, hnews, hkept⟩ := h
  refine ⟨news, by rw [hnews, hc], fun id t hg => ?_⟩
  by_cases hi : p.transactionId = id
  -- The transaction of the packet holds one from now on.
  · obtain ⟨t₁, hg₁, hheld₁⟩ := Docket.held_receive (d := b.docket) hp query
    rw [← hd, hi] at hg₁
    rcases hkept id t₁ hg₁ with hclosed | ⟨t', hg', hheld, -⟩
    · exact .inl (hclosed.mono (List.subset_cons_self p rest) (List.Subset.refl _))
    · exact .inr ⟨t', hg', fun _ => hheld hheld₁, fun _ => .inl (hheld hheld₁)⟩
  · have hg₁ : b₁.docket.get? id = some t := by rw [hd, Docket.get?_receive_of_ne hi, hg]
    rcases hkept id t hg₁ with hclosed | ⟨t', hg', hheld, hall⟩
    · exact .inl (hclosed.mono (List.subset_cons_self p rest) (List.Subset.refl _))
    · refine .inr ⟨t', hg', hheld, fun hc => (hall hc).imp_right fun hnone => ?_⟩
      exact List.forall_mem_cons.mpr ⟨fun _ => hi, hnone⟩

theorem closed (h : Retains setup rest b₁ b' complete)
    (ha : p.isAddressedTo setup.siteName = true) (hp : p.type.closes = true)
    (hd : b₁.docket = b.docket.purge p.transactionId)
    (hc : b₁.situation.calls = b.situation.calls ++ [⟨.clear p.transactionId, .ok ()⟩]) :
    Retains setup (p :: rest) b b' complete := by
  obtain ⟨news, hnews, hkept⟩ := h
  refine ⟨⟨.clear p.transactionId, .ok ()⟩ :: news, by rw [hnews, hc]; simp, fun id t hg => ?_⟩
  by_cases hi : p.transactionId = id
  · subst hi
    exact .inl ⟨p, List.mem_cons_self, ha, hp, rfl, List.mem_cons_self⟩
  · have hg₁ : b₁.docket.get? id = some t := by rw [hd, Docket.get?_purge, if_neg hi, hg]
    rcases hkept id t hg₁ with hclosed | ⟨t', hg', hheld, hall⟩
    · exact .inl (hclosed.mono (List.subset_cons_self p rest) (List.subset_cons_self _ _))
    · refine .inr ⟨t', hg', hheld, fun hc => (hall hc).imp_right fun hnone => ?_⟩
      exact List.forall_mem_cons.mpr ⟨fun _ => hi, hnone⟩

end Retains

theorem retains_receiveAll (query : Instant) (packets : List Packet) (b : Broker σ) :
    Retains setup packets b (left (receiveAll setup query packets b))
      (Succeeds (receiveAll setup query packets b)) := by
  induction packets generalizing b with
  | nil =>
    refine ⟨[], (List.append_nil _).symm, fun id t hg => .inr ⟨t, hg, fun h => h, fun _ => ?_⟩⟩
    exact .inr fun p hp => absurd hp List.not_mem_nil
  | cons p rest ih =>
    rcases receiveAll_outcomes setup b query p rest with
      ⟨ha, h⟩ | ⟨ha, hp, h, hs⟩ | ⟨ha, hp, ⟨b', hdone, h, hs⟩ | ⟨e, b', hfailed, h⟩⟩ <;> rw [h]
    · exact (ih b).skip (by simp [ha])
    · rw [hs]
      exact (ih _).took hp rfl rfl
    · rw [hs]
      rcases complete_outcomes setup b p.transactionId with ⟨w, hc, hcalls⟩ | ⟨e, e', w, hc, -⟩ <;>
        rw [hc] at hdone <;> cases hdone
      exact (ih _).closed ha hp rfl hcalls
    · rcases complete_outcomes setup b p.transactionId with ⟨w, hc, -⟩ | ⟨e, e', w, hc, hcalls⟩ <;>
        rw [hc] at hfailed <;> cases hfailed
      refine ⟨_, hcalls, fun id t hg => .inr ⟨t, hg, fun h => h, fun hok => ?_⟩⟩
      exact absurd hok (not_succeeds_error _ _)

theorem live_loadTasks {b : Broker σ} {id : TransactionId} (h : b.Live id) (wait : Nat) :
    (left (loadTasks setup wait b)).Live id := by
  rcases loadTasks_outcomes setup b wait with ⟨tasks, w, n, hrun, -⟩ | ⟨e, e', w, hrun, -⟩ <;>
    rw [hrun]
  · exact Docket.live_putTasks h tasks
  · exact h

theorem live_servePackets {b : Broker σ} {id : TransactionId} (h : b.Live id) :
    (left (servePackets setup b)).Live id := by
  have hserve := Office.goes_serveAll setup.services setup.registry
    (Office.spares_serve_one setup.services setup.registry)
    (b.office.docket.jobsInOrder.map (·.transactionId)) b.office [] id h
  unfold servePackets Office.serve
  revert hserve
  cases Office.serveAll setup.services setup.registry b.office []
    (b.office.docket.jobsInOrder.map (·.transactionId)) <;> exact fun hserve => hserve

theorem live_settled {b : Broker σ} (hs : b.docket.Sound) {id : TransactionId} {t : Transaction}
    (hg : b.docket.get? id = some t) (ht : t.packet?.isSome = true) (query : Instant) :
    (b.withoutTaskOnly.settled query).Live id := by
  have hkept : id ∉ b.docket.taskOnly := by
    rw [hs.mem_taskOnly hg]
    intro hh
    rw [Transaction.packet?_isSome, hh] at ht
    cases ht
  rw [Live, docket_settled, Docket.refresh, Docket.get?_mapAll, Option.isSome_map,
    docket_withoutTaskOnly, Docket.get?_purgeAll, if_neg hkept, hg]
  rfl

/-- A transaction that a listing costs is closed by it, or was free and is not in it. -/
theorem lost_of_loadPackets (hr : setup.registry = Registry.catalog setup.services) {b : Broker σ}
    (hs : b.docket.Sound) :
    ∃ news, (left (loadPackets setup b)).situation.calls = b.situation.calls ++ news ∧
      ∀ id t, b.docket.get? id = some t → ¬ (left (loadPackets setup b)).Live id →
        ∃ since, ∃ packets : List Packet, ⟨.listPackets since, .ok packets⟩ ∈ news ∧
          (Closed setup.siteName packets news id ∨ t.held = none ∧
            Succeeds (loadPackets setup b) ∧
            ∀ p ∈ packets, p.isAddressedTo setup.siteName = true → p.transactionId ≠ id) := by
  rcases loadPackets_outcomes setup b with ⟨e, e', w, -, h, hc⟩ | ⟨packets, w, -, hc, hrun⟩
  · rw [h]
    refine ⟨_, hc, fun id t hg hgone => absurd ?_ hgone⟩
    rw [left_error, Live, docket_inWorld, hg]
    rfl
  · have hs' := (leads_of_carries hr (carries_receiveAll_of_listed setup hc) hs).sound hs
    obtain ⟨news, hnews, hkept⟩ := retains_receiveAll setup (reading setup b) packets (b.inWorld w)
    have hcalls :
        (left (receiveAll setup (reading setup b) packets (b.inWorld w))).situation.calls =
          b.situation.calls ++ ⟨.listPackets b.packetCursor, .ok packets⟩ :: news := by
      rw [hnews]
      show w.calls ++ news = _
      rw [hc, List.append_assoc]
      rfl
    rcases hrun with ⟨e, b', hr, h⟩ | ⟨n, b', hr, h⟩ <;> rw [hr] at hcalls hkept hs' <;> rw [h]
    -- The listing broke off, so the transactions that hold nothing are not looked at.
    · refine ⟨_, hcalls, fun id t hg hgone => ⟨_, packets, List.mem_cons_self, .inl ?_⟩⟩
      rcases hkept id t hg with hclosed | ⟨t', hg', -⟩
      · exact hclosed.mono (List.Subset.refl _) (List.subset_cons_self _ _)
      · exact absurd (Option.isSome_iff_exists.mpr ⟨t', hg'⟩) hgone
    · refine ⟨_, b'.calls_withoutTaskOnly.trans hcalls, fun id t hg hgone =>
        ⟨_, packets, List.mem_cons_self, ?_⟩⟩
      rcases hkept id t hg with hclosed | ⟨t', hg', hheld, hall⟩
      · exact .inl (hclosed.mono (List.Subset.refl _) (List.subset_cons_self _ _))
      · have hfree : ¬ t'.packet?.isSome = true := fun ht =>
          hgone (live_settled hs' hg' ht (reading setup b))
        refine .inr ⟨?_, ⟨n, _, rfl⟩, (hall ⟨n, b', rfl⟩).resolve_left hfree⟩
        rw [← Option.not_isSome_iff_eq_none, ← Transaction.packet?_isSome]
        exact fun h => hfree (hheld h)

/-- Whatever a broker was asked to do before: looking for tasks and working on jobs drop no
transaction. Listing packets drops one only if a packet closed it and its records were dropped, or
if all packets are taken in, none was for it, and it was never given one. Sending replies drops a
transaction exactly if its last packet was sent. -/
theorem drops_when_over {σ : Type} (siteName : String) (s : Services σ)
    (localWaits waits : WaitTimes) (folder : SnapshotFolder) (outside : σ)
    (commands : List Command) :
    let setup : Setup σ := ⟨siteName, s, Registry.catalog s, localWaits⟩
    let b := performAll setup (Broker.start waits folder { outside }) commands
    (∃ history, (Situation.start waits).Lawful history ∧
      (Situation.start waits).afterAll history = b.situation) ∧
    (∀ wait id, b.Live id → (left (loadTasks setup wait b)).Live id) ∧
    (∀ id, b.Live id → (left (servePackets setup b)).Live id) ∧
    (∃ news, (left (loadPackets setup b)).situation.calls = b.situation.calls ++ news ∧
      ∀ id, b.Live id → ¬ (left (loadPackets setup b)).Live id →
        ∃ since, ∃ packets : List Packet, ⟨.listPackets since, .ok packets⟩ ∈ news ∧
          (Closed siteName packets news id ∨
            (Succeeds (loadPackets setup b) ∧
            (∀ p ∈ packets, p.isAddressedTo siteName = true → p.transactionId ≠ id) ∧
            ∀ history, (Situation.start waits).afterAll history = b.situation →
              (Situation.start waits).NeverGives id history))) ∧
    ∃ news, (left (flush setup b)).situation.calls = b.situation.calls ++ news ∧
      ∀ id, (left (flush setup b)).Live id ↔ b.Live id ∧ ¬ SentLast news id := by
  intro setup b
  have hstart : (Situation.start waits).docket.Sound := Docket.sound_start waits
  have hleads : (Situation.start waits).Leads b.situation :=
    leads_performAll setup rfl (Broker.start waits folder { outside }) commands hstart
  obtain ⟨news, hnews, hlost⟩ := lost_of_loadPackets setup rfl (hleads.sound hstart)
  refine ⟨hleads, fun wait id h => live_loadTasks setup h wait,
    fun id h => live_servePackets setup h, ⟨news, hnews, fun id hlive hgone => ?_⟩,
    live_flush setup fun id r h => answerable_of_holds setup rfl h⟩
  obtain ⟨t, hg⟩ := Option.isSome_iff_exists.mp hlive
  obtain ⟨since, packets, hlisted, hclosed | ⟨hfree, hall, hnone⟩⟩ := hlost id t hg hgone
  · exact ⟨since, packets, hlisted, .inl hclosed⟩
  · refine ⟨since, packets, hlisted, .inr ⟨hall, hnone, fun history he => ?_⟩⟩
    have hg' : ((Situation.start waits).afterAll history).docket.get? id = some t := by
      rw [he]
      exact hg
    exact Situation.neverGives_of_free hg' hfree

end Broker

end SiteBroker
