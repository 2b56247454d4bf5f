import SiteBroker.Proofs.History
import SiteBroker.Proofs.Turn

/-! Errands: the steps, one packet or one job at a time, that a run of a broker is made of. -/

namespace SiteBroker

open Program

def Office.situation {σ : Type} (o : Office σ) : Situation := ⟨o.docket, o.world.calls⟩

namespace Broker

variable {σ : Type} (setup : Setup σ)

def situation (b : Broker σ) : Situation := b.office.situation

inductive Errand where
  | readClock
  | loadTasks (wait : Nat)
  | list
  /-- A packet of a listing that was asked for at a time is taken in. -/
  | take (query : Instant) (p : Packet)
  /-- A packet of a listing closes its transaction. -/
  | close (p : Packet)
  | dropTaskOnly
  | settle (query : Instant)
  /-- The job of a transaction is worked on. -/
  | attend (id : TransactionId)
  | flush
  | nextWait
  | sleep (seconds : Nat)

def carryOut (b : Broker σ) : Errand → Broker σ
  | .readClock => left (now setup b)
  | .loadTasks wait => left (loadTasks setup wait b)
  | .list => left (listing setup b)
  | .take query p => b.setDocket (b.docket.receive query p).1
  | .close p => left (complete setup p.transactionId b)
  | .dropTaskOnly => b.withoutTaskOnly
  | .settle query => b.settled query
  | .attend id =>
    { b with office := left (b.office.serveAll setup.services setup.registry [] [id]) }
  | .flush => left (flush setup b)
  | .nextWait => left (nextWait setup b)
  | .sleep seconds => left (sleep setup seconds b)

def carryOutAll (b : Broker σ) (errands : List Errand) : Broker σ :=
  errands.foldl (carryOut setup) b

/-- A packet for this site was listed. -/
def Heard (b : Broker σ) (p : Packet) : Prop :=
  b.situation.Listed p ∧ p.isAddressedTo setup.siteName = true

def IsReading (t : Instant) : Prop := ∃ o, (setup.services.environment.clock.read o).1 = t

/-- Only packets that were listed for this site are dealt with, and only at times that the clock
has shown. -/
def Fits (b : Broker σ) : Errand → Prop
  | .take query p => IsReading setup query ∧ Heard setup b p ∧ p.type.closes = false
  | .close p => Heard setup b p ∧ p.type.closes = true
  | .settle query => IsReading setup query
  | _ => True

def FitAll (b : Broker σ) : List Errand → Prop
  | [] => True
  | e :: errands => Fits setup b e ∧ FitAll (carryOut setup b e) errands

theorem carryOutAll_append (b : Broker σ) (errands errands' : List Errand) :
    carryOutAll setup b (errands ++ errands') =
      carryOutAll setup (carryOutAll setup b errands) errands' := List.foldl_append

theorem carryOutAll_concat (b : Broker σ) (errands : List Errand) (e : Errand) :
    carryOutAll setup b (errands ++ [e]) = carryOut setup (carryOutAll setup b errands) e :=
  carryOutAll_append setup b errands [e]

theorem fitAll_append {b : Broker σ} {errands errands' : List Errand} :
    FitAll setup b (errands ++ errands') ↔
      FitAll setup b errands ∧ FitAll setup (carryOutAll setup b errands) errands' := by
  induction errands generalizing b with
  | nil => simp [FitAll, carryOutAll]
  | cons e errands ih => simp [FitAll, carryOutAll, ih, and_assoc]

def Carries (b b' : Broker σ) : Prop :=
  ∃ errands, FitAll setup b errands ∧ carryOutAll setup b errands = b'

namespace Carries

variable {setup} {b b' b'' : Broker σ}

theorem trans (h : Carries setup b b') (h' : Carries setup b' b'') : Carries setup b b'' := by
  obtain ⟨errands, hfit, rfl⟩ := h
  obtain ⟨errands', hfit', rfl⟩ := h'
  exact ⟨errands ++ errands', (fitAll_append setup).mpr ⟨hfit, hfit'⟩,
    carryOutAll_append setup b errands errands'⟩

theorem of_errand {e : Errand} (h : Fits setup b e) : Carries setup b (carryOut setup b e) :=
  ⟨[e], ⟨h, trivial⟩, rfl⟩

end Carries

instance : IsPreorder (Broker σ) (Carries setup) where
  refl _ := ⟨[], trivial, rfl⟩
  trans _ _ _ := Carries.trans

theorem isReading_reading (b : Broker σ) : IsReading setup (reading setup b) := ⟨_, rfl⟩

theorem listed_mono {b b' : Broker σ} (h : b.calls ⊆ b'.calls) {p : Packet}
    (hp : b.situation.Listed p) : b'.situation.Listed p := by
  obtain ⟨since, packets, hx, hm⟩ := hp
  exact ⟨since, packets, h hx, hm⟩

theorem subset_calls_complete (id : TransactionId) (b : Broker σ) :
    b.calls ⊆ (left (complete setup id b)).calls := by
  rcases complete_outcomes setup b id with ⟨w, h, hc⟩ | ⟨e, e', w, h, hc⟩ <;>
    simp only [h, left_ok, left_error, calls_without, calls_inWorld, hc] <;>
    exact List.subset_append_left _ _

theorem carries_receiveAll {query : Instant} (hq : IsReading setup query) {packets : List Packet}
    {b : Broker σ} (hl : ∀ p ∈ packets, b.situation.Listed p) :
    Carries setup b (left (receiveAll setup query packets b)) := by
  induction packets generalizing b with
  | nil => exact refl_of (Carries setup) b
  | cons p rest ih =>
    obtain ⟨hp, hrest⟩ := List.forall_mem_cons.mp hl
    rcases receiveAll_outcomes setup b query p rest with
      ⟨-, h⟩ | ⟨ha, hc, h, -⟩ | ⟨ha, hc, ⟨b', hdone, h, -⟩ | ⟨e, b', hfailed, h⟩⟩ <;> rw [h]
    · exact ih hrest
    · have htook : Carries setup b (carryOut setup b (.take query p)) :=
        .of_errand ⟨hq, ⟨hp, ha⟩, hc⟩
      exact htook.trans (ih fun q hm => hrest q hm)
    · have hclosed : Carries setup b (carryOut setup b (.close p)) := .of_errand ⟨⟨hp, ha⟩, hc⟩
      have hcalls := subset_calls_complete setup p.transactionId b
      rw [carryOut, hdone] at hclosed
      rw [hdone] at hcalls
      exact hclosed.trans (ih fun q hm => listed_mono hcalls (hrest q hm))
    · have hclosed : Carries setup b (carryOut setup b (.close p)) := .of_errand ⟨⟨hp, ha⟩, hc⟩
      rwa [carryOut, hfailed] at hclosed

theorem carries_receiveAll_of_listed {b : Broker σ} {w : World σ} {packets : List Packet}
    (hc : w.calls = b.calls ++ [⟨.listPackets b.packetCursor, .ok packets⟩]) :
    Carries setup (b.inWorld w)
      (left (receiveAll setup (reading setup b) packets (b.inWorld w))) := by
  have hlisted : ⟨.listPackets b.packetCursor, .ok packets⟩ ∈ w.calls :=
    hc ▸ List.mem_concat_self
  exact carries_receiveAll setup (isReading_reading setup b) fun p hp =>
    ⟨b.packetCursor, packets, hlisted, hp⟩

theorem carries_loadPackets (b : Broker σ) : Carries setup b (left (loadPackets setup b)) := by
  have hlist : Carries setup b (carryOut setup b .list) := .of_errand trivial
  rw [carryOut] at hlist
  rcases loadPackets_outcomes setup b with ⟨e, e', w, hl, h, -⟩ | ⟨packets, w, hl, hc, hrun⟩ <;>
    rw [hl] at hlist
  · rwa [h]
  · have htook := carries_receiveAll_of_listed setup hc
    rcases hrun with ⟨e, b', hr, h⟩ | ⟨n, b', hr, h⟩ <;> rw [hr] at htook <;> rw [h]
    · exact hlist.trans htook
    · have hdropped : Carries setup b' (carryOut setup b' .dropTaskOnly) := .of_errand trivial
      have hsettled : Carries setup b'.withoutTaskOnly
          (carryOut setup b'.withoutTaskOnly (.settle (reading setup b))) :=
        .of_errand (isReading_reading setup b)
      exact hlist.trans (htook.trans (hdropped.trans hsettled))

def CarriesOffice (o o' : Office σ) : Prop :=
  ∀ b : Broker σ, Carries setup { b with office := o } { b with office := o' }

instance : IsPreorder (Office σ) (CarriesOffice setup) where
  refl _ _ := refl_of (Carries setup) _
  trans _ _ _ h h' b := (h b).trans (h' b)

theorem carries_servePackets (b : Broker σ) : Carries setup b (left (servePackets setup b)) := by
  have hone : ∀ id o, CarriesOffice setup o
      (left (Office.serveAll setup.services setup.registry o [] [id])) := fun id o b =>
    .of_errand (e := .attend id) trivial
  have h := Office.goes_serveAll setup.services setup.registry hone
    (b.office.docket.jobsInOrder.map (·.transactionId)) b.office [] b
  unfold servePackets Office.serve
  revert h
  cases Office.serveAll setup.services setup.registry b.office []
    (b.office.docket.jobsInOrder.map (·.transactionId)) <;> exact id

theorem upheld_carries : Upheld setup (Carries setup) where
  now _ := .of_errand (e := .readClock) trivial
  loadTasks wait _ := .of_errand (e := .loadTasks wait) trivial
  loadPackets := carries_loadPackets setup
  servePackets := carries_servePackets setup
  flush _ := .of_errand (e := .flush) trivial
  nextWait _ := .of_errand (e := .nextWait) trivial
  sleep seconds _ := .of_errand (e := .sleep seconds) trivial

/-- However commands end, what they did is a series of fitting errands. -/
theorem exists_errands (b : Broker σ) (commands : List Command) :
    ∃ errands, FitAll setup b errands ∧
      carryOutAll setup b errands = performAll setup b commands :=
  (upheld_carries setup).performAll b commands

theorem makes_sendAll (packets : List Packet) (b : Broker σ) :
    b.office.world.Makes (fun c => ∀ r, c = .sendPacket r → r ∈ packets)
      (left (sendAll setup packets b)).office.world := by
  induction packets generalizing b with
  | nil => exact .of_eq rfl
  | cons p rest ih =>
    have hsent : ∀ r, Call.sendPacket p = .sendPacket r → r ∈ p :: rest := by
      rintro _ ⟨⟩
      exact List.mem_cons_self
    rcases sendAll_outcomes setup b p rest with ⟨w, hc, h, -⟩ | ⟨e, e', w, h, hc⟩ <;> rw [h]
    · have hone : ((b.inWorld w).afterSending p).calls = _ := (calls_afterSending _ p).trans hc
      refine .trans (.of_call hone hsent) ((ih _).mono ?_)
      exact fun c hc r hr => List.mem_cons_of_mem p (hc r hr)
    · exact .of_call hc hsent

/-- Of the errands only one sends packets, and it sends replies that are due. -/
theorem makes_carryOut (hr : setup.registry = Registry.catalog setup.services) (b : Broker σ)
    (e : Errand) : b.office.world.Makes
      (fun c => ∀ r, c = .sendPacket r → r ∈ b.docket.due (reading setup b))
      (carryOut setup b e).office.world := by
  cases e with
  | readClock => exact .of_eq rfl
  | loadTasks wait =>
    rw [carryOut]
    rcases loadTasks_outcomes setup b wait with ⟨tasks, w, n, h, hc⟩ | ⟨e, e', w, h, hc⟩ <;>
      rw [h] <;> exact .of_call hc fun r he => by cases he
  | list =>
    rw [carryOut]
    rcases loadPackets_outcomes setup b with ⟨e, e', w, h, -, hc⟩ | ⟨packets, w, h, hc, -⟩ <;>
      rw [h] <;> exact .of_call hc fun r he => by cases he
  | take query p => exact .of_eq rfl
  | close p =>
    rw [carryOut]
    rcases complete_outcomes setup b p.transactionId with ⟨w, h, hc⟩ | ⟨e, e', w, h, hc⟩ <;>
      rw [h] <;> exact .of_call hc fun r he => by cases he
  | dropTaskOnly => exact .of_eq b.calls_withoutTaskOnly
  | settle query => exact .of_eq rfl
  | attend id =>
    have hwork := Office.works_serve_one setup.services id b.office
    rw [← hr] at hwork
    refine World.Makes.mono hwork fun c hc r he => ?_
    rw [he] at hc
    cases hc
  | flush =>
    obtain ⟨w, hc, h⟩ := flush_outcome setup b
    rw [carryOut, h]
    exact .trans (.of_eq hc) (makes_sendAll setup _ _)
  | nextWait => exact .of_eq rfl
  | sleep seconds => exact .of_eq (setup.services.calls_sleep (1000 * seconds) b.office.world)

theorem prefix_carryOut (hr : setup.registry = Registry.catalog setup.services)
    (b : Broker σ) (e : Errand) : b.calls <+: (carryOut setup b e).calls := by
  obtain ⟨news, hcalls, -⟩ := makes_carryOut setup hr b e
  exact ⟨news, hcalls.symm⟩

theorem prefix_carryOutAll (hr : setup.registry = Registry.catalog setup.services)
    (b : Broker σ) (errands : List Errand) : b.calls <+: (carryOutAll setup b errands).calls := by
  induction errands generalizing b with
  | nil => exact List.prefix_rfl
  | cons e errands ih => exact (prefix_carryOut setup hr b e).trans (ih _)

end Broker

end SiteBroker
