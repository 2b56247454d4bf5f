import SiteBroker.Proofs.Instant
import SiteBroker.Proofs.Ledger
import SiteBroker.Proofs.Split
import SiteBroker.Proofs.Turn
import SiteBroker.Startup

/-! Polling. Each side is asked for what changed since it was last heard in full, so that no update
is passed over, wherever an error broke off a listing or a cycle. -/

namespace SiteBroker

open Program

/-- A call that asks a side for news. -/
def Call.isPoll : Call → Bool
  | getTasks .. | listPackets _ => true
  | clear _ | lookup _ | submit _ | sendPacket _ => false

theorem Call.isPoll_of_isWork {c : Call} (h : c.isWork = true) : c.isPoll = false := by
  cases c <;> first | rfl | cases h

def Exchange.tasks : Exchange → List TaskRecord
  | ⟨.getTasks .., .ok tasks⟩ => tasks
  | _ => []

theorem Exchange.tasks_ok (active : Bool) (wait : Nat) (since : Option Instant)
    (tasks : List TaskRecord) :
    Exchange.tasks ⟨.getTasks active wait since, .ok tasks⟩ = tasks := rfl

theorem Exchange.tasks_error (c : Call) (e : ServiceError) :
    Exchange.tasks ⟨c, .error e⟩ = [] := by
  cases c <;> rfl

theorem Exchange.tasks_of_not_poll {x : Exchange} (h : x.call.isPoll = false) : x.tasks = [] := by
  obtain ⟨c, outcome⟩ := x
  cases c <;> first | rfl | cases h

def newestTask (calls : List Exchange) : Option Instant :=
  ((calls.flatMap (·.tasks)).map (·.timestamp)).max?

namespace Broker

variable {σ : Type}

theorem later?_max? (l l' : List Instant) : later? l.max? l'.max? = (l ++ l').max? := by
  cases h : l.max? with
  | none =>
    rw [List.max?_eq_none_iff.mp h, List.nil_append]
    cases l'.max? <;> rfl
  | some a =>
    cases h' : l'.max? with
    | none => rw [List.max?_eq_none_iff.mp h', List.append_nil, h]; rfl
    | some b =>
      obtain ⟨ha, hle⟩ := List.max?_eq_some_iff.mp h
      obtain ⟨hb, hle'⟩ := List.max?_eq_some_iff.mp h'
      obtain ⟨hmax, hmax'⟩ := Std.max_le_iff.mp (Instant.le_refl (max a b))
      refine (List.max?_eq_some_iff.mpr ⟨?_, fun x hx => ?_⟩).symm
      · rcases Std.max_eq_or (a := a) (b := b) with he | he <;> rw [he] <;> simp [ha, hb]
      · rcases List.mem_append.mp hx with hx | hx
        · exact Instant.le_trans (hle x hx) hmax
        · exact Instant.le_trans (hle' x hx) hmax'

theorem later?_none (t : Option Instant) : later? t none = t := by
  cases t <;> rfl

theorem newestTask_append (calls calls' : List Exchange) :
    newestTask (calls ++ calls') = later? (newestTask calls) (newestTask calls') := by
  rw [newestTask, newestTask, newestTask, later?_max?, List.flatMap_append, List.map_append]

theorem newestTask_of_no_tasks {calls : List Exchange} (h : ∀ x ∈ calls, x.tasks = []) :
    newestTask calls = none := by
  rw [newestTask, List.flatMap_eq_nil_iff.mpr h]
  rfl

variable {b b' : Broker σ} (setup : Setup σ)

/-- Between the one broker and the other neither side was asked for news. -/
structure Unpolled (b b' : Broker σ) : Prop where
  calls : b.office.world.Makes (·.isPoll = false) b'.office.world
  taskCursor : b'.taskCursor = b.taskCursor
  packetCursor : b'.packetCursor = b.packetCursor

namespace Unpolled

theorem of_calls_eq (hc : b'.calls = b.calls) (ht : b'.taskCursor = b.taskCursor)
    (hp : b'.packetCursor = b.packetCursor) : Unpolled b b' := ⟨.of_eq hc, ht, hp⟩

theorem of_call {x : Exchange} (hc : b'.calls = b.calls ++ [x]) (hx : x.call.isPoll = false)
    (ht : b'.taskCursor = b.taskCursor) (hp : b'.packetCursor = b.packetCursor) :
    Unpolled b b' := ⟨.of_call hc hx, ht, hp⟩

instance : IsPreorder (Broker σ) Unpolled where
  refl _ := of_calls_eq rfl rfl rfl
  trans _ _ _ h h' := ⟨h.calls.trans h'.calls, h'.taskCursor.trans h.taskCursor,
    h'.packetCursor.trans h.packetCursor⟩

end Unpolled

theorem unpolled_complete (id : TransactionId) : Goes Unpolled (complete setup id) := by
  intro b
  rcases complete_outcomes setup b id with ⟨w, h, hc⟩ | ⟨e, e', w, h, hc⟩ <;> rw [h] <;>
    exact .of_call hc rfl rfl rfl

theorem unpolled_sendAll (packets : List Packet) : Goes Unpolled (sendAll setup packets) := by
  induction packets with
  | nil => exact .pure _
  | cons p rest ih =>
    intro b
    rcases sendAll_outcomes setup b p rest with ⟨w, hc, h, -⟩ | ⟨e, e', w, h, hc⟩ <;> rw [h]
    · have hcalls : ((b.inWorld w).afterSending p).calls = _ := (calls_afterSending _ p).trans hc
      refine trans_of Unpolled (.of_call hcalls rfl ?_ ?_) (ih _) <;>
        unfold afterSending <;> split <;> rfl
    · exact .of_call hc rfl rfl rfl

theorem unpolled_flush : Goes Unpolled (flush setup) := by
  intro b
  obtain ⟨w, hc, h⟩ := flush_outcome setup b
  rw [h]
  have hcollected : Unpolled b ((b.inWorld w).setDocket (b.docket.afterDue (reading setup b))) :=
    .of_calls_eq hc rfl rfl
  exact trans_of Unpolled hcollected (unpolled_sendAll setup _ _)

theorem unpolled_servePackets (hr : setup.registry = Registry.catalog setup.services) :
    Goes Unpolled (servePackets setup) := by
  intro b
  have h := Office.works_serveAll setup.services
    (b.office.docket.jobsInOrder.map (·.transactionId)) b.office []
  rw [← hr] at h
  have hcalls := World.Makes.mono h fun _ => Call.isPoll_of_isWork
  unfold servePackets Office.serve
  revert hcalls
  cases Office.serveAll setup.services setup.registry b.office []
    (b.office.docket.jobsInOrder.map (·.transactionId)) <;> exact fun hcalls => ⟨hcalls, rfl, rfl⟩

theorem unpolled_sleep (seconds : Nat) : Goes Unpolled (sleep setup seconds) := fun b =>
  .of_calls_eq (setup.services.calls_sleep (1000 * seconds) b.office.world) rfl rfl

/-- The calls that it takes to take in some packets: each transaction that they close is dropped
from the records of the local service. -/
def closings (siteName : String) (packets : List Packet) : List Exchange :=
  (packets.filter fun p => p.isAddressedTo siteName && p.type.closes).map fun p =>
    ⟨.clear p.transactionId, .ok ()⟩

/-- A broker that lists packets now is given some, and takes in all of them. -/
def ListsAll (b : Broker σ) : Prop :=
  ∃ since, ∃ packets : List Packet, (turn setup b .loadPackets).calls =
    b.calls ++ ⟨.listPackets since, .ok packets⟩ :: closings setup.siteName packets

/-- None of the listings among some turns was taken in completely. -/
def NeverListsAll (b : Broker σ) (turns : List Turn) : Prop :=
  ∀ before after, turns = before ++ .loadPackets :: after →
    ¬ ListsAll setup (turnAll setup b before)

/-- The time at which the last listing was started that was taken in completely. -/
def LastListing (b : Broker σ) (turns : List Turn) : Option Instant → Prop
  | none => NeverListsAll setup b turns
  | some query => ∃ before after, turns = before ++ .loadPackets :: after ∧
      ListsAll setup (turnAll setup b before) ∧ query = reading setup (turnAll setup b before) ∧
      NeverListsAll setup (turnAll setup b (before ++ [.loadPackets])) after

theorem closings_cons_of_closes {siteName : String} {p : Packet} {packets : List Packet}
    (ha : p.isAddressedTo siteName = true) (hp : p.type.closes = true) :
    closings siteName (p :: packets) =
      ⟨.clear p.transactionId, .ok ()⟩ :: closings siteName packets := by
  simp [closings, ha, hp]

theorem closings_cons_of_open {siteName : String} {p : Packet} {packets : List Packet}
    (h : (p.isAddressedTo siteName && p.type.closes) = false) :
    closings siteName (p :: packets) = closings siteName packets := by
  simp [closings, h]

/-- Packets are taken in one after the other until the records of a transaction cannot be
dropped. -/
theorem calls_receiveAll (query : Instant) (packets : List Packet) (b : Broker σ) :
    Unpolled b (left (receiveAll setup query packets b)) ∧
    ∃ clears, (left (receiveAll setup query packets b)).calls = b.calls ++ clears ∧
      (Succeeds (receiveAll setup query packets b) ↔
        clears = closings setup.siteName packets) := by
  induction packets generalizing b with
  | nil =>
    refine ⟨refl_of Unpolled b, [], (List.append_nil _).symm, ?_⟩
    exact ⟨fun _ => rfl, fun _ => ⟨0, b, rfl⟩⟩
  | cons p rest ih =>
    rcases receiveAll_outcomes setup b query p rest with
      ⟨ha, h⟩ | ⟨-, hp, h, hs⟩ | ⟨ha, hp, ⟨b', hdone, h, hs⟩ | ⟨e, b', hfailed, h⟩⟩ <;> rw [h]
    · rw [closings_cons_of_open (by simp [ha])]
      exact ih b
    · rw [closings_cons_of_open (by simp [hp]), hs]
      have htook : Unpolled b (b.setDocket (b.docket.receive query p).1) := .of_calls_eq rfl rfl rfl
      obtain ⟨hunpolled, hrest⟩ := ih (b.setDocket (b.docket.receive query p).1)
      exact ⟨trans_of Unpolled htook hunpolled, hrest⟩
    · have hone := unpolled_complete setup p.transactionId b
      rcases complete_outcomes setup b p.transactionId with ⟨w, hc, hcalls⟩ | ⟨e, e', w, hc, -⟩ <;>
        rw [hc] at hdone <;> cases hdone
      rw [hc] at hone
      obtain ⟨hunpolled, clears, hclears, hiff⟩ := ih ((b.inWorld w).without p.transactionId)
      refine ⟨trans_of Unpolled hone hunpolled, ⟨.clear p.transactionId, .ok ()⟩ :: clears, ?_, ?_⟩
      · rw [hclears, calls_without, calls_inWorld, hcalls, List.append_assoc]
        rfl
      · rw [hs, hiff, closings_cons_of_closes ha hp]
        exact ⟨fun h => by rw [h], fun h => (List.cons.inj h).2⟩
    · have hone := unpolled_complete setup p.transactionId b
      rcases complete_outcomes setup b p.transactionId with ⟨w, hc, -⟩ | ⟨e, e', w, hc, hcalls⟩ <;>
        rw [hc] at hfailed <;> cases hfailed
      rw [hc] at hone
      refine ⟨hone, [_], hcalls, ?_⟩
      rw [closings_cons_of_closes ha hp]
      refine ⟨fun hok => absurd hok (not_succeeds_error _ _), fun he => ?_⟩
      cases (List.cons.inj he).1

theorem listsAll_iff {since : Option Instant} {packets : List Packet} {clears : List Exchange}
    (h : (turn setup b .loadPackets).calls =
      b.calls ++ ⟨.listPackets since, .ok packets⟩ :: clears) :
    ListsAll setup b ↔ clears = closings setup.siteName packets := by
  constructor
  · rintro ⟨since', packets', hall⟩
    obtain ⟨hx, hclears⟩ := List.cons.inj (List.append_cancel_left (h.symm.trans hall))
    cases hx
    exact hclears
  · rintro rfl
    exact ⟨since, packets, h⟩

/-- A listing asks for what changed since the last one that was taken in completely. If it is taken
in completely itself, the next one goes on from the time at which it was started. -/
theorem loadPackets_polls (b : Broker σ) :
    ∃ outcome clears, (turn setup b .loadPackets).calls =
        b.calls ++ ⟨.listPackets b.packetCursor, outcome⟩ :: clears ∧
      (∀ x ∈ clears, x.call.isPoll = false) ∧
      (turn setup b .loadPackets).taskCursor = b.taskCursor ∧
      ((ListsAll setup b ∧ (turn setup b .loadPackets).packetCursor = some (reading setup b)) ∨
        (¬ ListsAll setup b ∧ (turn setup b .loadPackets).packetCursor = b.packetCursor)) := by
  rcases loadPackets_outcomes setup b with ⟨e, e', w, -, h, hc⟩ | ⟨packets, w, -, hc, hrun⟩
  · have hturn : turn setup b .loadPackets = b.inWorld w := by rw [turn, h, left_error]
    refine ⟨.error e', [], by rw [hturn]; exact hc, by simp, by rw [hturn]; rfl, .inr ⟨?_, ?_⟩⟩
    · rintro ⟨since, packets, hall⟩
      rw [hturn] at hall
      cases (List.cons.inj (List.append_cancel_left (hc.symm.trans hall))).1
    · rw [hturn]
      rfl
  · obtain ⟨hunpolled, clears, hclears, hiff⟩ :=
      calls_receiveAll setup (reading setup b) packets (b.inWorld w)
    have hcalls : (left (receiveAll setup (reading setup b) packets (b.inWorld w))).calls =
        b.calls ++ ⟨.listPackets b.packetCursor, .ok packets⟩ :: clears := by
      rw [hclears, calls_inWorld, hc, List.append_assoc]
      rfl
    obtain ⟨news, hnews, hpoll⟩ := hunpolled.calls
    obtain rfl : clears = news := List.append_cancel_left (hclears.symm.trans hnews)
    rcases hrun with ⟨e, b', hr, h⟩ | ⟨n, b', hr, h⟩ <;> rw [hr] at hcalls hunpolled hiff
    · have hturn : turn setup b .loadPackets = b' := by rw [turn, h, left_error]
      rw [hturn]
      refine ⟨.ok packets, clears, hcalls, hpoll, hunpolled.taskCursor, .inr ⟨?_, ?_⟩⟩
      · rw [listsAll_iff setup ((congrArg calls hturn).trans hcalls), ← hiff]
        exact not_succeeds_error _ _
      · exact hunpolled.packetCursor
    · have hturn : turn setup b .loadPackets = b'.withoutTaskOnly.settled (reading setup b) := by
        rw [turn, h, left_ok]
      rw [hturn]
      have hcalls' : (b'.withoutTaskOnly.settled (reading setup b)).calls = b'.calls :=
        b'.calls_withoutTaskOnly
      refine ⟨.ok packets, clears, hcalls'.trans hcalls, hpoll, hunpolled.taskCursor,
        .inl ⟨?_, rfl⟩⟩
      rw [listsAll_iff setup ((congrArg calls hturn).trans (hcalls'.trans hcalls)), ← hiff]
      exact ⟨n, b', rfl⟩

theorem loadTasks_polls (wait : Nat) (b : Broker σ) :
    ∃ outcome, (turn setup b (.loadTasks wait)).calls =
        b.calls ++ [⟨.getTasks b.taskCursor.isNone wait b.taskCursor, outcome⟩] ∧
      (turn setup b (.loadTasks wait)).docket = (b.docket.putTasks
        (Exchange.tasks ⟨.getTasks b.taskCursor.isNone wait b.taskCursor, outcome⟩)).1 ∧
      (turn setup b (.loadTasks wait)).taskCursor = later? b.taskCursor
        (newestTask [⟨.getTasks b.taskCursor.isNone wait b.taskCursor, outcome⟩]) ∧
      (turn setup b (.loadTasks wait)).packetCursor = b.packetCursor := by
  have hturn : turn setup b (.loadTasks wait) = left (loadTasks setup wait b) := rfl
  rw [hturn]
  rcases loadTasks_outcomes setup b wait with ⟨tasks, w, n, h, hc⟩ | ⟨e, e', w, h, hc⟩ <;> rw [h]
  · refine ⟨.ok tasks, hc, ?_, ?_, rfl⟩
    · rw [Exchange.tasks_ok]
      rfl
    · rw [newestTask, List.flatMap_singleton, Exchange.tasks_ok]
      rfl
  · refine ⟨.error e', hc, ?_, ?_, rfl⟩
    · rw [Exchange.tasks_error]
      rfl
    · rw [newestTask, List.flatMap_singleton, Exchange.tasks_error]
      exact (later?_none _).symm

theorem unpolled_turn (hr : setup.registry = Registry.catalog setup.services) {t : Turn}
    (hl : t ≠ .loadPackets) (ht : ∀ wait, t ≠ .loadTasks wait) (b : Broker σ) :
    Unpolled b (turn setup b t) := by
  cases t with
  | readClock => exact .of_calls_eq rfl rfl rfl
  | loadTasks wait => exact absurd rfl (ht wait)
  | loadPackets => exact absurd rfl hl
  | servePackets => exact unpolled_servePackets setup hr b
  | flush => exact unpolled_flush setup b
  | nextWait => exact .of_calls_eq rfl rfl rfl
  | sleep seconds => exact unpolled_sleep setup seconds b

theorem NeverListsAll.concat {turns : List Turn} {t : Turn} (h : NeverListsAll setup b turns)
    (ht : t = .loadPackets → ¬ ListsAll setup (turnAll setup b turns)) :
    NeverListsAll setup b (turns ++ [t]) := by
  intro before after he
  rcases split_concat he with ⟨rfl, hlast⟩ | ⟨rest, hrest⟩
  · exact ht hlast.symm
  · exact h before rest hrest

theorem LastListing.concat {turns : List Turn} {t : Turn} {since : Option Instant}
    (h : LastListing setup b turns since)
    (ht : t = .loadPackets → ¬ ListsAll setup (turnAll setup b turns)) :
    LastListing setup b (turns ++ [t]) since := by
  cases since with
  | none => exact NeverListsAll.concat setup h ht
  | some query =>
    obtain ⟨before, after, rfl, hall, hquery, hnever⟩ := h
    refine ⟨before, after ++ [t], by simp, hall, hquery, NeverListsAll.concat setup hnever ?_⟩
    rwa [← turnAll_append, List.append_assoc]

theorem lastListing_concat {turns : List Turn} (h : ListsAll setup (turnAll setup b turns)) :
    LastListing setup b (turns ++ [.loadPackets]) (some (reading setup (turnAll setup b turns))) :=
  ⟨turns, [], rfl, h, rfl, fun before after he => by simp at he⟩

section

variable (hr : setup.registry = Registry.catalog setup.services)

include hr

/-- The cursors of a broker tell what it has been told since it started. -/
theorem cursors_turnAll (hb : b.calls = []) (ht : b.taskCursor = none) (hp : b.packetCursor = none)
    (turns : List Turn) :
    (turnAll setup b turns).taskCursor = newestTask (turnAll setup b turns).calls ∧
      LastListing setup b turns (turnAll setup b turns).packetCursor := by
  induction turns using List.reverseRecOn with
  | nil =>
    refine ⟨by rw [turnAll, List.foldl_nil, hb, ht]; rfl, ?_⟩
    rw [turnAll, List.foldl_nil, hp]
    exact fun before after he => by simp at he
  | append_singleton turns t ih =>
    obtain ⟨htask, hlast⟩ := ih
    rw [turnAll_concat]
    by_cases hl : t = .loadPackets
    · subst hl
      obtain ⟨outcome, clears, hcalls, hclears, htask', hlist⟩ :=
        loadPackets_polls setup (turnAll setup b turns)
      refine ⟨?_, ?_⟩
      · have hnone : newestTask (⟨.listPackets _, outcome⟩ :: clears) = none :=
          newestTask_of_no_tasks (List.forall_mem_cons.mpr
            ⟨rfl, fun x hx => Exchange.tasks_of_not_poll (hclears x hx)⟩)
        rw [htask', htask, hcalls, newestTask_append, hnone, later?_none]
      · rcases hlist with ⟨hall, hcursor⟩ | ⟨hnot, hcursor⟩ <;> rw [hcursor]
        · exact lastListing_concat setup hall
        · exact hlast.concat setup fun _ => hnot
    · by_cases htasks : ∃ wait, t = .loadTasks wait
      · obtain ⟨wait, rfl⟩ := htasks
        obtain ⟨outcome, hcalls, -, htask', hcursor⟩ :=
          loadTasks_polls setup wait (turnAll setup b turns)
        refine ⟨by rw [htask', hcalls, newestTask_append, htask], ?_⟩
        rw [hcursor]
        exact hlast.concat setup fun h => absurd h hl
      · have hun := unpolled_turn setup hr hl (not_exists.mp htasks) (turnAll setup b turns)
        obtain ⟨news, hcalls, hnews⟩ := hun.calls
        have hcalls : (turn setup (turnAll setup b turns) t).calls = _ ++ news := hcalls
        refine ⟨?_, ?_⟩
        · have hnone := newestTask_of_no_tasks fun x hx => Exchange.tasks_of_not_poll (hnews x hx)
          rw [hun.taskCursor, htask, hcalls, newestTask_append, hnone, later?_none]
          rfl
        · rw [hun.packetCursor]
          exact hlast.concat setup fun h => absurd h hl

theorem prefix_turn (b : Broker σ) (t : Turn) : b.calls <+: (turn setup b t).calls := by
  by_cases hl : t = .loadPackets
  · subst hl
    obtain ⟨outcome, clears, hcalls, -⟩ := loadPackets_polls setup b
    exact ⟨_, hcalls.symm⟩
  · by_cases htasks : ∃ wait, t = .loadTasks wait
    · obtain ⟨wait, rfl⟩ := htasks
      obtain ⟨outcome, hcalls, -⟩ := loadTasks_polls setup wait b
      exact ⟨_, hcalls.symm⟩
    · obtain ⟨news, hcalls, -⟩ := (unpolled_turn setup hr hl (not_exists.mp htasks) b).calls
      exact ⟨news, hcalls.symm⟩

/-- A side is asked for news at a turn of its own, before any other call of that turn. -/
theorem exists_turn_of_poll (hb : b.calls = []) {turns : List Turn} {front rest : List Exchange}
    {x : Exchange} (h : (turnAll setup b turns).calls = front ++ x :: rest)
    (hx : x.call.isPoll = true) :
    ∃ before t after, turns = before ++ t :: after ∧ (turnAll setup b before).calls = front ∧
      ((t = .loadPackets ∧ ∃ outcome,
          x = ⟨.listPackets (turnAll setup b before).packetCursor, outcome⟩) ∨
        ∃ wait outcome, t = .loadTasks wait ∧
          x = ⟨.getTasks (turnAll setup b before).taskCursor.isNone wait
            (turnAll setup b before).taskCursor, outcome⟩ ∧
          (turnAll setup b (before ++ [t])).docket =
            ((turnAll setup b before).docket.putTasks x.tasks).1) := by
  obtain ⟨before, t, after, mid, rest', hturns, hfront, hstep⟩ :=
    exists_step_of_logged (prefix_turn setup hr) hb h
  change front = (turnAll setup b before).calls ++ mid at hfront
  change (turn setup (turnAll setup b before) t).calls =
    (turnAll setup b before).calls ++ (mid ++ x :: rest') at hstep
  -- The other calls of a turn are no polls, so the poll is the first of them.
  have hnot : ∀ {calls : List Exchange}, (∀ y ∈ calls, y.call.isPoll = false) → x ∉ calls :=
    fun hcalls hm => by simp [hcalls x hm] at hx
  refine ⟨before, t, after, hturns, ?_⟩
  by_cases hl : t = .loadPackets
  · subst hl
    obtain ⟨outcome, clears, hcalls, hclears, -⟩ := loadPackets_polls setup (turnAll setup b before)
    have he := List.append_cancel_left (hcalls.symm.trans hstep)
    cases mid with
    | nil =>
      obtain ⟨rfl, -⟩ := List.cons.inj he
      exact ⟨by rw [hfront, List.append_nil], .inl ⟨rfl, outcome, rfl⟩⟩
    | cons y mid =>
      obtain ⟨-, rfl⟩ := List.cons.inj he
      exact absurd (by simp) (hnot hclears)
  · by_cases htasks : ∃ wait, t = .loadTasks wait
    · obtain ⟨wait, rfl⟩ := htasks
      obtain ⟨outcome, hcalls, hdocket, -⟩ := loadTasks_polls setup wait (turnAll setup b before)
      have he := List.append_cancel_left (hcalls.symm.trans hstep)
      obtain ⟨rfl, hone⟩ := List.append_eq_singleton_iff.mp he.symm |>.resolve_right (by simp)
      obtain ⟨rfl, -⟩ := List.cons.inj hone
      refine ⟨by rw [hfront, List.append_nil], .inr ⟨wait, outcome, rfl, rfl, ?_⟩⟩
      rw [turnAll_concat]
      exact hdocket
    · obtain ⟨news, hcalls, hnews⟩ :=
        (unpolled_turn setup hr hl (not_exists.mp htasks) (turnAll setup b before)).calls
      have he : news = mid ++ x :: rest' :=
        List.append_cancel_left (hcalls.symm.trans hstep)
      exact absurd (by simp [he]) (hnot hnews)

end

/-- Whatever a broker is asked to do, and however the services answer: each listing asks for the
packets that changed since the last listing was started of which every packet was taken in, and for
all packets if there was none. Tasks are asked for that changed since the newest of those that came
before, all of which were entered in the docket at once; as long as none came, those that are active
are asked for. -/
theorem polls_go_on (siteName : String) (s : Services σ) (localWaits waits : WaitTimes)
    (folder : SnapshotFolder) (outside : σ) :
    let setup : Setup σ := ⟨siteName, s, Registry.catalog s, localWaits⟩
    let start := Broker.start waits folder { outside }
    (∀ commands, ∃ turns, turnAll setup start turns = performAll setup start commands) ∧
    ∀ turns front rest,
      (∀ since outcome,
        (turnAll setup start turns).calls = front ++ ⟨.listPackets since, outcome⟩ :: rest →
        ∃ before after, turns = before ++ .loadPackets :: after ∧
          (turnAll setup start before).calls = front ∧ LastListing setup start before since) ∧
      ∀ active wait since outcome,
        (turnAll setup start turns).calls =
          front ++ ⟨.getTasks active wait since, outcome⟩ :: rest →
        since = newestTask front ∧ active = since.isNone ∧
        ∃ before after, turns = before ++ .loadTasks wait :: after ∧
          (turnAll setup start before).calls = front ∧
          (turnAll setup start (before ++ [.loadTasks wait])).docket.ledger =
            (Exchange.tasks ⟨.getTasks active wait since, outcome⟩).foldl (fun l t => l.put t.id t)
              (turnAll setup start before).docket.ledger := by
  intro setup start
  refine ⟨exists_turns setup start, fun turns front rest => ⟨fun since outcome h => ?_,
    fun active wait since outcome h => ?_⟩⟩
  · obtain ⟨before, t, after, hturns, hfront, ⟨rfl, outcome', hx⟩ | ⟨wait, outcome', -, hx, -⟩⟩ :=
      exists_turn_of_poll setup rfl (b := start) rfl h rfl <;> cases hx
    exact ⟨before, after, hturns, hfront, (cursors_turnAll setup rfl rfl rfl rfl before).2⟩
  · obtain ⟨before, t, after, hturns, hfront,
        ⟨rfl, outcome', hx⟩ | ⟨wait', outcome', rfl, hx, hdocket⟩⟩ :=
      exists_turn_of_poll setup rfl (b := start) rfl h rfl <;> cases hx
    refine ⟨?_, rfl, before, after, hturns, hfront, ?_⟩
    · rw [← hfront]
      exact (cursors_turnAll setup rfl rfl rfl rfl before).1
    · rw [hdocket, Docket.ledger_putTasks]

end Broker

end SiteBroker
