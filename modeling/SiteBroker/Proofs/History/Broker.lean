import SiteBroker.Proofs.Errand
import SiteBroker.Proofs.History.Desk
import SiteBroker.Startup

/-! The runs of a broker as histories: whatever is asked of it and however that ends, what it does
is a series of lawful deeds. -/

namespace SiteBroker

open Program

theorem Docket.Sound.transactionId_of_job? {d : Docket} (h : d.Sound) {id : TransactionId}
    {job : Job} (hj : d.job? id = some job) : job.transactionId = id := by
  obtain ⟨t, ht, hjob⟩ := get?_of_job? hj
  obtain ⟨hid, hs⟩ := h id t ht
  exact (hs.keyed (Transaction.packet?_of_job? hjob)).trans hid

namespace Office

variable {σ : Type}

theorem leads_attend (s : Services σ) (x : Desk σ) :
    Desk.Leads x (attend (Registry.catalog s) x).2 := by
  have h := Registry.goes_catalog s x.job.packet.type x
  unfold attend
  revert h
  cases (Registry.catalog s).work x.job.packet.type x with
  | ok outcome y => cases outcome <;> exact id
  | error e y => exact id

theorem leads_serve_one (s : Services σ) (id : TransactionId) {o : Office σ}
    (hs : o.docket.Sound) :
    o.situation.LeadsBy (·.drops = false)
      (left (o.serveAll s (Registry.catalog s) [] [id])).situation := by
  rcases o.serve_one_outcomes s (Registry.catalog s) id with
    ⟨-, h⟩ | ⟨job, answer, desk, hj, ha, hc, hd⟩
  · rw [h]
    exact .refl _ _
  · have hid := hs.transactionId_of_job? hj
    obtain ⟨-, hdesk⟩ := leads_attend s ⟨job, o.world⟩
    have hworked := hdesk o.docket hs (by rwa [hid])
    rw [ha] at hworked
    dsimp only at hworked
    rw [hid] at hworked
    rcases hd with ⟨-, hd⟩ | ⟨r, w, -, hd⟩
    · rwa [situation, situation, hd, hc]
    · exact hworked.trans
        (.of_silent_deed (e := .replied (s.clock.read w).1 r) trivial rfl rfl hd hc)

end Office

namespace Broker

variable {σ : Type} {b b' : Broker σ} (setup : Setup σ)

/-- One broker leads to another if its docket, being sound, does. -/
def Leads (b b' : Broker σ) : Prop := b.docket.Sound → b.situation.Leads b'.situation

theorem leads_of_eq (h : b'.situation = b.situation) : Leads b b' := fun _ => by
  rw [h]
  exact .refl _

instance : IsPreorder (Broker σ) Leads where
  refl _ := leads_of_eq rfl
  trans _ _ _ h h' hs := (h hs).trans (h' ((h hs).sound hs))

theorem leads_afterSending {p : Packet} {w : World σ}
    (hc : w.calls = b.calls ++ [⟨.sendPacket p, .ok ()⟩]) :
    b.situation.LeadsBy (·.opens = false) ((b.inWorld w).afterSending p).situation := by
  refine .of_deed (e := .called ⟨.sendPacket p, .ok ()⟩) trivial ?_ ?_ ?_
  · show (if p.expectsReply then [] else [.purge p.transactionId]).any Docket.Move.opens = false
    split <;> rfl
  · show _ = b.docket.performAll (if p.expectsReply then [] else [.purge p.transactionId])
    rw [afterSending]
    split <;> rfl
  · exact (calls_afterSending _ p).trans hc

theorem leads_sendAll (packets : List Packet) (b : Broker σ) :
    b.situation.LeadsBy (·.opens = false) (left (sendAll setup packets b)).situation := by
  induction packets generalizing b with
  | nil => exact .refl _ _
  | cons p rest ih =>
    rcases sendAll_outcomes setup b p rest with ⟨w, hc, h, -⟩ | ⟨e, e', w, h, hc⟩ <;> rw [h]
    · exact (leads_afterSending hc).trans (ih _)
    · exact .of_deed (e := .called ⟨.sendPacket p, .error e'⟩) trivial rfl rfl hc

section

variable {setup} (hr : setup.registry = Registry.catalog setup.services)

include hr

/-- An errand that fits is a series of lawful deeds. It drops transactions or brings in new ones,
and does not do both. -/
theorem exists_deeds {e : Errand} (hs : b.docket.Sound) (hfit : Fits setup b e) :
    b.situation.LeadsBy (·.drops = false) (carryOut setup b e).situation ∨
      b.situation.LeadsBy (·.opens = false) (carryOut setup b e).situation := by
  cases e with
  | readClock => exact .inl (.refl _ _)
  | loadTasks wait =>
    rw [carryOut]
    rcases loadTasks_outcomes setup b wait with ⟨tasks, w, n, h, hc⟩ | ⟨e, e', w, h, hc⟩ <;> rw [h]
    · exact .inl (.of_deed (e := .called ⟨.getTasks _ _ _, .ok tasks⟩) trivial rfl rfl hc)
    · exact .inl (.of_deed (e := .called ⟨.getTasks _ _ _, .error e'⟩) trivial rfl rfl hc)
  | list =>
    rw [carryOut]
    rcases loadPackets_outcomes setup b with ⟨e, e', w, h, -, hc⟩ | ⟨packets, w, h, hc, -⟩ <;>
      rw [h]
    · exact .inl (.of_deed (e := .called ⟨.listPackets _, .error e'⟩) trivial rfl rfl hc)
    · exact .inl (.of_deed (e := .called ⟨.listPackets _, .ok packets⟩) trivial rfl rfl hc)
  | take query p =>
    obtain ⟨-, ⟨hlisted, -⟩, -⟩ := hfit
    exact .inl (.of_silent_deed (e := .took query p) hlisted rfl rfl rfl rfl)
  | close p =>
    obtain ⟨⟨hlisted, -⟩, hcloses⟩ := hfit
    rw [carryOut]
    rcases complete_outcomes setup b p.transactionId with ⟨w, h, hc⟩ | ⟨e, e', w, h, hc⟩ <;> rw [h]
    · exact .inr (.of_deed (e := .closed p (.ok ())) ⟨hlisted, hcloses⟩ rfl rfl hc)
    · exact .inr (.of_deed (e := .closed p (.error e')) ⟨hlisted, hcloses⟩ rfl rfl hc)
  | dropTaskOnly =>
    exact .inr (.of_silent_deed (e := .droppedTaskOnly) trivial rfl rfl b.docket_withoutTaskOnly
      b.calls_withoutTaskOnly)
  | settle query => exact .inl (.of_silent_deed (e := .refreshed query) trivial rfl rfl rfl rfl)
  | attend id =>
    have hserved := Office.leads_serve_one setup.services id hs
    rw [← hr] at hserved
    exact .inl hserved
  | flush =>
    obtain ⟨w, hc, h⟩ := flush_outcome setup b
    have hcollected : b.situation.LeadsBy (·.opens = false)
        ((b.inWorld w).setDocket (b.docket.afterDue (reading setup b))).situation :=
      .of_silent_deed (e := .collected (reading setup b)) trivial rfl rfl rfl hc
    rw [carryOut, h]
    exact .inr (hcollected.trans (leads_sendAll setup _ _))
  | nextWait => exact .inl (.refl _ _)
  | sleep seconds =>
    have hslept : (carryOut setup b (.sleep seconds)).situation = b.situation :=
      congrArg (Situation.mk b.docket)
        (setup.services.calls_sleep (1000 * seconds) b.office.world)
    rw [hslept]
    exact .inl (.refl _ _)

theorem leads_carryOut {e : Errand} (hfit : Fits setup b e) : Leads b (carryOut setup b e) :=
  fun hs => (exists_deeds hr hs hfit).elim (·.leads) (·.leads)

theorem leads_of_carries (h : Carries setup b b') : Leads b b' := by
  obtain ⟨errands, hfit, rfl⟩ := h
  induction errands generalizing b with
  | nil => exact refl_of Leads b
  | cons e errands ih => exact trans_of Leads (leads_carryOut hr hfit.1) (ih hfit.2)

end

theorem leads_performAll (hr : setup.registry = Registry.catalog setup.services) (b : Broker σ)
    (commands : List Command) : Leads b (performAll setup b commands) :=
  leads_of_carries hr (exists_errands setup b commands)

end Broker

end SiteBroker
