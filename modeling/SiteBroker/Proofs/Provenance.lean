import SiteBroker.Proofs.Answers

/-! Where packets that are sent come from: each of them is the answer to a packet that was listed
for the site, and is held from then on until it is sent. -/

namespace SiteBroker

open Program

namespace Broker

variable {σ : Type} (setup : Setup σ) {b : Broker σ}

theorem heard_carryOut (hr : setup.registry = Registry.catalog setup.services) {p : Packet}
    (h : Heard setup b p) (e : Errand) : Heard setup (carryOut setup b e) p :=
  ⟨listed_mono (prefix_carryOut setup hr b e).subset h.1, h.2⟩

/-- Only what was listed for the site is answered. -/
theorem heard_of_answers {e : Errand} {p r : Packet} {verdict : Verdict} {Replies : Packet → Prop}
    (h : Answers setup b e p r verdict) (hfit : Fits setup b e)
    (hk : b.docket.Keeps (Held.Accounts (Heard setup b) Replies)) : Heard setup b p := by
  cases h with
  | rejected => exact hfit.2.1
  | unhandled hj => exact hk.takes_of_job? hj
  | failed hj => exact hk.takes_of_job? hj
  | served hj => exact hk.takes_of_job? hj

/-- One of the errands had a packet answered with the reply. -/
def Originates (b : Broker σ) (errands : List Errand) (r : Packet) : Prop :=
  ∃ before e after p verdict, errands = before ++ e :: after ∧
    Heard setup (carryOutAll setup b before) p ∧
    Answers setup (carryOutAll setup b before) e p r verdict

variable {setup} in
theorem Originates.append {errands : List Errand} {r : Packet} (h : Originates setup b errands r)
    (errands' : List Errand) : Originates setup b (errands ++ errands') r := by
  obtain ⟨before, e, after, p, verdict, rfl, hp, ha⟩ := h
  exact ⟨before, e, after ++ errands', p, verdict, by simp, hp, ha⟩

/-- Along a run of errands, every job that is held is for a packet that was listed for the site, and
every reply that is held was given at one of them. -/
theorem accounts_carryOutAll (hr : setup.registry = Registry.catalog setup.services)
    (hb : ∀ Q, b.docket.Keeps Q) {errands : List Errand} (hfit : FitAll setup b errands) :
    (carryOutAll setup b errands).docket.Keeps (Held.Accounts
      (Heard setup (carryOutAll setup b errands)) (Originates setup b errands)) := by
  induction errands using List.reverseRecOn with
  | nil => exact hb _
  | append_singleton errands e ih =>
    obtain ⟨hbefore, hlast, -⟩ := (fitAll_append setup).mp hfit
    have hk := ih hbefore
    have hheard : ∀ p, Heard setup (carryOutAll setup b errands) p →
        Heard setup (carryOutAll setup b (errands ++ [e])) p := fun p hp => by
      rw [carryOutAll_concat]
      exact heard_carryOut setup hr hp e
    have hanswers : ∀ {p r verdict}, Answers setup (carryOutAll setup b errands) e p r verdict →
        Originates setup b (errands ++ [e]) r := fun {p r verdict} ha =>
      ⟨errands, e, [], p, verdict, rfl, heard_of_answers setup ha hlast hk, ha⟩
    have hkept := hk.mono fun h => Held.Accounts.mono hheard fun r hr => Originates.append hr [e]
    have hstep := keeps_carryOut hr (Held.durable_accounts _ _) (fun _ _ => trivial) hkept hlast
      hheard hanswers
    rwa [← carryOutAll_concat] at hstep

/-- Whatever a broker is asked to do, and however the services answer, it is a run of errands, and
every packet that is sent in such a run was given as the answer to a packet at an earlier one. The
packet was listed for the site before, and the answer is a reply to it, which reports failure
exactly if the packet was turned down, or had no workflow to serve it, or the work on it failed. -/
theorem sends_replies (siteName : String) (s : Services σ) (localWaits waits : WaitTimes)
    (folder : SnapshotFolder) (outside : σ) :
    let setup : Setup σ := ⟨siteName, s, Registry.catalog s, localWaits⟩
    let start := Broker.start waits folder { outside }
    (∀ commands, ∃ errands, FitAll setup start errands ∧
      carryOutAll setup start errands = performAll setup start commands) ∧
    ∀ errands, FitAll setup start errands → ∀ front r outcome rest,
      (carryOutAll setup start errands).calls = front ++ ⟨.sendPacket r, outcome⟩ :: rest →
      ∃ before e after p verdict, errands = before ++ e :: after ∧
        (carryOutAll setup start (before ++ [e])).calls <+: front ∧
        (carryOutAll setup start before).situation.Listed p ∧ p.isAddressedTo siteName = true ∧
        Answers setup (carryOutAll setup start before) e p r verdict ∧
        r.IsReplyTo p (verdict ≠ .served) := by
  intro setup start
  refine ⟨exists_errands setup start, fun errands hfit front r outcome rest h => ?_⟩
  obtain ⟨before, e, after, mid, rest', rfl, rfl, hstep⟩ :=
    exists_step_of_logged (prefix_carryOut setup rfl) rfl h
  change (carryOut setup (carryOutAll setup start before) e).calls =
    (carryOutAll setup start before).calls ++ _ at hstep
  -- The packet was due when it was sent, so it was held, and so it has an origin.
  obtain ⟨news, hnews, hsends⟩ := makes_carryOut setup rfl (carryOutAll setup start before) e
  have he : news = mid ++ ⟨.sendPacket r, outcome⟩ :: rest' :=
    List.append_cancel_left (hnews.symm.trans hstep)
  have hdue := hsends ⟨.sendPacket r, outcome⟩ (by simp [he]) r rfl
  obtain ⟨id, hheld⟩ := Docket.holds_of_mem_due hdue
  have hkeeps := accounts_carryOutAll setup (b := start) rfl
    (fun Q => Docket.keeps_start waits Q) ((fitAll_append setup).mp hfit).1
  obtain ⟨first, e', between, p, verdict, rfl, ⟨hlisted, haddressed⟩, ha⟩ :=
    hkeeps.replies_of_holds hheld
  refine ⟨first, e', between ++ e :: after, p, verdict, by simp, ?_, hlisted, haddressed, ha,
    isReplyTo_of_answers setup rfl ha⟩
  have hfirst : (carryOutAll setup start (first ++ [e'])).calls <+:
      (carryOutAll setup start (first ++ e' :: between)).calls := by
    rw [List.append_cons first e' between, carryOutAll_append setup start (first ++ [e'])]
    exact prefix_carryOutAll setup rfl _ between
  exact hfirst.trans (List.prefix_append _ mid)

end Broker

end SiteBroker
