import SiteBroker.Proofs.Supply

/-! An accepted packet suffices: the work on it is not turned down for fields that are missing, save
for the gaps that the checks of packets leave. -/

namespace SiteBroker

open Program Desk

/-- Something is taken over from a packet: it adds to what was found, or it is what the packet
lacks. -/
structure Packet.Lends (p : Packet) (f : Job → Except ServiceError Progress)
    (brings : List Finding) : Prop where
  adopted : ∀ {job q}, job.packet = p → job.progress.Stocked p.type → f job = .ok q →
    job.progress.Finds p.type brings q
  refused : ∀ {job names}, job.packet = p → f job = .error (.validation (.missing names)) →
    p.Gap names

/-- Steps in an order in which each finds what it needs among what is known by then. -/
inductive Step.Provided (p : Packet) : List Finding → List Step → Prop where
  | nil {known : List Finding} : Provided p known []
  | milestone {known needs brings : List Finding} {m : Milestone} {rest : List Step}
      (hm : m.Supplied p needs brings) (hneeds : needs ⊆ known)
      (hrest : Provided p (brings ++ known) rest) : Provided p known (.milestone m :: rest)
  | adopt {known brings : List Finding} {f : Job → Except ServiceError Progress}
      {rest : List Step} (hf : p.Lends f brings) (hrest : Provided p (brings ++ known) rest) :
      Provided p known (.adopt f :: rest)
  | clear {known : List Finding} {rest : List Step} (hrest : Provided p known rest) :
      Provided p known (.clear :: rest)
  | findProject {known : List Finding} {rest : List Step} (ht : p.type = .requestProjectCreate)
      (hrest : Provided p known rest) : Provided p known (.findProject :: rest)

namespace Workflow

variable {p : Packet}

theorem lends_adoptIds (hp : p.Ready) (ht : p.type = .requestAccountReactivate) :
    p.Lends adoptIds [.person, .project] where
  adopted {job q} hj hs h := by
    cases h
    subst hj
    have hcarried : ∀ name, job.packet.type.carries name = true →
        ∃ text, job.fieldText? name = some text ∧ text ≠ "" := fun name hc => by
      obtain ⟨text, htext⟩ := Job.exists_fieldText (Job.hasValue_carried hp hc)
      exact ⟨text, htext, Job.fieldText_ne_empty htext⟩
    obtain ⟨person, hperson, hperson'⟩ := hcarried "PersonID" (by rw [ht]; decide)
    obtain ⟨project, hproject, hproject'⟩ := hcarried "ProjectID" (by rw [ht]; decide)
    have hor : ∀ {known : Option String} {text : String}, text ≠ "" →
        known.or (some text) = known ∨ HasText (known.or (some text)) := fun {known text} hne => by
      cases known with
      | none => exact .inr ⟨text, rfl, hne⟩
      | some _ => exact .inl rfl
    rw [hperson, hproject]
    refine hs.finds (fun f => ?_) (fun htype => by simp [ht] at htype)
      (fun _ => by simp) (by simp)
    cases f with
    | person => exact hor hperson'
    | project => exact hor hproject'
    | login | fos | grantKey | nameBase => exact .inl rfl
  refused _ h := by cases h

/-- A change has to be of a project that is named, unless it was found. -/
theorem lends_adoptProject (ht : p.type = .requestProjectCreate)
    (hold : p.body["AllocationType"]? ≠ some (.str "new")) : p.Lends adoptProject [.project] where
  adopted {job q} _ hs h := by
    unfold adoptProject at h
    split at h
    · next id hid =>
      cases h
      refine hs.finds (fun _ => .inl rfl) hs.login hs.account ?_
      exact List.forall_mem_singleton.mpr (by simp [hid])
    · next id hnone hid =>
      cases h
      exact hs.finds_put (f := .project) (by decide) (Job.fieldText_ne_empty hid)
    · cases h
  refused {job names} hj h := by
    unfold adoptProject at h
    split at h <;> cases h
    next hnone =>
      subst hj
      refine .project ht hold ((Job.hasValue_fields (by decide)).symm.trans ?_)
      by_contra hvalue
      obtain ⟨text, htext⟩ := Job.exists_fieldText (Bool.not_eq_false _ ▸ hvalue)
      rw [htext] at hnone
      cases hnone

open Milestone Step

theorem provided_accountCreate (hp : p.Ready) (ht : p.type = .requestAccountCreate) (job : Job) :
    Provided p [] (accountCreate.steps job) :=
  have hrole : p.type = Role.user.request := ht
  .milestone (supplied_orgCode hp hrole) (by simp) <|
  .milestone (supplied_person hp hrole) (by simp) <|
  .milestone (supplied_activePerson .user p) (by simp) <|
  .milestone (supplied_account hp ht) (by simp) <|
  .milestone (supplied_notice hp (by rw [ht]; decide)) (by simp) .nil

theorem provided_accountReactivate (hp : p.Ready) (ht : p.type = .requestAccountReactivate)
    (job : Job) : Provided p [] (accountReactivate.steps job) :=
  .adopt (lends_adoptIds hp ht) <|
  .milestone (supplied_activePerson .user p) (by simp) <|
  .milestone (supplied_notice hp (by rw [ht]; decide)) (by simp) <|
  .milestone (supplied_of_carried hp (fun q => ⟨fun f => by cases f <;> rfl, rfl⟩)
    (by rw [ht]; decide)) (by simp) .nil

theorem provided_provision (hp : p.Ready) (ht : p.type = .requestProjectCreate) {job : Job}
    (hj : job.packet = p) {known : List Finding} (hperson : .person ∈ known)
    (hfos : job.allocationType = "new" → .fos ∈ known) :
    Provided p known (provision job.allocationType ++ [.milestone .notice]) := by
  have hnotice := supplied_notice hp (by rw [ht]; decide)
  unfold provision
  split
  · next hnew =>
    have hfos := hfos hnew
    exact .milestone (supplied_siteGrantKey hp ht) (by simp [hperson]) <|
      .milestone (supplied_projectNameBase hp ht) (by simp) <|
      .milestone (supplied_project hp ht) (by simp [hperson, hfos]) <|
      .milestone hnotice (by simp [hperson]) .nil
  · next hold =>
    have hbody : p.body["AllocationType"]? ≠ some (.str "new") := fun hbody => by
      refine hold ?_
      subst hj
      rw [← Job.getElem?_fields (by decide)] at hbody
      simp [Job.allocationType, Job.fieldText?, Job.field?, Fields.present?, hbody, Json.isNull,
        Json.text?, Option.filter]
    exact .adopt (lends_adoptProject ht hbody) <|
      .milestone (supplied_allocation hp ht) (by simp) <|
      .milestone hnotice (by simp [hperson]) .nil

theorem provided_projectCreate (hp : p.Ready) (ht : p.type = .requestProjectCreate) {job : Job}
    (hj : job.packet = p) : Provided p [] (projectCreate.steps job) := by
  have hrole : p.type = Role.pi.request := ht
  refine .findProject ht <|
    .milestone (supplied_orgCode hp hrole) (by simp) <|
    .milestone (supplied_person hp hrole) (by simp) <|
    .milestone (supplied_activePerson .pi p) (by simp) ?_
  split
  · exact .milestone (supplied_localFos hp ht) (by simp) <|
      provided_provision hp ht hj (by simp) fun _ => by simp
  · next hother =>
    exact provided_provision hp ht hj (by simp) fun hnew => absurd (.inl hnew) hother

theorem provided_flagged (hp : p.Ready) {operation : Operation} {flag : Progress → Option Bool}
    {raise : Progress → Progress} (hraise : ∀ q : Progress,
      (∀ f, (raise q).finding? f = q.finding? f) ∧ (raise q).accountLogin = q.accountLogin)
    (h : ∀ rule ∈ operation.table.required, ∃ name ∈ rule.names, p.type.carries name = true) :
    Provided p [] [.milestone (flagged operation flag raise fun _ => ∅)] :=
  .milestone (supplied_of_carried hp hraise h) (by simp) .nil

/-- The steps of each workflow find what they need, in an accepted packet of the type or among what
earlier steps found out. -/
theorem provided_steps {w : Workflow} {job : Job} (hw : ofType? p.type = some w) (hp : p.Ready)
    (hj : job.packet = p) : Provided p [] (w.steps job) := by
  unfold ofType? at hw
  split at hw <;> cases hw
  case h_1 ht => exact provided_accountCreate hp ht job
  case h_2 ht => exact provided_projectCreate hp ht hj
  case h_4 ht => exact provided_accountReactivate hp ht job
  case h_9 | h_10 => exact .clear .nil
  all_goals
    next ht =>
      exact provided_flagged hp (fun q => ⟨fun f => by cases f <;> rfl, rfl⟩) (by rw [ht]; decide)

end Workflow

namespace Hearing

variable {σ : Type} {s : Services σ} {h : Hearing} {p : Packet} {known brings : List Finding}
  {x y : Desk σ}

/-- All answers and tasks that came in tell what requests are made from. -/
structure Tells (s : Services σ) (h : Hearing) : Prop where
  found : ∀ {kind found}, Found h.calls kind found → ∀ name ∈ kind.tells,
    HasText (found.entryText? name)
  succeeded : ∀ {operation t}, h.Succeeded s operation t → ∀ name ∈ operation.tells,
    HasText (t.productText? name)

/-- The work on the packet stands at a desk where some things are known. -/
structure Stands (h : Hearing) (p : Packet) (known : List Finding) (x : Desk σ) : Prop where
  packet : x.job.packet = p
  lists : h.Lists x
  stocked : x.job.progress.Stocked p.type
  known : ∀ f ∈ known, (x.job.progress.finding? f).isSome = true

theorem Stands.start (hx : h.Stands p known x) : h.Stands p [] x :=
  { hx with known := List.forall_mem_nil _ }

theorem Stands.of_worked (hx : h.Stands p known x) (hw : Worked x y)
    (hc : y.world.calls ⊆ h.calls) : h.Stands p known y where
  packet := hw.packet.trans hx.packet
  lists := hx.lists.of_worked hw hc
  stocked := hw.progress ▸ hx.stocked
  known := hw.progress ▸ hx.known

theorem Stands.withProgress (hx : h.Stands p known x) {q : Progress}
    (hq : x.job.progress.Finds p.type brings q) : h.Stands p (brings ++ known) (x.withProgress q)
    where
  packet := hx.packet
  lists := hx.lists
  stocked := hq.stocked
  known f hf := by
    rcases List.mem_append.mp hf with hf | hf
    · exact hq.brings f hf
    · exact hq.keeps f (hx.known f hf)

/-- How work on the packet ends that is heard of in full: more is known if it is done, and it is
turned down for missing fields only where the packet has a gap, or by an answer. -/
def Leaves (h : Hearing) (p : Packet) (known : List Finding) (x : Desk σ) :
    EStateM.Result ServiceError (Desk σ) StepResult → Prop
  | .ok .done y => h.Stands p known y
  | .ok (.waiting _) y | .ok .settled y => h.Stands p [] y
  | .error e y => h.Stands p [] y ∧
    ∀ names, e = .validation (.missing names) → p.Gap names ∨ Fails x y e

theorem Leaves.prepend {result : EStateM.Result ServiceError (Desk σ) StepResult}
    (hy : h.Leaves p known y result) (hxy : Told x y) : h.Leaves p known x result := by
  rcases result with ⟨_ | _ | _, z⟩ | ⟨e, z⟩
  · exact hy
  · exact hy
  · exact hy
  · obtain ⟨hz, hmissing⟩ := hy
    exact ⟨hz, fun names he => (hmissing names he).imp_right (·.prepend hxy)⟩

theorem Stands.runMilestone (hx : h.Stands p known x) (ht : h.Tells s) {m : Milestone}
    {needs : List Finding} (hm : m.Supplied p needs brings) (hneeds : needs ⊆ known)
    (hcalls : (left (m.run s x)).world.calls ⊆ h.calls) :
    h.Leaves p (brings ++ known) x (m.run s x) := by
  rcases m.run_cases s x with ⟨y, hy, hdone⟩ | ⟨y, hw, ⟨t, hy⟩ | ⟨e, hy⟩⟩ <;> rw [hy] at hcalls ⊢
  · cases hdone with
    | before hr =>
      refine { hx with known := fun f hf => ?_ }
      rcases List.mem_append.mp hf with hf | hf
      · exact hm.reached hx.stocked hr f hf
      · exact hx.known f hf
    | @found kind extra found q y hl hf hp hw =>
      have hq := hm.found hx.stocked hl (ht.found (hf.mono hcalls)) hp
      exact (hx.of_worked hw hcalls).withProgress (hw.progress ▸ hx.packet ▸ hq)
    | @task job u q y hs hu hj hp hw =>
      have htold := ht.succeeded (hx.lists.succeeded hu hcalls hs)
      have hq := hm.done (hj ▸ hx.stocked) htold hp
      exact (hx.of_worked hw hcalls).withProgress (by rwa [hw.progress, ← hj])
  · exact (hx.of_worked hw hcalls).start
  · refine ⟨(hx.of_worked hw hcalls).start, ?_⟩
    rintro names rfl
    rcases Milestone.run_of_validation s hm.toClean hy with ⟨_, hv, hne, hunmet⟩ | hfails
    · cases hv
      have hexcuses := hm.unmet hx.packet hx.stocked
        (fun f hf => hx.stocked.hasText (hx.known f (hneeds hf))) hunmet
      exact .inl (hexcuses.resolve_left hne)
    · exact .inr hfails

theorem Stands.runAdopt (hx : h.Stands p known x) {f : Job → Except ServiceError Progress}
    (hf : p.Lends f brings) : h.Leaves p (brings ++ known) x ((Step.adopt f).run s x) := by
  have hrun : (Step.adopt f).run s x = _ := currentJob_bind _ x
  rw [hrun]
  cases hq : f x.job with
  | ok q => exact hx.withProgress (hf.adopted hx.packet hx.stocked hq)
  | error e => exact ⟨hx.start, fun names he => .inl (hf.refused hx.packet (he ▸ hq))⟩

theorem fails_of_runClear {v : ValidationError}
    (h : Step.runClear s x = .error (.validation v) y) : Fails x y (.validation v) := by
  unfold Step.runClear at h
  rw [currentJob_bind] at h
  split at h
  · cases h
  · cases hc : s.clear x with
    | ok _ z =>
      rw [bind_of_ok hc] at h
      cases h
    | error e z =>
      rw [bind_of_error hc] at h
      cases h
      exact s.clear_of_validation hc

theorem Stands.runClear (hx : h.Stands p known x)
    (hcalls : (left (Step.runClear s x)).world.calls ⊆ h.calls) :
    h.Leaves p known x (Step.runClear s x) := by
  rcases Step.runClear_cases s x with ⟨-, hy⟩ | ⟨y, hw, -, hy⟩ | ⟨e, y, hw, hy⟩ <;>
    rw [hy] at hcalls ⊢
  · exact hx
  · have hq : y.job.progress.Finds p.type []
        { x.job.progress with transactionCleared := some true } := by
      rw [hw.progress]
      exact hx.stocked.finds_of_same (fun f => by cases f <;> rfl) rfl
    exact (hx.of_worked hw hcalls).withProgress hq
  · refine ⟨(hx.of_worked hw hcalls).start, ?_⟩
    rintro names rfl
    exact .inr (fails_of_runClear hy)

theorem finds_ofFoundProject {job : Job} (hs : job.progress.Stocked p.type) {found : Json}
    (ht : ∀ name ∈ LookupKind.tells .projectTask, HasText (found.entryText? name)) {q : Progress}
    (hq : job.ofFoundProject found = .ok q) : job.progress.Finds p.type [] q := by
  obtain ⟨person, hperson, hperson'⟩ := ht "PiPersonID" (by decide)
  obtain ⟨login, hlogin, hlogin'⟩ := ht "PiRemoteSiteLogin" (by decide)
  unfold Job.ofFoundProject at hq
  rw [hperson, hlogin] at hq
  split at hq <;> cases hq
  next id hid =>
    refine hs.finds (fun f => ?_) (fun _ _ => rfl) (fun _ => rfl) (List.forall_mem_nil _)
    cases f with
    | person => exact .inr ⟨person, rfl, hperson'⟩
    | login => exact .inr ⟨login, rfl, hlogin'⟩
    | project => exact .inr ⟨id, rfl, Milestone.foundText_ne_empty hid⟩
    | fos | grantKey | nameBase => exact .inl rfl

theorem gap_of_unmet {job : Job} (ht : job.packet.type = .requestProjectCreate)
    (hm : job.mayBeProvisioned = true)
    (hne : (LookupKind.table .projectTask).unmet (job.requestFields none ∅) ≠ []) :
    job.packet.Gap ((LookupKind.table .projectTask).unmet (job.requestFields none ∅)) := by
  have hfields : job.requestFields none ∅ = job.fields := Fields.overlay_empty _
  have hrecord : (job.field? "RecordID").isSome = true := by
    simp only [Job.mayBeProvisioned, Bool.and_eq_true] at hm
    exact hm.1.2
  obtain ⟨a, ha⟩ := Option.isSome_iff_exists.mp hrecord
  obtain ⟨hget, hnull⟩ := Option.filter_eq_some_iff.mp ha
  rw [hfields] at hne ⊢
  -- The search is made for any record that is named, but an empty text counts as no value.
  by_cases hstr : a = .str ""
  · subst hstr
    have hvalue : FieldRule.hasValue job.fields "RecordID" = false := by
      simp [FieldRule.hasValue, hget]
    have hunmet : (LookupKind.table .projectTask).unmet job.fields = ["RecordID"] := by
      simp [FieldTable.unmet, LookupKind.table, LookupKind.required, FieldRule.isSatisfied, hvalue,
        FieldRule.describe]
    rw [hunmet]
    exact .record ht (by rwa [← Job.getElem?_fields (by decide)])
  · refine absurd (FieldTable.unmet_eq_nil_iff.mpr (List.forall_mem_singleton.mpr ?_)) hne
    show FieldRule.hasValue job.fields "RecordID" = true
    unfold FieldRule.hasValue
    rw [hget]
    cases a <;> simp_all [Json.isNull]

theorem Stands.runFindProject (hx : h.Stands p known x) (ht : h.Tells s)
    (htype : p.type = .requestProjectCreate)
    (hcalls : (left (Step.runFindProject s x)).world.calls ⊆ h.calls) :
    h.Leaves p known x (Step.runFindProject s x) := by
  unfold Step.runFindProject at hcalls ⊢
  rw [currentJob_bind] at hcalls ⊢
  split at hcalls
  · next hm =>
    rw [if_pos hm]
    exact hx
  · next hm =>
    rw [if_neg hm]
    have hm : x.job.mayBeProvisioned = true := by simpa using hm
    have hw := s.goes_worked_lookup .projectTask none ∅ x
    cases hlook : s.lookup .projectTask none ∅ x with
    | error e y =>
      rw [hlook] at hw
      rw [bind_of_error hlook] at hcalls ⊢
      refine ⟨(hx.of_worked hw hcalls).start, ?_⟩
      rintro names rfl
      rcases s.lookup_of_validation hlook with ⟨hv, hne⟩ | hfails
      · cases hv
        exact .inl (hx.packet ▸ gap_of_unmet (by rw [hx.packet, htype]) hm hne)
      · exact .inr hfails
    | ok found y =>
      rw [hlook] at hw
      rw [bind_of_ok hlook] at hcalls ⊢
      cases found with
      | none => exact hx.of_worked hw hcalls
      | some found =>
        cases hq : x.job.ofFoundProject found with
        | error e =>
          simp only [hq] at hcalls ⊢
          refine ⟨(hx.of_worked hw hcalls).start, ?_⟩
          rintro names rfl
          unfold Job.ofFoundProject at hq
          split at hq <;> cases hq
        | ok q =>
          simp only [hq] at hcalls ⊢
          have hfound : Found y.world.calls .projectTask found := s.found_of_lookup hlook
          have hfinds := finds_ofFoundProject hx.stocked (ht.found (hfound.mono hcalls)) hq
          exact ((hx.of_worked hw hcalls).withProgress (hw.progress ▸ hfinds)).start

theorem Stands.runStep (hx : h.Stands p known x) (ht : h.Tells s) {step : Step}
    {rest : List Step} (hsteps : Step.Provided p known (step :: rest))
    (hcalls : (left (step.run s x)).world.calls ⊆ h.calls) :
    ∃ known', h.Leaves p known' x (step.run s x) ∧ Step.Provided p known' rest := by
  cases hsteps with
  | milestone hm hneeds hrest => exact ⟨_, hx.runMilestone ht hm hneeds hcalls, hrest⟩
  | adopt hf hrest => exact ⟨_, hx.runAdopt hf, hrest⟩
  | clear hrest => exact ⟨_, hx.runClear hcalls, hrest⟩
  | findProject htype hrest => exact ⟨_, hx.runFindProject ht htype hcalls, hrest⟩

theorem Stands.runAll {steps : List Step} (hx : h.Stands p known x) (ht : h.Tells s)
    (hsteps : Step.Provided p known steps)
    (hcalls : (left (Step.runAll s steps x)).world.calls ⊆ h.calls) :
    h.Leaves p [] x (Step.runAll s steps x) := by
  induction steps generalizing known x with
  | nil => exact hx.start
  | cons step rest ih =>
    have hgrew : ∀ y, (left (Step.runAll s rest y)).world.calls ⊆ h.calls →
        y.world.calls ⊆ h.calls := fun y hy =>
      List.Subset.trans (Step.goes_runAll (upheld_grew s) rest y).2 hy
    cases hrun : step.run s x with
    | error e y =>
      have hall : Step.runAll s (step :: rest) x = .error e y := bind_of_error hrun _
      rw [hall] at hcalls ⊢
      obtain ⟨known', hleaves, -⟩ := hx.runStep ht hsteps (by rwa [hrun])
      rwa [hrun] at hleaves
    | ok result y =>
      have hall : Step.runAll s (step :: rest) x = _ := bind_of_ok hrun _
      rw [hall] at hcalls ⊢
      cases result with
      | done =>
        obtain ⟨known', hleaves, hrest⟩ := hx.runStep ht hsteps
          (by rw [hrun]; exact hgrew y hcalls)
        rw [hrun] at hleaves
        have htold : Told x y := by simpa [hrun] using step.goes_run (upheld_told s) x
        -- The rest is run where the step has left the desk, with what it brought known as well.
        exact (ih hleaves hrest hcalls).prepend htold
      | waiting t | settled =>
        obtain ⟨known', hleaves, -⟩ := hx.runStep ht hsteps (by rwa [hrun])
        rwa [hrun] at hleaves

variable {w : Workflow}

theorem Stands.work (hx : h.Stands p [] x) (ht : h.Tells s)
    (hsteps : Step.Provided p [] (w.steps x.job))
    (hcalls : (left (w.work s x)).world.calls ⊆ h.calls) :
    h.Stands p [] (left (w.work s x)) ∧ ∀ {names y},
      w.work s x = .error (.validation (.missing names)) y →
      p.Gap names ∨ Fails x y (.validation (.missing names)) := by
  have hleft : (left (w.work s x)) = left (Step.runAll s (w.steps x.job) x) := w.left_work s x
  have hleaves := hx.runAll ht hsteps (hleft ▸ hcalls)
  rw [hleft]
  cases hrun : Step.runAll s (w.steps x.job) x with
  | error e y =>
    rw [hrun] at hleaves
    obtain ⟨hy, hmissing⟩ := hleaves
    refine ⟨hy, fun {names y'} hw => ?_⟩
    cases (w.work_of_error hrun).symm.trans hw
    exact hmissing names rfl
  | ok result y =>
    rw [hrun] at hleaves
    cases result with
    | waiting t => exact ⟨hleaves, fun hw => by cases (w.work_of_waiting hrun).symm.trans hw⟩
    | done | settled =>
      exact ⟨hleaves, fun hw => by cases (w.work_of_end hrun (by simp)).symm.trans hw⟩

end Hearing

namespace Workflow

variable {σ : Type} {s : Services σ} {w : Workflow} {p : Packet}

/-- In all turns on an accepted packet the work stands at a desk from which it can go on. -/
theorem stands_turns {x : Desk σ} {ts before : List Turn} (hw : ofType? p.type = some w)
    (hp : p.Ready) (hx : (w.heard s x ts).Stands p [] x) (ht : (w.heard s x ts).Tells s)
    (hbefore : before <+: ts) : (w.heard s x ts).Stands p [] (w.turns s x before) := by
  induction before using List.reverseRecOn with
  | nil => exact hx
  | append_singleton before turn ih =>
    have hy := ih ((List.prefix_append before [turn]).trans hbefore)
    have hlast : w.turns s x (before ++ [turn]) = w.turn s (w.turns s x before) turn :=
      w.turns_append s x before [turn]
    have hcalls := w.calls_turns_subset (s := s) (x := x) hbefore
    have hlists := w.lists_turns (s := s) (x := x) hbefore
    rw [hlast] at hcalls hlists ⊢
    cases turn with
    | work => exact (hy.work ht (provided_steps hw hp hy.packet) hcalls).1
    | update u =>
      exact ⟨(Job.packet_putTask _ u).trans hy.packet, hlists,
        by simpa [turn] using hy.stocked, List.forall_mem_nil _⟩

/-- The work on a packet that was accepted, with services that tell what requests are made from, is
turned down for missing fields only where the packet has a gap, or by the answer of a service. -/
theorem gap_of_missing {job : Job} (hw : ofType? job.packet.type = some w) (hp : job.packet.Ready)
    {outside : σ} {localEpisode remoteEpisode : Option Episode} {ts : List Turn}
    (ht : (w.heard s (.opened job outside localEpisode remoteEpisode) ts).Tells s)
    {names : List String} {y : Desk σ}
    (h : w.work s (w.turns s (.opened job outside localEpisode remoteEpisode) ts) =
      .error (.validation (.missing names)) y) :
    job.packet.Gap names ∨
      Fails (w.turns s (.opened job outside localEpisode remoteEpisode) ts) y
        (.validation (.missing names)) := by
  have hstart : Progress.Stocked job.packet.type {} :=
    ⟨fun f => by cases f <;> simp, fun _ h => (by cases h), fun h => (by cases h)⟩
  have hx := stands_turns hw hp
    ⟨rfl, w.lists_turns List.nil_prefix, hstart, List.forall_mem_nil _⟩ ht List.prefix_rfl
  refine (hx.work ht (provided_steps hw hp hx.packet) ?_).2 h
  rw [← w.calls_heard]
  exact List.Subset.refl _

/-- What the steps read of the tasks for them. -/
def productNames : List String :=
  ["OrgCode", "PersonID", "RemoteSiteLogin", "site_org", "active", "areaOfInterest",
    "site_grant_key", "project_name_base", "ProjectID", "PiRemoteSiteLogin",
    "ServiceUnitsAllocated", "StartDate", "EndDate", "resource_name", "AccountActivityTime"]

/-- Services that know of nobody and do all that they are asked to. Their tasks tell everything. -/
def thorough : Services Unit :=
  { obliging with
    environment := {
      clock := obliging.environment.clock
      answer := fun
        | .lookup _, u => (.ok none, u)
        | .submit request, u =>
          let products := productNames.map fun name => (⟨name, .str "1"⟩ : Product)
          (.ok ⟨request.keys, request.taskName, .successful, request.timestamp, products⟩, u)
        | call, u => obliging.environment.answer call u } }

/-- An answer that tells all that requests are made from, whatever task it is about. -/
def tellsAll : Exchange → Bool
  | ⟨.lookup request, .ok (some found)⟩ =>
    request.kind.tells.all fun name => HasText (Json.entryText? name found)
  | ⟨.submit _, .ok t⟩ =>
    Operation.all.all fun operation => operation.tells.all fun name =>
      HasText (TaskRecord.productText? t name)
  | _ => true

theorem tells_of_all {h : Hearing} (hcalls : h.calls.all tellsAll = true)
    (hrecorded : ∀ t, ¬ h.recorded t) : h.Tells s := by
  rw [List.all_eq_true] at hcalls
  have hsubmitted : ∀ {operation t}, Submitted h.calls operation t → ∀ operation : Operation,
      ∀ name ∈ operation.tells, HasText (t.productText? name) := by
    rintro _ t ⟨request, -, hm⟩ operation name hname
    have hall := List.all_eq_true.mp (hcalls _ hm) operation (by cases operation <;> decide)
    simpa using List.all_eq_true.mp hall name hname
  constructor
  case found =>
    rintro kind found ⟨request, rfl, hm⟩ name hname
    simpa using List.all_eq_true.mp (hcalls _ hm) name hname
  case succeeded =>
    rintro operation t ⟨-, ht | ⟨-, ht | ⟨o, ht⟩⟩⟩
    · exact hsubmitted ht operation
    · exact absurd ht (hrecorded t)
    · exact hsubmitted ht operation

/-- A job for an account on a project that is not named. -/
def projectlessJob : Job :=
  { accountJob with
    packet := { accountJob.packet with body := accountJob.packet.body.erase "ProjectID" }
    recordId_eq := rfl }

/-- A job to supplement a project that is not named. -/
def supplementJob : Job where
  packet := {
    type := .requestProjectCreate
    header := ⟨some 101, 6, 43, "ORIG", "REMOTE", "LOCAL", none, none, none⟩
    body := Fields.ofList [
      ("AllocationType", .str "supplement"), ("EndDate", .str "2024-12-31"),
      ("GrantNumber", .str "TG-1"), ("PfosNumber", .str "1"), ("PiFirstName", .str "Ada"),
      ("PiLastName", .str "Lovelace"), ("PiOrgCode", .str "0012345"),
      ("PiOrganization", .str "Engines"), ("ProjectTitle", .str "Notes"),
      ("ResourceList", .arr [.str "cluster"]), ("ServiceUnitsAllocated", .int 50),
      ("StartDate", .str "2024-01-01")] }
  recordId := 101
  timestamp := .epoch
  tasks := ∅
  progress := {}
  recordId_eq := rfl

theorem tells_of_thorough {job : Job} {outside : σ} {localEpisode remoteEpisode : Option Episode}
    (htasks : job.tasks = ∅)
    (hcalls : (w.heard s (.opened job outside localEpisode remoteEpisode) []).calls.all tellsAll =
      true) : (w.heard s (.opened job outside localEpisode remoteEpisode) []).Tells s := by
  refine tells_of_all hcalls fun t => ?_
  rintro ⟨ts, hts, ht⟩
  obtain rfl := List.prefix_nil.mp hts
  simp [turns, Desk.opened, htasks] at ht

/-- Work is turned down for missing fields, after a task has been done. -/
def turnsDownLate (names : List String) : EStateM.Result ServiceError (Desk σ) Outcome → Bool
  | .error (.validation (.missing names')) y => names' == names && y.world.calls.any fun
    | ⟨.submit _, .ok t⟩ => TaskRecord.state t == .successful
    | _ => false
  | _ => false

theorem of_turnsDownLate {names : List String}
    {result : EStateM.Result ServiceError (Desk σ) Outcome}
    (h : turnsDownLate names result = true) :
    ∃ y, result = .error (.validation (.missing names)) y ∧
      ∃ operation t, Submitted y.world.calls operation t ∧ t.state = .successful := by
  unfold turnsDownLate at h
  split at h
  · next names' y =>
    obtain ⟨hnames, hcalls⟩ := Bool.and_eq_true_iff.mp h
    obtain rfl := eq_of_beq hnames
    obtain ⟨e, hm, he⟩ := List.any_eq_true.mp hcalls
    split at he
    · next request t => exact ⟨y, rfl, _, t, ⟨request, rfl, hm⟩, eq_of_beq he⟩
    · cases he
  · cases h

theorem gap_of_missing_projectless :
    projectlessJob.packet.Ready ∧
    (accountCreate.heard thorough (.opened projectlessJob () none none) []).Tells thorough ∧
    ∃ y, accountCreate.work thorough (.opened projectlessJob () none none) =
        .error (.validation (.missing ["ProjectID|site_grant_key"])) y ∧
      (projectlessJob.packet.Gap ["ProjectID|site_grant_key"] ∨
        Fails (.opened projectlessJob () none none) y
          (.validation (.missing ["ProjectID|site_grant_key"]))) := by
  have hready : projectlessJob.packet.Ready :=
    ⟨by decide +kernel, fun _ => ⟨"cluster", [], rfl, by decide⟩⟩
  have htells : (accountCreate.heard thorough (.opened projectlessJob () none none) []).Tells
      thorough := tells_of_thorough rfl (by decide +kernel)
  obtain ⟨y, hy, -⟩ : ∃ y, accountCreate.work thorough (.opened projectlessJob () none none) =
      .error (.validation (.missing ["ProjectID|site_grant_key"])) y ∧ _ :=
    of_turnsDownLate (by decide +kernel)
  have hy' : accountCreate.work thorough
      (accountCreate.turns thorough (.opened projectlessJob () none none) []) = _ := hy
  exact ⟨hready, htells, y, hy, gap_of_missing rfl hready htells hy'⟩

/-- A change of a project that is not named is turned down, though the packet was accepted and
tasks for it have been done. -/
theorem missing_supplement :
    ofType? supplementJob.packet.type = some projectCreate ∧ supplementJob.packet.Ready ∧
    (∀ operation, (thorough.taskName? operation).isSome = true) ∧
    (projectCreate.heard thorough (.opened supplementJob () none none) []).Tells thorough ∧
    ∃ y, projectCreate.work thorough (.opened supplementJob () none none) =
        .error (.validation (.missing ["ProjectID"])) y ∧
      ∃ operation t, Submitted y.world.calls operation t ∧ t.state = .successful :=
  ⟨rfl, ⟨by decide +kernel, fun _ => ⟨"cluster", [], rfl, by decide⟩⟩,
    fun _ => rfl, tells_of_thorough rfl (by decide +kernel), of_turnsDownLate (by decide +kernel)⟩

end Workflow

end SiteBroker
