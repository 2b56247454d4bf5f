import SiteBroker.Office
import SiteBroker.Proofs.Course
import SiteBroker.Proofs.Progress
import SiteBroker.Proofs.Success

/-! The work on a job builds up its progress: what each step adds was not known before it. -/

namespace SiteBroker

open Program Desk Progress

namespace Progress

def flags (p : Progress) : List (Option Bool) :=
  [p.userNotified, p.userModified, p.personMerged, p.projectInactivated, p.projectReactivated,
    p.accountInactivated, p.accountReactivated, p.transactionCleared]

/-- No flag is known to be down. -/
def Raised (p : Progress) : Prop := some false ∉ p.flags

/-- The flags, each with what raises it. -/
def raises : List ((Progress → Option Bool) × (Progress → Progress)) := [
  ((·.userNotified), fun p => { p with userNotified := some true }),
  ((·.userModified), fun p => { p with userModified := some true }),
  ((·.personMerged), fun p => { p with personMerged := some true }),
  ((·.projectInactivated), fun p => { p with projectInactivated := some true }),
  ((·.projectReactivated), fun p => { p with projectReactivated := some true }),
  ((·.accountInactivated), fun p => { p with accountInactivated := some true }),
  ((·.accountReactivated), fun p => { p with accountReactivated := some true }),
  ((·.transactionCleared), fun p => { p with transactionCleared := some true })]

/-- Nothing is known of a person before who it is. -/
def PersonFirst (p : Progress) : Prop :=
  p.personId = none → p.remoteSiteLogin = none ∧ p.siteOrg = none ∧ p.personActive = none

/-- What is known while an account is set up. -/
structure ForAccount (p : Progress) : Prop where
  raised : p.Raised
  person : p.PersonFirst
  account : p.accountLogin = none → p.accountActivityTime = none ∧ p.projectId = none

/-- What is known while a project is set up. -/
structure ForProject (p : Progress) : Prop where
  raised : p.Raised
  person : p.PersonFirst
  project : p.projectId = none →
    p.serviceUnitsAllocated = none ∧ p.startDate = none ∧ p.endDate = none

/-- What is known while the allocation of a project is changed. -/
structure ForAllocation (p : Progress) : Prop extends ForProject p where
  allocation : p.serviceUnitsAllocated = none →
    p.startDate = none ∧ p.endDate = none ∧ p.resourceName = none

variable {p q : Progress}

theorem Builds.of_forall
    (hs : ∀ e ∈ tellers, e.1 ∉ loose → e.2 p = none ∨ e.2 q = e.2 p)
    (ha : p.personActive = none ∨ q.personActive = p.personActive ∨
      p.personActive = some false ∧ q.personActive = some true)
    (hl : p.remoteSiteLogin = none ∨ q.remoteSiteLogin = p.remoteSiteLogin ∨
      p.projectId = none ∧ q.projectId.isSome = true ∧ q.remoteSiteLogin.isSome = true) :
    p.Builds q := ⟨fun _ _ hf => hs _ hf, ha, hl⟩

/-- A flag that is not down is raised already, or nothing was known of it. -/
theorem Raised.builds_raise {e : (Progress → Option Bool) × (Progress → Progress)}
    (he : e ∈ raises) (hp : p.Raised) : p.Builds (e.2 p) := by
  have hflag : e.1 p = none ∨ e.1 p = some true := by
    have hne : e.1 p ≠ some false := fun h => hp (h ▸ by revert e; simp [raises, flags])
    cases h : e.1 p with
    | none => exact .inl rfl
    | some b => cases b <;> simp_all
  clear hp
  revert e
  simp only [raises, List.forall_mem_cons]
  refine ⟨?_, ?_, ?_, ?_, ?_, ?_, ?_, ?_, List.forall_mem_nil _⟩ <;> rintro (h | h) <;>
    exact .of_forall (by simp [tellers, h]) (.inr (.inl rfl)) (.inr (.inl rfl))

theorem Raised.raise {e : (Progress → Option Bool) × (Progress → Progress)} (he : e ∈ raises)
    (hp : p.Raised) : (e.2 p).Raised := by
  revert e
  simp_all [raises, Raised, flags]

end Progress

namespace Milestone

variable {p q : Progress}

/-- An answer or a task that completes the milestone makes one progress of the other. -/
def Gives (m : Milestone) (p q : Progress) : Prop :=
  (∃ job found, job.progress = p ∧ m.ofFound job found = .ok (some q)) ∨
    ∃ job t, job.progress = p ∧ m.ofTask job t = .ok q

theorem gives_orgCode {role : Role} (h : (orgCode role).Gives p q) :
    ∃ code, { p with orgCode := some code } = q := by
  rcases h with ⟨job, found, rfl, h⟩ | ⟨job, t, rfl, h⟩
  · simp only [orgCode] at h
    split at h <;> cases h
    exact ⟨_, rfl⟩
  · simp only [orgCode] at h
    split at h <;> cases h
    exact ⟨_, rfl⟩

theorem gives_person {role : Role} (h : (person role).Gives p q) :
    ∃ id login org active, withPerson p id login org active = q := by
  rcases h with ⟨job, found, rfl, h⟩ | ⟨job, t, rfl, h⟩
  · simp only [person] at h
    split at h <;> cases h
    exact ⟨_, _, _, _, rfl⟩
  · obtain ⟨id, rfl⟩ := eq_of_needText h
    exact ⟨_, _, _, _, rfl⟩

theorem gives_activePerson {role : Role} (h : (activePerson role).Gives p q) :
    ∃ active, { p with personActive := some active } = q := by
  rcases h with ⟨job, found, -, h⟩ | ⟨job, t, rfl, h⟩
  · cases h
  · cases h
    exact ⟨_, rfl⟩

theorem exists_of_found {text : Option String} {set : String → Progress}
    (h : (.ok (text.map set) : Except ServiceError (Option Progress)) = .ok (some q)) :
    ∃ s, set s = q := by
  obtain ⟨s, -, hs⟩ := Option.map_eq_some_iff.mp (Except.ok.inj h)
  exact ⟨s, hs⟩

theorem gives_localFos (h : localFos.Gives p q) :
    ∃ area, { p with localFos := some area } = q := by
  rcases h with ⟨job, found, rfl, h⟩ | ⟨job, t, rfl, h⟩
  · exact exists_of_found h
  · exact eq_of_needText h

theorem gives_siteGrantKey (h : siteGrantKey.Gives p q) :
    ∃ key, { p with siteGrantKey := some key } = q := by
  rcases h with ⟨job, found, rfl, h⟩ | ⟨job, t, rfl, h⟩
  · exact exists_of_found h
  · exact eq_of_needText h

theorem gives_projectNameBase (h : projectNameBase.Gives p q) :
    ∃ base, { p with projectNameBase := some base } = q := by
  rcases h with ⟨job, found, rfl, h⟩ | ⟨job, t, rfl, h⟩
  · exact exists_of_found h
  · exact eq_of_needText h

theorem gives_project (h : project.Gives p q) : ∃ id units start stop login,
    { p with
      projectId := some id
      serviceUnitsAllocated := units
      startDate := start
      endDate := stop
      remoteSiteLogin := Option.or login p.remoteSiteLogin } = q := by
  rcases h with ⟨job, found, -, h⟩ | ⟨job, t, rfl, h⟩
  · cases h
  · obtain ⟨id, rfl⟩ := eq_of_needText h
    exact ⟨_, _, _, _, _, rfl⟩

theorem gives_account (h : account.Gives p q) : ∃ login time project,
    { p with
      accountLogin := some login
      accountActivityTime := time
      projectId := Option.or project p.projectId } = q := by
  rcases h with ⟨job, found, -, h⟩ | ⟨job, t, rfl, h⟩
  · cases h
  · cases h
    exact ⟨_, _, _, rfl⟩

theorem gives_allocation (h : allocation.Gives p q) : ∃ units start stop resource,
    { p with
      serviceUnitsAllocated := some units
      startDate := start
      endDate := stop
      resourceName := resource } = q := by
  rcases h with ⟨job, found, -, h⟩ | ⟨job, t, rfl, h⟩
  · cases h
  · simp only [allocation] at h
    split at h <;> cases h
    exact ⟨_, _, _, _, rfl⟩

theorem gives_flagged {operation : Operation} {flag : Progress → Option Bool}
    {raise : Progress → Progress} {extra : Job → Fields}
    (h : (flagged operation flag raise extra).Gives p q) : raise p = q := by
  rcases h with ⟨job, found, -, h⟩ | ⟨job, t, rfl, h⟩
  · cases h
  · exact Except.ok.inj h

/-- What a milestone adds to progress of one kind was not known before, and makes progress of
another kind of it. -/
def Adds (m : Milestone) (P Q : Progress → Prop) : Prop :=
  ∀ p q, P p → m.isReached p = false → m.Gives p q → Q q ∧ p.Builds q

section

variable {P Q : Progress → Prop}

theorem adds_orgCode (role : Role) (hQ : ∀ p v, P p → Q { p with orgCode := v }) :
    (orgCode role).Adds P Q := by
  intro p q hp hr h
  obtain ⟨code, rfl⟩ := gives_orgCode h
  have hnone : p.orgCode = none := by simpa [orgCode] using hr
  exact ⟨hQ p _ hp, .of_forall (by simp [tellers, hnone]) (.inr (.inl rfl)) (.inr (.inl rfl))⟩

theorem adds_person (role : Role) (hP : ∀ p, P p → p.PersonFirst)
    (hQ : ∀ p id login org active, P p → Q (withPerson p id login org active)) :
    (person role).Adds P Q := by
  intro p q hp hr h
  obtain ⟨id, login, org, active, rfl⟩ := gives_person h
  have hnone : p.personId = none := by simpa [person] using hr
  obtain ⟨hlogin, horg, hactive⟩ := hP p hp hnone
  exact ⟨hQ p _ _ _ _ hp,
    .of_forall (by simp [tellers, loose, withPerson, hnone, horg]) (.inl hactive) (.inl hlogin)⟩

theorem adds_activePerson (role : Role) (hQ : ∀ p v, P p → Q { p with personActive := v }) :
    (activePerson role).Adds P Q := by
  intro p q hp hr h
  obtain ⟨active, rfl⟩ := gives_activePerson h
  have hactive : p.personActive ≠ some true := by simpa [activePerson] using hr
  refine ⟨hQ p _ hp, .of_forall (by simp [tellers, loose]) ?_ (.inr (.inl rfl))⟩
  cases hp : p.personActive with
  | none => exact .inl rfl
  | some b => cases b <;> cases active <;> simp_all

theorem adds_localFos (hQ : ∀ p v, P p → Q { p with localFos := v }) : localFos.Adds P Q := by
  intro p q hp hr h
  obtain ⟨area, rfl⟩ := gives_localFos h
  have hnone : p.localFos = none := by simpa [localFos] using hr
  exact ⟨hQ p _ hp, .of_forall (by simp [tellers, hnone]) (.inr (.inl rfl)) (.inr (.inl rfl))⟩

theorem adds_siteGrantKey (hQ : ∀ p v, P p → Q { p with siteGrantKey := v }) :
    siteGrantKey.Adds P Q := by
  intro p q hp hr h
  obtain ⟨key, rfl⟩ := gives_siteGrantKey h
  have hnone : p.siteGrantKey = none := by simpa [siteGrantKey] using hr
  exact ⟨hQ p _ hp, .of_forall (by simp [tellers, hnone]) (.inr (.inl rfl)) (.inr (.inl rfl))⟩

theorem adds_projectNameBase (hQ : ∀ p v, P p → Q { p with projectNameBase := v }) :
    projectNameBase.Adds P Q := by
  intro p q hp hr h
  obtain ⟨base, rfl⟩ := gives_projectNameBase h
  have hnone : p.projectNameBase = none := by simpa [projectNameBase] using hr
  exact ⟨hQ p _ hp, .of_forall (by simp [tellers, hnone]) (.inr (.inl rfl)) (.inr (.inl rfl))⟩

theorem adds_project (hP : ∀ p, P p → p.ForProject)
    (hQ : ∀ p id units start stop login, P p → Q { p with
      projectId := some id
      serviceUnitsAllocated := units
      startDate := start
      endDate := stop
      remoteSiteLogin := login }) : project.Adds P Q := by
  intro p q hp hr h
  obtain ⟨id, units, start, stop, login, rfl⟩ := gives_project h
  have hnone : p.projectId = none := by simpa [project] using hr
  obtain ⟨hunits, hstart, hstop⟩ := (hP p hp).project hnone
  refine ⟨hQ p _ _ _ _ _ hp,
    .of_forall (by simp [tellers, loose, hnone, hunits, hstart, hstop]) (.inr (.inl rfl)) ?_⟩
  cases login with
  | none => exact .inr (.inl rfl)
  | some login => exact .inr (.inr ⟨hnone, rfl, rfl⟩)

theorem adds_account (hP : ∀ p, P p → p.ForAccount)
    (hQ : ∀ p login time project, P p → Q { p with
      accountLogin := some login
      accountActivityTime := time
      projectId := project }) : account.Adds P Q := by
  intro p q hp hr h
  obtain ⟨login, time, project, rfl⟩ := gives_account h
  have hnone : p.accountLogin = none := by simpa [account] using hr
  obtain ⟨htime, hproject⟩ := (hP p hp).account hnone
  exact ⟨hQ p _ _ _ hp, .of_forall (by simp [tellers, hnone, htime, hproject])
    (.inr (.inl rfl)) (.inr (.inl rfl))⟩

theorem adds_allocation (hP : ∀ p, P p → p.ForAllocation)
    (hQ : ∀ p units start stop resource, P p → Q { p with
      serviceUnitsAllocated := some units
      startDate := start
      endDate := stop
      resourceName := resource }) : allocation.Adds P Q := by
  intro p q hp hr h
  obtain ⟨units, start, stop, resource, rfl⟩ := gives_allocation h
  have hnone : p.serviceUnitsAllocated = none := by simpa [allocation] using hr
  obtain ⟨hstart, hstop, hresource⟩ := (hP p hp).allocation hnone
  exact ⟨hQ p _ _ _ _ hp, .of_forall (by simp [tellers, hnone, hstart, hstop, hresource])
    (.inr (.inl rfl)) (.inr (.inl rfl))⟩

theorem adds_flagged {operation : Operation} {flag : Progress → Option Bool}
    {raise : Progress → Progress} {extra : Job → Fields} (he : (flag, raise) ∈ raises)
    (hP : ∀ p, P p → p.Raised) (hQ : ∀ p, P p → Q (raise p)) :
    (flagged operation flag raise extra).Adds P Q := by
  intro p q hp hr h
  obtain rfl := gives_flagged h
  exact ⟨hQ p hp, (hP p hp).builds_raise he⟩

theorem adds_notice (hP : ∀ p, P p → p.Raised)
    (hQ : ∀ p, P p → Q { p with userNotified := some true }) : notice.Adds P Q :=
  adds_flagged (by simp [raises]) hP hQ

end

theorem run_of_reached {σ : Type} {s : Services σ} {m : Milestone} {x : Desk σ}
    (h : m.isReached x.job.progress = true) : m.run s x = .ok .done x := by
  unfold run
  rw [currentJob_bind, if_pos h]
  rfl

theorem gives_of_completed {σ : Type} {s : Services σ} {m : Milestone} {x y : Desk σ}
    (h : Completed s m x y) (hr : m.isReached x.job.progress = false) :
    m.Gives x.job.progress y.job.progress := by
  cases h with
  | before h => simp [hr] at h
  | found _ _ hp _ => exact .inl ⟨_, _, rfl, hp⟩
  | task _ _ hjob hp _ => exact .inr ⟨_, _, hjob, hp⟩

end Milestone

/-- How work ends that builds up progress. Progress of one kind is left behind by steps that are
done, and of another if the work is broken off. A project that was found ends it all. -/
def Progress.Gained {σ : Type} (I Q : Progress → Prop) (p : Progress) :
    EStateM.Result ServiceError (Desk σ) StepResult → Prop
  | .ok .done y => Q y.job.progress ∧ p.Builds y.job.progress
  | .ok (.waiting _) y | .error _ y => I y.job.progress ∧ p.Builds y.job.progress
  | .ok .settled y => p.Keeps y.job.progress

theorem Progress.Gained.of_builds {σ : Type} {I Q : Progress → Prop} {p q : Progress}
    {result : EStateM.Result ServiceError (Desk σ) StepResult} (h : q.Gained I Q result)
    (hb : p.Builds q) : p.Gained I Q result := by
  rcases result with ⟨_ | t | _, y⟩ | ⟨e, y⟩
  · exact ⟨h.1, hb.trans h.2⟩
  · exact ⟨h.1, hb.trans h.2⟩
  · exact fun name f hf hp => h name f hf (hb.keeps name f hf hp)
  · exact ⟨h.1, hb.trans h.2⟩

namespace Step

variable {σ : Type} (s : Services σ) {I P Q R : Progress → Prop}

def Gains (I P : Progress → Prop) (step : Step) (Q : Progress → Prop) : Prop :=
  ∀ x : Desk σ, P x.job.progress → x.job.progress.Gained I Q (step.run s x)

def GainsAll (I P : Progress → Prop) (steps : List Step) (Q : Progress → Prop) : Prop :=
  ∀ x : Desk σ, P x.job.progress → x.job.progress.Gained I Q (runAll s steps x)

variable {s}

theorem gains_milestone {m : Milestone} (hI : ∀ p, P p → I p)
    (hr : ∀ p, P p → m.isReached p = true → Q p) (hm : m.Adds P Q) :
    Gains s I P (.milestone m) Q := by
  intro x hp
  show x.job.progress.Gained I Q (m.run s x)
  cases hreached : m.isReached x.job.progress with
  | true =>
    rw [Milestone.run_of_reached hreached]
    exact ⟨hr _ hp hreached, .refl _⟩
  | false =>
    rcases m.run_cases s x with ⟨y, h, hc⟩ | ⟨y, hw, ⟨t, h⟩ | ⟨e, h⟩⟩ <;> rw [h]
    · exact hm _ _ hp hreached (Milestone.gives_of_completed hc hreached)
    · exact ⟨hw.progress ▸ hI _ hp, hw.progress ▸ .refl _⟩
    · exact ⟨hw.progress ▸ hI _ hp, hw.progress ▸ .refl _⟩

theorem gains_adopt {f : Job → Except ServiceError Progress} (hI : ∀ p, P p → I p)
    (hf : ∀ job q, P job.progress → f job = .ok q → Q q ∧ job.progress.Builds q) :
    Gains s I P (.adopt f) Q := by
  intro x hp
  cases h : f x.job with
  | ok q =>
    have hrun : (Step.adopt f).run s x = .ok .done (x.withProgress q) := by
      simp only [run, currentJob_bind, h]
      rfl
    rw [hrun]
    exact hf x.job q hp h
  | error e =>
    have hrun : (Step.adopt f).run s x = .error e x := by
      simp only [run, currentJob_bind, h]
      rfl
    rw [hrun]
    exact ⟨hI _ hp, .refl _⟩

theorem gains_clear : Gains s Progress.Raised Progress.Raised .clear Progress.Raised := by
  intro x hp
  show x.job.progress.Gained Progress.Raised Progress.Raised (runClear s x)
  have hmem : ((·.transactionCleared), fun p => { p with transactionCleared := some true }) ∈
      Progress.raises := by simp [Progress.raises]
  rcases runClear_cases s x with ⟨-, h⟩ | ⟨y, hw, -, h⟩ | ⟨e, y, hw, h⟩ <;> rw [h]
  · exact ⟨hp, .refl _⟩
  · exact ⟨hp.raise hmem, hp.builds_raise hmem⟩
  · exact ⟨hw.progress ▸ hp, hw.progress ▸ .refl _⟩

theorem of_settled {x y : Desk σ} (h : runFindProject s x = .ok .settled y) :
    x.job.progress.projectId = none ∧ ∃ found, x.job.ofFoundProject found = .ok y.job.progress := by
  unfold runFindProject at h
  rw [currentJob_bind] at h
  split at h
  · cases h
  · next hm =>
    have hnone : x.job.progress.projectId = none := by
      simp [Job.mayBeProvisioned] at hm
      exact hm.1.1
    obtain ⟨found, x', -, h⟩ := bind_eq_ok h
    cases found with
    | none => cases h
    | some found =>
      obtain ⟨q, x'', hlift, h⟩ := bind_eq_ok h
      cases ho : x.job.ofFoundProject found with
      | error e =>
        rw [ho] at hlift
        cases hlift
      | ok q' =>
        rw [ho] at hlift
        cases hlift
        cases h
        exact ⟨hnone, found, ho⟩

theorem keeps_of_found {job : Job} {found : Json} {q : Progress} (hp : job.progress.ForProject)
    (hnone : job.progress.projectId = none) (h : job.ofFoundProject found = .ok q) :
    job.progress.Keeps q := by
  obtain ⟨hunits, hstart, hstop⟩ := hp.project hnone
  unfold Job.ofFoundProject at h
  split at h <;> cases h
  suffices hall : ∀ e ∈ Progress.tellers, (e.2 job.progress).isSome = true →
      (e.2 _).isSome = true from fun _ _ hf => hall _ hf
  simp +contextual [Progress.tellers, hunits, hstart, hstop]

theorem gains_findProject (hI : ∀ p, P p → I p) (hP : ∀ p, P p → p.ForProject) :
    Gains s I P .findProject P := by
  intro x hp
  show x.job.progress.Gained I P (runFindProject s x)
  rcases runFindProject_cases s x with ⟨found, y, h, -, -⟩ | ⟨y, hw, h | ⟨e, h⟩⟩ <;> rw [h]
  · obtain ⟨hnone, found, hfound⟩ := of_settled h
    exact keeps_of_found (hP _ hp) hnone hfound
  · exact ⟨hw.progress ▸ hp, hw.progress ▸ .refl _⟩
  · exact ⟨hw.progress ▸ hI _ hp, hw.progress ▸ .refl _⟩

/-- Steps each of which starts from the progress that the one before it leaves. -/
inductive Ladder (s : Services σ) (I : Progress → Prop) :
    (Progress → Prop) → List Step → (Progress → Prop) → Prop where
  | nil {P : Progress → Prop} : Ladder s I P [] P
  | cons {P Q R : Progress → Prop} {step : Step} {rest : List Step}
      (hstep : Gains s I P step Q) (hrest : Ladder s I Q rest R) : Ladder s I P (step :: rest) R

theorem Ladder.gainsAll {steps : List Step} (h : Ladder s I P steps R) :
    GainsAll s I P steps R := by
  induction h with
  | nil => exact fun _ hp => ⟨hp, .refl _⟩
  | @cons P Q R step rest hstep _ ih =>
    intro x hp
    have hfirst := hstep x hp
    rw [runAll_cons]
    rcases hx : step.run s x with ⟨result, y⟩ | ⟨e, y⟩ <;> rw [hx] at hfirst
    · rw [bind_of_ok hx]
      cases result with
      | done => exact (ih y hfirst.1).of_builds hfirst.2
      | waiting t => exact hfirst
      | settled => exact hfirst
    · rw [bind_of_error hx]
      exact hfirst

end Step

namespace Workflow

open Step Milestone

variable {σ : Type} {s : Services σ}

theorem raised_notified {p : Progress} (h : p.Raised) :
    Raised { p with userNotified := some true } := by
  have hmem : ((·.userNotified), fun p => { p with userNotified := some true }) ∈ raises := by
    simp [raises]
  exact h.raise hmem

/-- Progress of a kind that tells who the person is. -/
def Known (I : Progress → Prop) (p : Progress) : Prop := I p ∧ p.personId.isSome = true

theorem ladder_accountCreate (job : Job) :
    Ladder s ForAccount ForAccount (accountCreate.steps job) ForAccount := by
  have horg : Gains s ForAccount ForAccount (.milestone (.orgCode .user)) ForAccount :=
    gains_milestone (fun _ h => h) (fun _ h _ => h) <|
      adds_orgCode .user fun p v h => ⟨h.raised, h.person, h.account⟩
  have hperson : Gains s ForAccount ForAccount (.milestone (.person .user)) (Known ForAccount) :=
    gains_milestone (fun _ h => h) (fun p h hr => ⟨h, hr⟩) <|
      adds_person .user (fun p h => h.person) fun p id login org active h =>
        ⟨⟨h.raised, (by rintro ⟨⟩), h.account⟩, rfl⟩
  have hactive : Gains s ForAccount (Known ForAccount) (.milestone (.activePerson .user))
      ForAccount :=
    gains_milestone (fun _ h => h.1) (fun _ h _ => h.1) <|
      adds_activePerson .user fun p v h =>
        ⟨h.1.raised, fun hn => absurd hn (Option.isSome_iff_ne_none.mp h.2), h.1.account⟩
  have haccount : Gains s ForAccount ForAccount (.milestone .account) ForAccount :=
    gains_milestone (fun _ h => h) (fun _ h _ => h) <|
      adds_account (fun _ h => h) fun p login time project h =>
        ⟨h.raised, h.person, (by simp)⟩
  have hnotice : Gains s ForAccount ForAccount (.milestone .notice) ForAccount :=
    gains_milestone (fun _ h => h) (fun _ h _ => h) <|
      adds_notice (fun _ h => h.raised) fun p h => ⟨raised_notified h.raised, h.person, h.account⟩
  exact .cons horg <| .cons hperson <| .cons hactive <| .cons haccount <| .cons hnotice .nil

variable {I : Progress → Prop}

theorem ladder_flagged {operation : Operation} {flag : Progress → Option Bool}
    {raise : Progress → Progress} {extra : Job → Fields} (he : (flag, raise) ∈ raises) :
    Ladder s Raised Raised [.milestone (flagged operation flag raise extra)] Raised :=
  .cons (gains_milestone (fun _ h => h) (fun _ h _ => h) <|
    adds_flagged he (fun _ h => h) fun _ h => h.raise he) .nil

theorem builds_adoptIds {job : Job} {q : Progress} (h : adoptIds job = .ok q) :
    job.progress.Builds q := by
  cases h
  refine .of_forall ?_ (.inr (.inl rfl)) (.inr (.inl rfl))
  cases hperson : job.progress.personId <;> cases hproject : job.progress.projectId <;>
    simp [tellers, hperson, hproject]

theorem ladder_accountReactivate (job : Job) :
    Ladder s Raised Raised (accountReactivate.steps job) Raised := by
  have hadopt : Gains s Raised Raised (.adopt adoptIds) Raised :=
    gains_adopt (fun _ h => h) fun job q h hq => ⟨by cases hq; exact h, builds_adoptIds hq⟩
  have hactive : Gains s Raised Raised (.milestone (.activePerson .user)) Raised :=
    gains_milestone (fun _ h => h) (fun _ h _ => h) <| adds_activePerson .user fun p v h => h
  have hnotice : Gains s Raised Raised (.milestone .notice) Raised :=
    gains_milestone (fun _ h => h) (fun _ h _ => h) <|
      adds_notice (fun _ h => h) fun p h => raised_notified h
  exact .cons hadopt <| .cons hactive <| .cons hnotice <| ladder_flagged (by simp [raises])

/-- The search for a project and the first steps for its investigator. -/
theorem ladder_intake {rest : List Step} (hI : ∀ p, I p → p.ForProject)
    (horg : ∀ p v, I p → I { p with orgCode := v })
    (hperson : ∀ p id login org active, I p → I (withPerson p id login org active))
    (hactive : ∀ p v, Known I p → I { p with personActive := v })
    (hrest : Ladder s I (Known I) rest I) : Ladder s I I (projectIntake ++ rest) I := by
  have hfind : Gains s I I .findProject I := gains_findProject (fun _ h => h) hI
  have horg : Gains s I I (.milestone (.orgCode .pi)) I :=
    gains_milestone (fun _ h => h) (fun _ h _ => h) <| adds_orgCode .pi horg
  have hperson : Gains s I I (.milestone (.person .pi)) (Known I) :=
    gains_milestone (fun _ h => h) (fun _ h hr => ⟨h, hr⟩) <|
      adds_person .pi (fun p h => (hI p h).person) fun p id login org active h =>
        ⟨hperson p id login org active h, rfl⟩
  have hactive : Gains s I (Known I) (.milestone (.activePerson .pi)) (Known I) :=
    gains_milestone (fun _ h => h.1) (fun _ h _ => h) <|
      adds_activePerson .pi fun p v h => ⟨hactive p v h, h.2⟩
  exact .cons hfind <| .cons horg <| .cons hperson <| .cons hactive hrest

theorem gains_localFos (hI : ∀ p v, I p → I { p with localFos := v }) :
    Gains s I (Known I) (.milestone .localFos) (Known I) :=
  gains_milestone (fun _ h => h.1) (fun _ h _ => h) <|
    adds_localFos fun p v h => ⟨hI p v h.1, h.2⟩

theorem gains_lastNotice (hI : ∀ p, I p → p.Raised)
    (hraise : ∀ p, I p → I { p with userNotified := some true }) :
    Ladder s I I [.milestone .notice] I :=
  .cons (gains_milestone (fun _ h => h) (fun _ h _ => h) (adds_notice hI hraise)) .nil

theorem ladder_newProject : Ladder s ForProject ForProject
    (projectIntake ++ ([.milestone .localFos] ++ provision "new" ++ [.milestone .notice]))
    ForProject := by
  have hkey : Gains s ForProject (Known ForProject) (.milestone .siteGrantKey)
      (Known ForProject) :=
    gains_milestone (fun _ h => h.1) (fun _ h _ => h) <|
      adds_siteGrantKey fun p v h => ⟨⟨h.1.raised, h.1.person, h.1.project⟩, h.2⟩
  have hbase : Gains s ForProject (Known ForProject) (.milestone .projectNameBase)
      (Known ForProject) :=
    gains_milestone (fun _ h => h.1) (fun _ h _ => h) <|
      adds_projectNameBase fun p v h => ⟨⟨h.1.raised, h.1.person, h.1.project⟩, h.2⟩
  have hproject : Gains s ForProject (Known ForProject) (.milestone .project) ForProject :=
    gains_milestone (fun _ h => h.1) (fun _ h _ => h.1) <|
      adds_project (fun _ h => h.1) fun p id units start stop login h =>
        ⟨h.1.raised, fun hn => absurd hn (Option.isSome_iff_ne_none.mp h.2), (by simp)⟩
  refine ladder_intake (fun _ h => h) (fun p v h => ⟨h.raised, h.person, h.project⟩)
    (fun p id login org active h => ⟨h.raised, (by rintro ⟨⟩), h.project⟩)
    (fun p v h => ⟨h.1.raised, fun hn => absurd hn (Option.isSome_iff_ne_none.mp h.2),
      h.1.project⟩) ?_
  exact .cons (gains_localFos fun p v h => ⟨h.raised, h.person, h.project⟩) <|
    .cons hkey <| .cons hbase <| .cons hproject <|
    gains_lastNotice (fun _ h => h.raised)
      fun p h => ⟨raised_notified h.raised, h.person, h.project⟩

theorem of_adoptProject {job : Job} {q : Progress} (h : adoptProject job = .ok q) :
    (job.progress.projectId.isSome = true ∧ job.progress = q) ∨
    (job.progress.projectId = none ∧ ∃ id, { job.progress with projectId := some id } = q) := by
  unfold adoptProject at h
  split at h
  · next id _ hid =>
    cases h
    exact .inl ⟨by simp [hid], rfl⟩
  · next id hid _ =>
    cases h
    exact .inr ⟨hid, id, rfl⟩
  · cases h

/-- The allocation is changed of a project that is known by then. -/
theorem ladder_provision : Ladder s ForAllocation (Known ForAllocation)
    ([.adopt adoptProject, .milestone .allocation] ++ [.milestone .notice]) ForAllocation := by
  have hadopt : Gains s ForAllocation (Known ForAllocation) (.adopt adoptProject)
      fun p => ForAllocation p ∧ p.projectId.isSome = true := by
    refine gains_adopt (fun _ h => h.1) fun job q hp hq => ?_
    rcases of_adoptProject hq with ⟨hsome, rfl⟩ | ⟨hnone, id, rfl⟩
    · exact ⟨⟨hp.1, hsome⟩, .refl _⟩
    · refine ⟨⟨⟨⟨hp.1.raised, hp.1.person, (by simp)⟩, hp.1.allocation⟩, rfl⟩, ?_⟩
      exact .of_forall (by simp [tellers, hnone]) (.inr (.inl rfl)) (.inr (.inl rfl))
  have hallocation : Gains s ForAllocation (fun p => ForAllocation p ∧ p.projectId.isSome = true)
      (.milestone .allocation) ForAllocation :=
    gains_milestone (fun _ h => h.1) (fun _ h _ => h.1) <|
      adds_allocation (fun _ h => h.1) fun p units start stop resource h =>
        ⟨⟨h.1.raised, h.1.person, fun hn => absurd hn (Option.isSome_iff_ne_none.mp h.2)⟩,
          (by simp)⟩
  exact .cons hadopt <| .cons hallocation <|
    gains_lastNotice (fun _ h => h.raised)
      fun p h => ⟨⟨raised_notified h.raised, h.person, h.project⟩, h.allocation⟩

theorem ladder_oldProject (renewal : Bool) : Ladder s ForAllocation ForAllocation
    (projectIntake ++ ((if renewal then [.milestone .localFos] else []) ++
      ([.adopt adoptProject, .milestone .allocation] ++ [.milestone .notice]))) ForAllocation := by
  refine ladder_intake (fun _ h => h.toForProject)
    (fun p v h => ⟨⟨h.raised, h.person, h.project⟩, h.allocation⟩)
    (fun p id login org active h => ⟨⟨h.raised, (by rintro ⟨⟩), h.project⟩, h.allocation⟩)
    (fun p v h => ⟨⟨h.1.raised, fun hn => absurd hn (Option.isSome_iff_ne_none.mp h.2),
      h.1.project⟩, h.1.allocation⟩) ?_
  cases renewal with
  | true =>
    exact .cons (gains_localFos fun p v h =>
      ⟨⟨h.raised, h.person, h.project⟩, h.allocation⟩) ladder_provision
  | false => exact ladder_provision

end Workflow

namespace Job

/-- Which progress a job can have come to. -/
def Admits (job : Job) (p : Progress) : Prop :=
  match job.packet.type with
  | .requestAccountCreate => p.ForAccount
  | .requestProjectCreate => if job.allocationType = "new" then p.ForProject else p.ForAllocation
  | _ => p.Raised

theorem Admits.congr {job job' : Job} {p : Progress} (hp : job.packet = job'.packet)
    (h : job.Admits p) : job'.Admits p := by
  have ha : job.allocationType = job'.allocationType := by
    simp only [allocationType, fieldText?, field?, fields, hp]
  unfold Admits at h ⊢
  rwa [hp, ha] at h

theorem admits_start (job : Job) : job.Admits {} := by
  have hraised : Raised {} := by simp [Raised, flags]
  unfold Admits
  split
  · exact ⟨hraised, fun _ => ⟨rfl, rfl, rfl⟩, fun _ => ⟨rfl, rfl⟩⟩
  · split
    · exact ⟨hraised, fun _ => ⟨rfl, rfl, rfl⟩, fun _ => ⟨rfl, rfl, rfl⟩⟩
    · exact ⟨⟨hraised, fun _ => ⟨rfl, rfl, rfl⟩, fun _ => ⟨rfl, rfl, rfl⟩⟩,
        fun _ => ⟨rfl, rfl, rfl⟩⟩
  · exact hraised

end Job

namespace Workflow

variable {σ : Type} {s : Services σ} {w : Workflow}

theorem ladder_projectCreate (job : Job) : Step.Ladder s
    (fun p => if job.allocationType = "new" then p.ForProject else p.ForAllocation)
    (fun p => if job.allocationType = "new" then p.ForProject else p.ForAllocation)
    (projectCreate.steps job)
    fun p => if job.allocationType = "new" then p.ForProject else p.ForAllocation := by
  by_cases hn : job.allocationType = "new"
  · simp only [projectCreate, hn, if_true, true_or]
    exact ladder_newProject
  · simp only [projectCreate, provision, hn, if_false, false_or]
    by_cases hr : job.allocationType = "renewal"
    · rw [if_pos hr]
      exact ladder_oldProject true
    · rw [if_neg hr]
      exact ladder_oldProject false

theorem ladder_conclude (job : Job) :
    Step.Ladder s Raised Raised (conclude.steps job) Raised :=
  .cons Step.gains_clear .nil

theorem ladder_steps {job : Job} (hw : ofType? job.packet.type = some w) :
    Step.Ladder s job.Admits job.Admits (w.steps job) job.Admits := by
  unfold Job.Admits
  generalize job.packet.type = t at hw ⊢
  unfold ofType? at hw
  split at hw <;> cases hw
  · exact ladder_accountCreate job
  · exact ladder_projectCreate job
  · exact ladder_flagged (by simp [raises])
  · exact ladder_accountReactivate job
  · exact ladder_flagged (by simp [raises])
  · exact ladder_flagged (by simp [raises])
  · exact ladder_flagged (by simp [raises])
  · exact ladder_flagged (by simp [raises])
  · exact ladder_conclude job
  · exact ladder_conclude job

end Workflow

/-- A round of work keeps what is known. While it is not answered, it only builds it up. -/
theorem Office.gains_attend {σ : Type} {s : Services σ} {x y : Desk σ}
    {answer : Except BrokerError (Option Packet)}
    (h : attend (Registry.catalog s) x = (answer, y)) (hp : x.job.Admits x.job.progress) :
    x.job.progress.Keeps y.job.progress ∧ ((∀ r, answer ≠ .ok (some r)) →
      x.job.Admits y.job.progress ∧ x.job.progress.Builds y.job.progress) := by
  unfold attend at h
  cases hw : Workflow.ofType? x.job.packet.type with
  | none =>
    have hwork : (Registry.catalog s).work x.job.packet.type = Registry.refuse := by
      simp [Registry.work, Registry.catalog, hw]
    rw [hwork] at h
    cases h
    exact ⟨(Builds.refl _).keeps, fun hn => absurd rfl (hn _)⟩
  | some w =>
    have hwork : (Registry.catalog s).work x.job.packet.type = w.work s := by
      simp [Registry.work, Registry.catalog, hw]
    have hgains := (Workflow.ladder_steps (s := s) hw).gainsAll x hp
    rw [hwork] at h
    rcases hr : Step.runAll s (w.steps x.job) x with ⟨_ | t | _, z⟩ | ⟨e, z⟩ <;> rw [hr] at hgains
    · rw [w.work_of_end hr (by simp)] at h
      cases h
      exact ⟨hgains.2.keeps, fun hn => absurd rfl (hn _)⟩
    · rw [w.work_of_waiting hr] at h
      cases h
      exact ⟨hgains.2.keeps, fun _ => hgains⟩
    · rw [w.work_of_end hr (by simp)] at h
      cases h
      exact ⟨hgains, fun hn => absurd rfl (hn _)⟩
    · rw [w.work_of_error hr] at h
      cases h
      exact ⟨hgains.2.keeps, fun _ => hgains⟩

end SiteBroker
