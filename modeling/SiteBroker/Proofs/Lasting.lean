import SiteBroker.Proofs.Milestones

/-! What lasts of a step: its result depends on the packet and the progress alone, it shows in the
progress from then on, and no later step of a workflow takes it back. -/

namespace SiteBroker

/-- Worked out from the packet and the progress of a job, and from nothing else. -/
def Job.Blind {α : Type} (f : Job → α) : Prop :=
  ∀ (job : Job) (tasks : TaskList) (time : Instant),
    f { job with tasks, timestamp := time } = f job

theorem Job.Blind.eq {α : Type} {f : Job → α} (hf : Blind f) {job job' : Job}
    (hp : job'.packet = job.packet) (hg : job'.progress = job.progress) : f job' = f job := by
  obtain ⟨packet, recordId, time, tasks, progress, hr⟩ := job
  obtain ⟨packet', recordId', time', tasks', progress', hr'⟩ := job'
  dsimp only at hp hg
  subst hp hg
  obtain rfl : recordId' = recordId := Option.some.inj (hr'.symm.trans hr)
  exact hf ⟨packet', recordId', time, tasks, progress', hr⟩ tasks' time'

/-- Whose results the work on an operation may take back. -/
def Operation.upsets : Operation → List Operation
  | .chooseOrAddPerson | .activatePerson => [.activatePerson]
  | .createProject => [.updateAllocation]
  | _ => []

/-- One progress has the results of the other, apart from some that may be lost. -/
structure Progress.Advances (lost : List Operation) (p p' : Progress) : Prop where
  keeps : ∀ o, o ∉ lost → p.shows o = true → p'.shows o = true
  active : .activatePerson ∉ lost → p'.personActive = p.personActive
  cleared : p.transactionCleared = some true → p'.transactionCleared = some true

theorem Progress.Advances.refl (lost : List Operation) (p : Progress) : p.Advances lost p where
  keeps _ _ h := h
  active _ := rfl
  cleared h := h

namespace Milestone

/-- The result of a milestone lasts. A person that the task denies to be active is the one result
that does not show. Then the task is asked for it again, and says the same. -/
structure Lasting (m : Milestone) : Prop extends Regular m where
  lookup_blind : ∀ {kind extra}, m.lookup = some (kind, extra) → Job.Blind extra
  found_blind : ∀ found, Job.Blind (m.ofFound · found)
  task_blind : ∀ t, Job.Blind (m.ofTask · t)
  task_congr : ∀ {job t t'}, TaskRecord.name t' = t.name → t'.products = t.products →
    m.ofTask job t' = m.ofTask job t
  of_found : ∀ {job found p}, m.ofFound job found = .ok (some p) →
    p.shows m.operation = true ∧ job.progress.Advances m.operation.upsets p
  advances_of_task : ∀ {job t p}, m.ofTask job t = .ok p →
    job.progress.Advances m.operation.upsets p
  shows_of_task : ∀ {job t p}, m.ofTask job t = .ok p → p.shows m.operation = true ∨
    m.operation = .activatePerson ∧ ∀ (job' : Job),
      job'.progress.personActive = p.personActive → m.ofTask job' t = .ok job'.progress

theorem product?_congr {t t' : TaskRecord} (h : t'.products = t.products) (name : String) :
    t'.product? name = t.product? name := by
  simp only [TaskRecord.product?, h]

theorem productText?_congr {t t' : TaskRecord} (h : t'.products = t.products) (name : String) :
    t'.productText? name = t.productText? name := by
  simp only [TaskRecord.productText?, product?_congr h]

theorem eq_of_needText {t : TaskRecord} {product : String} {f : String → Progress} {p : Progress}
    (h : (needText t product >>= fun s => .ok (f s)) = .ok p) : ∃ s, f s = p := by
  cases hn : needText t product with
  | error e => simp [hn, bind, Except.bind] at h
  | ok s => exact ⟨s, by simpa [hn, bind, Except.bind] using h⟩

theorem needText_congr {t t' : TaskRecord} (hn : t'.name = t.name) (h : t'.products = t.products)
    (product : String) : needText t' product = needText t product := by
  simp only [needText, lacking, productText?_congr h, hn]

@[simp] theorem lasting_orgCode (role : Role) : (orgCode role).Lasting where
  toRegular := regular_orgCode role
  lookup_blind h := by cases h; exact fun _ _ _ => rfl
  found_blind _ _ _ _ := rfl
  task_blind _ _ _ _ := rfl
  task_congr hn hp := by simp only [orgCode, lacking, productText?_congr hp, hn]
  of_found h := by
    simp only [orgCode] at h
    split at h <;> cases h
    exact ⟨rfl, fun o _ hs => by cases o <;> simp_all [Progress.shows], fun _ => rfl, id⟩
  advances_of_task h := by
    simp only [orgCode] at h
    split at h <;> cases h
    exact ⟨fun o _ hs => by cases o <;> simp_all [Progress.shows], fun _ => rfl, id⟩
  shows_of_task h := by
    simp only [orgCode] at h
    split at h <;> cases h
    exact .inl rfl

theorem advances_withPerson (p : Progress) (id : String) (login siteOrg : Option String)
    (active : Bool) : p.Advances (Operation.upsets .chooseOrAddPerson)
      (withPerson p id login siteOrg active) where
  keeps o ho hs := by
    cases o <;> simp_all [Progress.shows, withPerson, Operation.upsets]
  active h := by simp [Operation.upsets] at h
  cleared h := h

@[simp] theorem lasting_person (role : Role) : (person role).Lasting where
  toRegular := regular_person role
  lookup_blind h := by cases h; exact fun _ _ _ => rfl
  found_blind _ _ _ _ := rfl
  task_blind _ _ _ _ := rfl
  task_congr hn hp := by
    simp only [person, needText_congr hn hp, productText?_congr hp, product?_congr hp]
  of_found h := by
    simp only [person] at h
    split at h <;> cases h
    exact ⟨rfl, advances_withPerson ..⟩
  advances_of_task h := by
    obtain ⟨id, rfl⟩ := eq_of_needText h
    exact advances_withPerson ..
  shows_of_task h := by
    obtain ⟨id, rfl⟩ := eq_of_needText h
    exact .inl rfl

@[simp] theorem lasting_activePerson (role : Role) : (activePerson role).Lasting where
  toRegular := regular_activePerson role
  lookup_blind h := by cases h
  found_blind _ _ _ _ := rfl
  task_blind _ _ _ _ := rfl
  task_congr _ hp := by simp only [activePerson, product?_congr hp]
  of_found h := by cases h
  advances_of_task h := by
    cases h
    exact ⟨fun o ho hs => by
      cases o <;> simp_all [Progress.shows, activePerson, Operation.upsets],
      fun ho => by simp [activePerson, Operation.upsets] at ho, id⟩
  shows_of_task {job t p} h := by
    right
    refine ⟨rfl, fun job' ha => ?_⟩
    cases h
    replace ha : some ((t.product? "active").all Json.isTruthy) = job'.progress.personActive :=
      ha.symm
    simp only [activePerson, ha]

theorem lasting_of_text {m : Milestone} {kind : LookupKind} {extra : Job → Fields}
    {product : String} (set : Progress → String → Progress) (hm : m.Regular)
    (hlookup : m.lookup = some (kind, extra)) (hextra : Job.Blind extra)
    (hfound : ∀ job found,
      m.ofFound job found = .ok ((found.foundText? kind.value).map (set job.progress)))
    (htask : ∀ job t, m.ofTask job t = needText t product >>= fun s => .ok (set job.progress s))
    (hshows : ∀ p s, (set p s).shows m.operation = true)
    (hset : ∀ p s, Progress.Advances m.operation.upsets p (set p s)) : m.Lasting where
  toRegular := hm
  lookup_blind h := by
    rw [hlookup] at h
    cases h
    exact hextra
  found_blind found job tasks time := by simp only [hfound]
  task_blind t job tasks time := by simp only [htask]
  task_congr hn hp := by simp only [htask, needText_congr hn hp]
  of_found {job found p} h := by
    rw [hfound, Except.ok.injEq, Option.map_eq_some_iff] at h
    obtain ⟨s, -, rfl⟩ := h
    exact ⟨hshows _ s, hset _ s⟩
  advances_of_task {job t p} h := by
    rw [htask] at h
    obtain ⟨s, rfl⟩ := eq_of_needText h
    exact hset _ s
  shows_of_task {job t p} h := by
    rw [htask] at h
    obtain ⟨s, rfl⟩ := eq_of_needText h
    exact .inl (hshows _ s)

@[simp] theorem lasting_localFos : localFos.Lasting :=
  lasting_of_text (fun p s => { p with localFos := some s }) regular_localFos rfl
    (fun _ _ _ => rfl) (fun _ _ => rfl) (fun _ _ => rfl) (fun _ _ => rfl)
    fun p s => ⟨fun o _ h => by cases o <;> simp_all [Progress.shows], fun _ => rfl, id⟩

@[simp] theorem lasting_siteGrantKey : siteGrantKey.Lasting :=
  lasting_of_text (fun p s => { p with siteGrantKey := some s }) regular_siteGrantKey rfl
    (fun _ _ _ => rfl) (fun _ _ => rfl) (fun _ _ => rfl) (fun _ _ => rfl)
    fun p s => ⟨fun o _ h => by cases o <;> simp_all [Progress.shows], fun _ => rfl, id⟩

@[simp] theorem lasting_projectNameBase : projectNameBase.Lasting :=
  lasting_of_text (fun p s => { p with projectNameBase := some s }) regular_projectNameBase rfl
    (fun _ _ _ => rfl) (fun _ _ => rfl) (fun _ _ => rfl) (fun _ _ => rfl)
    fun p s => ⟨fun o _ h => by cases o <;> simp_all [Progress.shows], fun _ => rfl, id⟩

@[simp] theorem lasting_project : project.Lasting where
  toRegular := regular_project
  lookup_blind h := by cases h
  found_blind _ _ _ _ := rfl
  task_blind _ _ _ _ := rfl
  task_congr hn hp := by
    simp only [project, needText_congr hn hp, productText?_congr hp, product?_congr hp]
  of_found h := by cases h
  advances_of_task h := by
    obtain ⟨id', rfl⟩ := eq_of_needText h
    exact ⟨fun o ho hs => by cases o <;> simp_all [Progress.shows, project, Operation.upsets],
      fun _ => rfl, id⟩
  shows_of_task h := by
    obtain ⟨id, rfl⟩ := eq_of_needText h
    exact .inl rfl

@[simp] theorem lasting_account : account.Lasting where
  toRegular := regular_account
  lookup_blind h := by cases h
  found_blind _ _ _ _ := rfl
  task_blind _ _ _ _ := rfl
  task_congr _ hp := by simp only [account, productText?_congr hp]
  of_found h := by cases h
  advances_of_task h := by
    cases h
    exact ⟨fun o _ hs => by cases o <;> simp_all [Progress.shows], fun _ => rfl, id⟩
  shows_of_task h := by
    cases h
    exact .inl rfl

@[simp] theorem lasting_allocation : allocation.Lasting where
  toRegular := regular_allocation
  lookup_blind h := by cases h
  found_blind _ _ _ _ := rfl
  task_blind _ _ _ _ := rfl
  task_congr hn hp := by
    simp only [allocation, lacking, productText?_congr hp, product?_congr hp, hn]
  of_found h := by cases h
  advances_of_task h := by
    simp only [allocation] at h
    split at h <;> cases h
    exact ⟨fun o _ hs => by cases o <;> simp_all [Progress.shows], fun _ => rfl, id⟩
  shows_of_task h := by
    simp only [allocation] at h
    split at h <;> cases h
    exact .inl rfl

theorem lasting_flagged {operation : Operation} {flag : Progress → Option Bool}
    {raise : Progress → Progress} {extra : Job → Fields}
    (hm : (flagged operation flag raise extra).Regular)
    (hshows : ∀ p, (raise p).shows operation = true)
    (hraise : ∀ p, Progress.Advances operation.upsets p (raise p)) :
    (flagged operation flag raise extra).Lasting where
  toRegular := hm
  lookup_blind h := by cases h
  found_blind _ _ _ _ := rfl
  task_blind _ _ _ _ := rfl
  task_congr _ _ := rfl
  of_found h := by cases h
  advances_of_task h := by
    cases h
    exact hraise _
  shows_of_task h := by
    cases h
    exact .inl (hshows _)

@[simp] theorem lasting_notice : notice.Lasting :=
  lasting_flagged regular_notice (fun _ => rfl) fun p =>
    ⟨fun o _ h => by cases o <;> simp_all [Progress.shows], fun _ => rfl, id⟩

@[simp] theorem lasting_userChange : userChange.Lasting :=
  lasting_flagged regular_userChange (fun _ => rfl) fun p =>
    ⟨fun o _ h => by cases o <;> simp_all [Progress.shows], fun _ => rfl, id⟩

@[simp] theorem lasting_personMerge : personMerge.Lasting :=
  lasting_flagged regular_personMerge (fun _ => rfl) fun p =>
    ⟨fun o _ h => by cases o <;> simp_all [Progress.shows], fun _ => rfl, id⟩

@[simp] theorem lasting_projectEnd : projectEnd.Lasting :=
  lasting_flagged regular_projectEnd (fun _ => rfl) fun p =>
    ⟨fun o _ h => by cases o <;> simp_all [Progress.shows], fun _ => rfl, id⟩

@[simp] theorem lasting_projectReturn : projectReturn.Lasting :=
  lasting_flagged regular_projectReturn (fun _ => rfl) fun p =>
    ⟨fun o _ h => by cases o <;> simp_all [Progress.shows], fun _ => rfl, id⟩

@[simp] theorem lasting_accountEnd : accountEnd.Lasting :=
  lasting_flagged regular_accountEnd (fun _ => rfl) fun p =>
    ⟨fun o _ h => by cases o <;> simp_all [Progress.shows], fun _ => rfl, id⟩

@[simp] theorem lasting_accountReturn : accountReturn.Lasting :=
  lasting_flagged regular_accountReturn (fun _ => rfl) fun p =>
    ⟨fun o _ h => by cases o <;> simp_all [Progress.shows], fun _ => rfl, id⟩

end Milestone

/-- What is taken over from the packet stays, and so it is not taken over again. -/
structure Adoption (f : Job → Except ServiceError Progress) : Prop where
  blind : Job.Blind f
  advances : ∀ {job p}, f job = .ok p → job.progress.Advances [] p
  again : ∀ {job p p'}, f job = .ok p →
    (∀ o, o = .chooseOrAddPerson ∨ o = .createProject → p.shows o = true → p'.shows o = true) →
    f { job with progress := p' } = .ok p'

def Step.Lasts : Step → Prop
  | .milestone m => m.Lasting
  | .adopt f => Adoption f
  | .clear | .findProject => True

/-- The results of the steps last, and none of them is taken back by a later one. -/
structure Orderly (steps : List Step) : Prop where
  lasts : ∀ step ∈ steps, step.Lasts
  spared : (operations steps).Pairwise fun o o' => o ∉ o'.upsets
  first : .findProject ∉ steps.tail

theorem orderly_singleton {m : Milestone} (hm : m.Lasting) : Orderly [.milestone m] where
  lasts := List.forall_mem_singleton.mpr hm
  spared := List.pairwise_singleton _ _
  first := List.not_mem_nil

namespace Workflow

theorem adoption_adoptIds : Adoption adoptIds where
  blind _ _ _ := rfl
  advances h := by
    cases h
    exact ⟨fun o _ hs => by cases o <;> simp_all [Progress.shows], fun _ => rfl, id⟩
  again {job p p'} h hk := by
    cases h
    have hperson := hk .chooseOrAddPerson (.inl rfl)
    have hproject := hk .createProject (.inr rfl)
    simp only [Progress.shows, Option.isSome_or, Bool.or_eq_true] at hperson hproject
    have hor : ∀ {a b : Option String}, (b.isSome = true → a.isSome = true) → a.or b = a := by
      intro a b hab
      cases a <;> cases b <;> simp_all
    show Except.ok { p' with
      personId := p'.personId.or (job.fieldText? "PersonID")
      projectId := p'.projectId.or (job.fieldText? "ProjectID") } = _
    rw [hor fun h => hperson (.inr h), hor fun h => hproject (.inr h)]

theorem adoption_adoptProject : Adoption adoptProject where
  blind _ _ _ := rfl
  advances h := by
    unfold adoptProject at h
    split at h <;> cases h
    · exact .refl _ _
    · exact ⟨fun o _ hs => by cases o <;> simp_all [Progress.shows], fun _ => rfl, id⟩
  again {job p p'} h hk := by
    have hsome : p.projectId.isSome = true := by
      unfold adoptProject at h
      split at h
      · next id _ hid =>
        cases h
        rw [hid]
        rfl
      · cases h
        rfl
      · cases h
    obtain ⟨id, hid⟩ := Option.isSome_iff_exists.mp (hk .createProject (.inr rfl) hsome)
    simp only [adoptProject, hid]

theorem orderly_accountCreate (job : Job) : Orderly (accountCreate.steps job) where
  lasts := by simp [accountCreate, Step.Lasts]
  spared := by
    show [Operation.chooseOrAddOrg, .chooseOrAddPerson, .activatePerson, .createAccount,
      .notifyUser].Pairwise _
    decide
  first := by simp [accountCreate]

theorem orderly_accountReactivate (job : Job) : Orderly (accountReactivate.steps job) where
  lasts := by simp [accountReactivate, Step.Lasts, adoption_adoptIds]
  spared := by
    show [Operation.activatePerson, .notifyUser, .reactivateAccount].Pairwise _
    decide
  first := by simp [accountReactivate]

theorem orderly_projectCreate (job : Job) : Orderly (projectCreate.steps job) := by
  simp only [projectCreate, provision]
  by_cases hn : job.allocationType = "new"
  · rw [if_pos (.inl hn), if_pos hn]
    refine ⟨by simp [Step.Lasts], ?_, by simp⟩
    show [Operation.chooseOrAddOrg, .chooseOrAddPerson, .activatePerson, .chooseOrAddLocalFos,
      .chooseOrAddGrant, .chooseOrAddProjectNameBase, .createProject, .notifyUser].Pairwise _
    decide
  · by_cases hr : job.allocationType = "renewal"
    · rw [if_pos (.inr hr), if_neg hn]
      refine ⟨by simp [Step.Lasts, adoption_adoptProject], ?_, by simp⟩
      show [Operation.chooseOrAddOrg, .chooseOrAddPerson, .activatePerson, .chooseOrAddLocalFos,
        .updateAllocation, .notifyUser].Pairwise _
      decide
    · rw [if_neg (not_or.mpr ⟨hn, hr⟩), if_neg hn]
      refine ⟨by simp [Step.Lasts, adoption_adoptProject], ?_, by simp⟩
      show [Operation.chooseOrAddOrg, .chooseOrAddPerson, .activatePerson, .updateAllocation,
        .notifyUser].Pairwise _
      decide

theorem orderly_conclude (job : Job) : Orderly (conclude.steps job) where
  lasts := by simp [conclude, Step.Lasts]
  spared := List.Pairwise.nil
  first := List.not_mem_nil

theorem orderly_steps {t : PacketType} {w : Workflow} (hw : ofType? t = some w) (job : Job) :
    Orderly (w.steps job) := by
  unfold ofType? at hw
  split at hw <;> cases hw
  · exact orderly_accountCreate job
  · exact orderly_projectCreate job
  · exact orderly_singleton Milestone.lasting_accountEnd
  · exact orderly_accountReactivate job
  · exact orderly_singleton Milestone.lasting_projectEnd
  · exact orderly_singleton Milestone.lasting_projectReturn
  · exact orderly_singleton Milestone.lasting_userChange
  · exact orderly_singleton Milestone.lasting_personMerge
  · exact orderly_conclude job
  · exact orderly_conclude job

theorem blind_reply {t : PacketType} {w : Workflow} (hw : ofType? t = some w) :
    Job.Blind w.reply := by
  unfold ofType? at hw
  split at hw <;> cases hw <;> exact fun _ _ _ => rfl

end Workflow

end SiteBroker
