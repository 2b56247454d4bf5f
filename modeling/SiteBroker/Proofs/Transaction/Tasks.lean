import SiteBroker.Proofs.Transaction

/-! Tasks that come to a transaction, and tasks that are set aside when its job is done with. -/

namespace SiteBroker

namespace Transaction

variable {t : Transaction}

theorem held_of_job? {job : Job} (h : t.job? = some job) :
    ∃ timer, t.held = some ⟨.incoming job, timer⟩ := by
  simp only [job?, content?] at h
  cases hh : t.held with
  | none => simp [hh] at h
  | some held =>
    obtain ⟨content, timer⟩ := held
    cases content with
    | incoming job' =>
      simp only [hh, Option.map_some, Option.bind_some, Content.job?, Option.some.injEq] at h
      exact ⟨timer, by rw [h]⟩
    | outgoing reply acknowledged => simp [hh, Content.job?] at h

theorem mapJob_of_no_job (h : t.job? = none) (f : Job → Job) : t.mapJob f = t := by
  unfold mapJob
  split
  · next hh => simp [job?, content?, hh, Content.job?] at h
  · rfl

@[simp] theorem id_mapJob (f : Job → Job) : (t.mapJob f).id = t.id := by
  unfold mapJob
  split <;> rfl

@[simp] theorem parked_mapJob (f : Job → Job) : (t.mapJob f).parked = t.parked := by
  unfold mapJob
  split <;> rfl

@[simp] theorem job?_mapJob (f : Job → Job) : (t.mapJob f).job? = t.job?.map f := by
  cases h : t.job? with
  | none => rw [mapJob_of_no_job h, h, Option.map_none]
  | some job =>
    obtain ⟨timer, hh⟩ := held_of_job? h
    simp [mapJob, hh, job?, content?, Content.job?]

theorem mapJob_congr {job : Job} (h : t.job? = some job) {f g : Job → Job} (hfg : f job = g job) :
    t.mapJob f = t.mapJob g := by
  obtain ⟨timer, hh⟩ := held_of_job? h
  simp [mapJob, hh, hfg]

theorem mapJob_of_fixed {job : Job} (h : t.job? = some job) {f : Job → Job} (hf : f job = job) :
    t.mapJob f = t := by
  obtain ⟨timer, hh⟩ := held_of_job? h
  cases t
  simp_all [mapJob]

theorem mapJob_mapJob (f g : Job → Job) : (t.mapJob f).mapJob g = t.mapJob (g ∘ f) := by
  cases h : t.job? with
  | none => rw [mapJob_of_no_job h, mapJob_of_no_job h, mapJob_of_no_job h]
  | some job =>
    obtain ⟨timer, hh⟩ := held_of_job? h
    simp [mapJob, hh]

theorem packet?_mapJob {f : Job → Job}
    (hf : ∀ job, t.job? = some job → (f job).packet = job.packet) :
    (t.mapJob f).packet? = t.packet? := by
  cases h : t.job? with
  | none => rw [mapJob_of_no_job h]
  | some job =>
    have hj : (t.mapJob f).job? = some (f job) := by simp [h]
    rw [packet?_of_job? hj, packet?_of_job? h, hf job h]

/-- A change to the job that leaves its packet alone keeps the transaction sound. -/
theorem Sound.mapJob (hs : t.Sound) {f : Job → Job}
    (hf : ∀ job, t.job? = some job → (f job).packet = job.packet) : (t.mapJob f).Sound where
  keyed hp := by
    rw [packet?_mapJob hf] at hp
    rw [id_mapJob]
    exact hs.keyed hp
  valid {job'} hj := by
    rw [job?_mapJob] at hj
    obtain ⟨job, hjob, rfl⟩ := Option.map_eq_some_iff.mp hj
    rw [hf job hjob]
    exact hs.valid hjob
  apart {job'} hj := by
    rw [job?_mapJob] at hj
    obtain ⟨job, hjob, rfl⟩ := Option.map_eq_some_iff.mp hj
    rw [parked_mapJob, Job.packetId, hf job hjob]
    exact hs.apart hjob
  filled hl := hs.filled (by rwa [parked_mapJob] at hl)

theorem record?_mapJob_putTask {job : Job} (h : t.job? = some job) (task : TaskRecord)
    (p n : String) :
    (t.mapJob (·.putTask task)).record? p n =
      if p = job.packetId ∧ n = task.name then some (task.overlay (t.record? p n))
      else t.record? p n := by
  have hj : (t.mapJob (·.putTask task)).job? = some (job.putTask task) := by simp [h]
  rw [record?_of_job? hj, record?_of_job? h, parked_mapJob, Job.packetId_putTask]
  by_cases hp : job.packetId = p
  · simp [hp, TaskList.get?_put]
  · simp [hp, Ne.symm hp]

@[simp] theorem job?_park (task : TaskRecord) : (t.park task).job? = t.job? := rfl

theorem parked_park (task : TaskRecord) (p : String) :
    (t.park task).parked[p]? = if task.keys.packetId = p then
      some ((t.parked.getD task.keys.packetId ∅).put task) else t.parked[p]? := by
  simp [park, Std.ExtTreeMap.getElem?_insert]

theorem get?_getD_parked (p n : String) :
    (t.parked.getD p ∅).get? n = t.parked[p]?.bind (·.get? n) := by
  rw [Std.ExtTreeMap.getD_eq_getD_getElem?]
  cases t.parked[p]? <;> simp

theorem record?_park {task : TaskRecord}
    (h : ∀ job, t.job? = some job → job.packetId ≠ task.keys.packetId) (p n : String) :
    (t.park task).record? p n =
      if p = task.keys.packetId ∧ n = task.name then some (task.overlay (t.record? p n))
      else t.record? p n := by
  have hset : (t.park task).parked[p]?.bind (·.get? n) =
      if p = task.keys.packetId ∧ n = task.name then
        some (task.overlay (t.parked[p]?.bind (·.get? n)))
      else t.parked[p]?.bind (·.get? n) := by
    rw [parked_park]
    by_cases hp : task.keys.packetId = p
    · subst hp
      simp [TaskList.get?_put, get?_getD_parked]
    · simp [hp, Ne.symm hp]
  cases hj : t.job? with
  | none => rw [record?_of_no_job (by simpa using hj), record?_of_no_job hj, hset]
  | some job =>
    rw [record?_of_job? (by simpa using hj), record?_of_job? hj, hset]
    by_cases hp : job.packetId = p
    · subst hp
      simp [h job hj]
    · simp [hp]

theorem Sound.park (hs : t.Sound) {task : TaskRecord}
    (h : ∀ job, t.job? = some job → job.packetId ≠ task.keys.packetId) : (t.park task).Sound where
  keyed hp := hs.keyed hp
  valid hj := hs.valid hj
  apart {job} hj := by
    rw [parked_park, if_neg (h job hj).symm]
    exact hs.apart hj
  filled {p l} hl := by
    rw [parked_park] at hl
    split at hl
    · obtain rfl := Option.some.inj hl
      refine Bool.eq_false_iff.mpr fun he => ?_
      have := TaskList.isEmpty_iff.mp he task.name
      simp [TaskList.get?_put] at this
    · exact hs.filled hl

theorem putTask_cases (task : TaskRecord) :
    (∃ job, t.job? = some job ∧ job.packetId = task.keys.packetId ∧
      t.putTask task = t.mapJob (·.putTask task)) ∨
    ((∀ job, t.job? = some job → job.packetId ≠ task.keys.packetId) ∧
      t.putTask task = t.park task) := by
  cases h : t.job? with
  | none => exact .inr ⟨by simp, by simp [putTask, h]⟩
  | some job =>
    by_cases hp : job.packetId = task.keys.packetId
    · exact .inl ⟨job, rfl, hp, by simp [putTask, h, hp]⟩
    · refine .inr ⟨?_, by simp [putTask, h, hp]⟩
      intro job' hj
      cases hj
      exact hp

theorem record?_putTask (task : TaskRecord) (p n : String) :
    (t.putTask task).record? p n =
      if p = task.keys.packetId ∧ n = task.name then some (task.overlay (t.record? p n))
      else t.record? p n := by
  rcases t.putTask_cases task with ⟨job, hj, hp, he⟩ | ⟨h, he⟩
  · rw [he, record?_mapJob_putTask hj, hp]
  · rw [he, record?_park h]

theorem Sound.putTask (hs : t.Sound) (task : TaskRecord) : (t.putTask task).Sound := by
  rcases t.putTask_cases task with ⟨job, hj, hp, he⟩ | ⟨h, he⟩
  · rw [he]
    exact hs.mapJob fun job _ => job.packet_putTask task
  · rw [he]
    exact hs.park h

@[simp] theorem id_putTask (task : TaskRecord) : (t.putTask task).id = t.id := by
  rcases t.putTask_cases task with ⟨job, hj, hp, he⟩ | ⟨h, he⟩ <;> rw [he]
  · simp
  · rfl

/-- Setting aside the tasks of a job that is done with moves them and loses none. -/
theorem get?_retired (hs : t.Sound) (p n : String) :
    t.retired[p]?.bind (·.get? n) = t.record? p n := by
  cases hj : t.job? with
  | none => rw [record?_of_no_job hj]; simp [retired, hj]
  | some job =>
    rw [record?_of_job? hj]
    have hnone := hs.apart hj
    by_cases he : job.tasks.isEmpty = true
    · by_cases hp : job.packetId = p
      · subst hp
        simp [retired, hj, he, hnone, TaskList.isEmpty_iff.mp he n]
      · simp [retired, hj, he, hp]
    · simp only [retired, hj, he, Bool.false_eq_true, if_false, Std.ExtTreeMap.getElem?_insert,
        Std.LawfulEqCmp.compare_eq_iff_eq]
      by_cases hp : job.packetId = p
      · simp [hp, Std.ExtTreeMap.getD_eq_getD_getElem?, hp ▸ hnone]
      · simp [hp]

theorem filled_retired (hs : t.Sound) {p : String} {l : TaskList} (h : t.retired[p]? = some l) :
    l.isEmpty = false := by
  cases hj : t.job? with
  | none => exact hs.filled (p := p) (by simpa [retired, hj] using h)
  | some job =>
    by_cases he : job.tasks.isEmpty = true
    · exact hs.filled (p := p) (by simpa [retired, hj, he] using h)
    · simp only [retired, hj, he, Bool.false_eq_true, if_false, Std.ExtTreeMap.getElem?_insert,
        Std.LawfulEqCmp.compare_eq_iff_eq] at h
      split at h
      · have hnone := hs.apart hj
        simp only [Std.ExtTreeMap.getD_eq_getD_getElem?, hnone, Option.getD_none,
          TaskList.putAll_empty_toList, Option.some.injEq] at h
        subst h
        exact Bool.eq_false_iff.mpr he
      · exact hs.filled h

end Transaction

end SiteBroker
