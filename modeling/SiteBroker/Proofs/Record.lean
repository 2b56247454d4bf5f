import SiteBroker.Proofs.Legible
import SiteBroker.Proofs.Progress
import SiteBroker.Proofs.Transaction
import SiteBroker.Snapshot

/-! What the record of a job tells under each name, and when its text can be read again. -/

namespace SiteBroker

theorem Progress.isLegible_fields {p : Progress}
    (h : ∀ x ∈ p.serviceUnitsAllocated, (Json.ofDouble x).isLegible 126 = true) :
    p.fields.isLegible = true := by
  refine Fields.isLegible_iff.mpr fun name a ha => ?_
  have htold : ∀ e ∈ tellers, ∀ a, e.2 p = some a → a.isLegible 126 = true := by
    simp only [tellers, List.forall_mem_cons, Option.map_eq_some_iff,
      forall_exists_index, and_imp, forall_apply_eq_imp_iff₂]
    simpa [Json.isLegible] using h
  by_cases hn : ∃ f, (name, f) ∈ tellers
  · obtain ⟨f, hf⟩ := hn
    rw [getElem?_fields_of_mem hf] at ha
    exact htold _ hf a ha
  · rw [getElem?_fields_of_notMem (not_exists.mp hn)] at ha
    cases ha

namespace Job

variable {job : Job} {name : String}

theorem name_congr {job' : Job} (h : job'.packet = job.packet) : job'.name = job.name := by
  simp only [Job.name, transactionId, packetId, h]

theorem fields_congr {job' : Job} (h : job'.packet = job.packet) : job'.fields = job.fields := by
  simp only [fields, h]

theorem isSome_fixedFields (job : Job) : (job.fixedFields[name]?).isSome =
    SnapshotBook.fixedNames.contains name := by
  rw [Std.ExtTreeMap.isSome_getElem?_eq_contains]
  exact Std.ExtTreeMap.contains_ofList

theorem isSome_record_of_fixed (h : name ∈ SnapshotBook.fixedNames) (job : Job) :
    (job.record[name]?).isSome = true := by
  have hfixed : (job.fixedFields[name]?).isSome = true := by
    rw [isSome_fixedFields]
    simpa using h
  rw [record, Fields.getElem?_overlay, Option.isSome_or, hfixed, Bool.true_or]

theorem getElem?_record (h : name ∉ SnapshotBook.fixedNames) (job : Job) :
    job.record[name]? = (job.fields.overlay job.progress.fields)[name]? := by
  have hfixed : job.fixedFields[name]? = none := by
    rw [← Option.not_isSome_iff_eq_none, isSome_fixedFields]
    simpa using h
  rw [record, Fields.getElem?_overlay, hfixed, Option.none_or]

/-- What is told of the progress stands in the record, over what the packet tells. -/
theorem getElem?_record_of_mem {f : Progress → Option Json} (h : (name, f) ∈ Progress.tellers)
    (job : Job) : job.record[name]? = (f job.progress).or job.fields[name]? := by
  have hfree : ∀ e ∈ Progress.tellers, e.1 ∉ SnapshotBook.fixedNames := by
    simp [Progress.tellers, SnapshotBook.fixedNames]
  rw [getElem?_record (hfree _ h), Fields.getElem?_overlay, Progress.getElem?_fields_of_mem h]

theorem isLegible_fields (h : job.packet.body.isLegible = true) : job.fields.isLegible = true := by
  unfold fields
  split
  · next items hitems =>
    rw [Fields.isLegible_iff] at h ⊢
    intro name a ha
    rw [Std.ExtTreeMap.getElem?_insert] at ha
    split at ha
    · obtain rfl := Option.some.inj ha
      have hall := Json.areLegible_iff.mp (h _ _ hitems)
      cases items with
      | nil => rfl
      | cons a as => exact Json.isLegible_succ a (hall a (by simp))
    · exact h name a ha
  · exact h

theorem isLegible_taskSummary {t : TaskRecord}
    (h : ∀ p ∈ t.products, p.value.isLegible 122 = true) :
    (taskSummary t).isLegible 125 = true := by
  have hproducts : Json.areLegible 123 (t.products.map Product.toJson) = true := by
    rw [Json.areLegible_iff, List.forall_mem_map]
    intro p hp
    have hnames : ["name", "value"].Pairwise fun k l => compare k l = .lt := by decide
    refine (Json.areEntriesLegible_iff (by exact hnames)).mpr ?_
    simpa [Json.isLegible] using h p hp
  have hnames : ["products", "task_name", "task_state", "timestamp"].Pairwise
      fun k l => compare k l = .lt := by decide
  refine (Json.areEntriesLegible_iff (by exact hnames)).mpr ?_
  simpa [timeText, Json.isLegible] using hproducts

/-- Each number that the record of a job tells can be read again: those of the packet, the units of
service, and what the tasks made. -/
structure Legible (job : Job) : Prop where
  body : job.packet.body.isLegible = true
  units : ∀ x ∈ job.progress.serviceUnitsAllocated, (Json.ofDouble x).isLegible 126 = true
  products : ∀ t ∈ job.tasks.toList, ∀ p ∈ t.products, p.value.isLegible 122 = true

theorem Legible.putTask (h : job.Legible) {t : TaskRecord}
    (ht : ∀ p ∈ t.products, p.value.isLegible 122 = true) : (job.putTask t).Legible where
  body := by rw [packet_putTask]; exact h.body
  units := by rw [progress_putTask]; exact h.units
  products u hu := by
    rw [tasks_putTask] at hu
    rcases TaskList.eq_or_mem_of_mem_put hu with rfl | hu
    · exact ht
    · exact h.products u hu

theorem Legible.withProgress (h : job.Legible) {p : Progress}
    (hu : ∀ x ∈ p.serviceUnitsAllocated, (Json.ofDouble x).isLegible 126 = true) :
    Legible { job with progress := p } :=
  { h with units := hu }

theorem Legible.record (h : job.Legible) : job.record.isLegible = true := by
  have hsummaries : Json.areLegible 125 (job.tasks.inOrder.map taskSummary) = true := by
    rw [Json.areLegible_iff, List.forall_mem_map]
    exact fun t ht => isLegible_taskSummary (h.products t (List.mem_mergeSort.mp ht))
  have hfixed : job.fixedFields.isLegible = true := by
    refine Fields.isLegible_iff.mpr fun name a ha => ?_
    have hm := Fields.mem_of_getElem?_ofList ha
    simp only [List.mem_cons, List.not_mem_nil, Prod.mk.injEq, or_false] at hm
    obtain ⟨-, rfl⟩ | ⟨-, rfl⟩ | ⟨-, rfl⟩ | ⟨-, rfl⟩ | ⟨-, rfl⟩ | ⟨-, rfl⟩ | ⟨-, rfl⟩ |
      ⟨-, rfl⟩ := hm
    all_goals first | rfl | exact hsummaries
  exact Fields.isLegible_overlay
    (Fields.isLegible_overlay (isLegible_fields h.body) (Progress.isLegible_fields h.units)) hfixed

end Job

end SiteBroker
