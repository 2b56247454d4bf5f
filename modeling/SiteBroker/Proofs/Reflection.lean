import SiteBroker.Proofs.Record
import SiteBroker.Proofs.Snapshot

/-! A snapshot that is kept up by partial writes tells what the record of its job tells, as long as
the progress of the job only builds up. -/

namespace SiteBroker

namespace SnapshotBook

open SnapshotFolder

/-- What a record tells beyond the fixed fields is what a packet and some progress tell. -/
def Tells (record body : Fields) (p : Progress) : Prop :=
  ∀ name, name ∉ fixedNames → record[name]? = (body.overlay p.fields)[name]?

/-- The same for a record that was written down, up to equality of values. -/
def Shows (record body : Fields) (p : Progress) : Prop :=
  ∀ name, name ∉ fixedNames → Progress.Apart body name →
    Json.Alike record[name]? (body.overlay p.fields)[name]?

/-- What was written first under a key and what is there now, which shows the progress at the last
write. All that was written has built up to some progress. -/
structure Follows (book : SnapshotBook) (key : String) (body : Fields) (p : Progress)
    (first stored : Fields) (start last : Progress) : Prop where
  known : ∃ id, book.initial[key]? = some (id, first)
  read : book.folder.read key = .ok (some stored)
  legible : stored.isLegible = true
  tells : Tells first body start
  shows : Shows stored body last
  built : start.Builds last
  builds : last.Builds p

/-- The snapshot under a key is that of a job at some progress, or there is none yet. It is a file
of the folder itself, and not that of another key. -/
structure Reflects (book : SnapshotBook) (key : String) (body : Fields) (p : Progress) : Prop where
  complete : book.Complete
  sole : book.Sole key
  inside : book.folder.Inside key
  written : book.initial[key]? = none ∨
    ∃ first stored start last, book.Follows key body p first stored start last

/-- A write is carried out. -/
def Stores (book : SnapshotBook) (job : Job) (full : Bool) : Prop :=
  ∃ folder changed,
    book.folder.update job.name (book.recordToWrite job full) = .ok (folder, changed)

/-- A write is carried out, and what is written can be read again. -/
structure Takes (book : SnapshotBook) (job : Job) (full : Bool) : Prop where
  stored : book.Stores job full
  legible : job.record.isLegible = true

variable {book : SnapshotBook} {job : Job} {full : Bool} {name : String}

/-- What a write leaves out is not in the record, or it is as in the first record. -/
theorem getElem?_recordToWrite (book : SnapshotBook) (job : Job) (full : Bool) (name : String) :
    (book.recordToWrite job full)[name]? = job.record[name]? ∨
    (book.recordToWrite job full)[name]? = none ∧ name ∉ fixedNames ∧ full = false ∧
      ∃ id first a b, book.initial[job.name]? = some (id, first) ∧ job.record[name]? = some a ∧
        first[name]? = some b ∧ a.same b = true := by
  unfold recordToWrite
  split
  · next id first hi =>
    split
    · exact .inl rfl
    · next hfull =>
      rw [partialRecord, Std.ExtTreeMap.getElem?_filter']
      cases ha : job.record[name]? with
      | none => exact .inl rfl
      | some a =>
        cases hw : fixedNames.contains name || !(first[name]?.any (a == ·)) with
        | true => exact .inl (by simp only [Option.filter, hw, if_true])
        | false =>
          obtain ⟨hfixed, hany⟩ := Bool.or_eq_false_iff.mp hw
          obtain ⟨b, hb, hs⟩ := (Option.any_eq_true _ _).mp (by simpa using hany)
          exact .inr ⟨by rw [Option.filter_some, hw]; rfl, by simpa using hfixed,
            by simpa using hfull, id, first, a, b, hi, rfl, hb, hs⟩
  · exact .inl rfl

theorem recordToWrite_full (book : SnapshotBook) (job : Job) :
    book.recordToWrite job true = job.record := by
  unfold recordToWrite
  split <;> rfl

/-- Each write tells what the first record did not tell so. -/
theorem getElem?_recordToWrite_of_news {id : TransactionId} {first : Fields}
    (hi : book.initial[job.name]? = some (id, first))
    (h : ¬ Json.Alike job.record[name]? first[name]?) :
    (book.recordToWrite job full)[name]? = job.record[name]? := by
  rcases getElem?_recordToWrite book job full name with
    hw | ⟨-, -, -, id', first', a, b, hi', ha, hb, hs⟩
  · exact hw
  · obtain ⟨rfl, rfl⟩ := Prod.mk.inj (Option.some.inj (hi.symm.trans hi'))
    rw [ha, hb] at h
    exact absurd (.some hs) h

/-- A partial write does not repeat what the first record told. -/
theorem recordToWrite_eq_none {id : TransactionId} {first : Fields} {a b : Json}
    (hi : book.initial[job.name]? = some (id, first)) (hn : name ∉ fixedNames)
    (ha : job.record[name]? = some a) (hb : first[name]? = some b) (hs : a.same b = true) :
    (book.recordToWrite job false)[name]? = none := by
  have hold : (fixedNames.contains name || !(first[name]?.any (a == ·))) = false := by
    simp only [hb, Option.any_some, Bool.or_eq_false_iff, Bool.not_eq_false']
    exact ⟨by simpa using hn, hs⟩
  simp only [recordToWrite, hi, Bool.false_eq_true, if_false]
  rw [partialRecord, Std.ExtTreeMap.getElem?_filter', ha, Option.filter_some, hold]
  rfl

theorem Takes.isLegible_recordToWrite (h : book.Takes job full) :
    (book.recordToWrite job full).isLegible = true := by
  refine Fields.isLegible_iff.mpr fun name a ha => ?_
  rcases getElem?_recordToWrite book job full name with hw | ⟨hw, -⟩
  · exact Fields.isLegible_iff.mp h.legible name a (hw ▸ ha)
  · simp [hw] at ha

theorem Takes.read_write (h : book.Takes job full)
    (hold : ∀ r, book.folder.read job.name = .ok (some r) → r.isLegible = true) :
    ∃ existing stored, book.folder.read job.name = .ok existing ∧
      (book.write job full).1.folder.read job.name = .ok (some stored) ∧
      stored.same ((existing.getD ∅).overlay (book.recordToWrite job full)) = true ∧
      stored.isLegible = true := by
  obtain ⟨folder, changed, hu⟩ := h.stored
  obtain ⟨existing, he, hread⟩ := read_update hu
  have hbelow : (existing.getD ∅).isLegible = true := by
    cases existing with
    | none => exact Fields.isLegible_iff.mpr (by simp)
    | some r => exact hold r he
  have hmerged := Fields.isLegible_overlay hbelow h.isLegible_recordToWrite
  obtain ⟨stored, hstored, hs, hfrom⟩ := hread hmerged
  refine ⟨existing, stored, he, by simpa only [write, hu] using hstored, hs, ?_⟩
  rcases hfrom with rfl | rfl
  · exact hbelow
  · exact hmerged

/-- The snapshot under a key can be read, and the next one can be written. -/
structure Holds (book : SnapshotBook) (key : String) (first stored : Fields) : Prop where
  files : book.folder.files.isSome = true
  plain : Ordinary (fileName key)
  known : ∃ id, book.initial[key]? = some (id, first)
  read : book.folder.read key = .ok (some stored)
  legible : stored.isLegible = true

theorem stores_of_read (hf : book.folder.files.isSome = true) (hn : Ordinary (fileName job.name))
    {existing : Option Fields} (hr : book.folder.read job.name = .ok existing) (full : Bool) :
    book.Stores job full :=
  update_of_read hf hn hr _

theorem isSome_files_write (hf : book.folder.files.isSome = true) (job : Job) (full : Bool) :
    (book.write job full).1.folder.files.isSome = true :=
  (write_cases book job full).1.folders.isSome.trans hf

/-- The first snapshot under a name tells the record. -/
theorem Complete.fileText_first (h : book.Complete) (hsole : book.Sole job.name)
    (hf : book.folder.files.isSome = true) (hn : Ordinary (fileName job.name))
    (hi : book.initial[job.name]? = none) (full : Bool) : book.Stores job full ∧
    (book.write job full).1.folder.fileText (fileName job.name) =
      .ok (Json.pretty 0 job.record.toJson) := by
  have hr := h.read_eq_none hsole hi hf hn
  have hs := stores_of_read hf hn hr full
  obtain ⟨folder, changed, hu⟩ := hs
  have hfull : book.recordToWrite job full = job.record := by simp [recordToWrite, hi]
  refine ⟨⟨folder, changed, hu⟩, ?_⟩
  obtain ⟨-, existing, he, hcases⟩ := update_cases hu
  obtain rfl : none = existing := Except.ok.inj (hr.symm.trans he)
  rcases hcases with ⟨r, hr', -⟩ | htext
  · cases hr'
  · rw [Option.getD_none, Fields.empty_overlay, hfull] at htext
    simpa only [SnapshotBook.write, hu] using htext

theorem Complete.holds_first (h : book.Complete) (hsole : book.Sole job.name)
    (hf : book.folder.files.isSome = true) (hn : Ordinary (fileName job.name))
    (hi : book.initial[job.name]? = none) (hl : job.record.isLegible = true) (full : Bool) :
    book.Takes job full ∧
    (book.write job full).1.Holds job.name job.record job.record := by
  obtain ⟨hs, htext⟩ := h.fileText_first hsole hf hn hi full
  exact ⟨⟨hs, hl⟩, {
    files := isSome_files_write hf job full
    plain := hn
    known := ⟨job.transactionId, initial_write_first full hi⟩
    read := by simp only [SnapshotFolder.read, htext, Fields.ofJson?_parse?_pretty hl]
    legible := hl }⟩

theorem Holds.write {first old : Fields} (h : book.Holds job.name first old)
    (hl : job.record.isLegible = true) (full : Bool) :
    book.Takes job full ∧ ∃ stored, (book.write job full).1.Holds job.name first stored ∧
      stored.same (old.overlay (book.recordToWrite job full)) = true := by
  have ht : book.Takes job full := ⟨stores_of_read h.files h.plain h.read full, hl⟩
  obtain ⟨existing, stored, he, hstored, hs, hlegible⟩ :=
    ht.read_write fun r hr => Option.some.inj (Except.ok.inj (h.read.symm.trans hr)) ▸ h.legible
  obtain rfl : some old = existing := Except.ok.inj (h.read.symm.trans he)
  obtain ⟨id, hi⟩ := h.known
  exact ⟨ht, stored, {
    files := isSome_files_write h.files job full
    plain := h.plain
    known := ⟨id, initial_write_again full hi⟩
    read := hstored
    legible := hlegible }, hs⟩

section

variable {p : Progress}

theorem Reflects.isLegible_of_read {key : String} {body : Fields} (h : book.Reflects key body p)
    {r : Fields} (hr : book.folder.read key = .ok (some r)) : r.isLegible = true := by
  rcases h.written with hi | ⟨first, stored, start, last, hf⟩
  · exact absurd hr (h.complete.read_ne_some h.sole h.inside hi r)
  · obtain rfl : r = stored := Option.some.inj (Except.ok.inj (hr.symm.trans hf.read))
    exact hf.legible

/-- What a write makes of the snapshot is equal to the record under each name. -/
theorem Reflects.alike_write (h : book.Reflects job.name job.fields p)
    (hbody : Progress.Apart job.fields name) (hk : p.Keeps job.progress)
    (hb : full = false → p.Builds job.progress) {existing : Option Fields}
    (he : book.folder.read job.name = .ok existing) {value : Option Json}
    (hv : Json.Alike value ((existing.getD ∅).overlay (book.recordToWrite job full))[name]?) :
    Json.Alike value job.record[name]? := by
  rw [Fields.getElem?_overlay] at hv
  rcases h.written with hi | ⟨first, old, start, last, hf⟩
  · have hnone : existing = none := by
      cases existing with
      | none => rfl
      | some r => exact absurd he (h.complete.read_ne_some h.sole h.inside hi r)
    have hfull : book.recordToWrite job full = job.record := by simp [recordToWrite, hi]
    simpa [hnone, hfull] using hv
  · obtain rfl : existing = some old := Except.ok.inj (he.symm.trans hf.read)
    obtain ⟨id, hi⟩ := hf.known
    rcases getElem?_recordToWrite book job full name with
      hw | ⟨hw, hn, hfull, id', first', a, b, hi', ha, hb', hs⟩
    · rw [hw] at hv
      cases ha : job.record[name]? with
      | some a => rwa [ha] at hv
      | none =>
        -- No write takes anything away, so nothing may have been told here before.
        rw [ha, Option.none_or] at hv
        have hn : name ∉ fixedNames := fun hn => by
          simpa [ha] using Job.isSome_record_of_fixed hn job
        rw [Job.getElem?_record hn] at ha
        have hlast := (hf.builds.keeps.trans hk).overlay_eq_none ha
        have hshown := hf.shows name hn hbody
        rw [hlast] at hshown
        exact hv.trans hshown
    · -- What is as it was at first has been so all the time: known values do not come back.
      obtain ⟨rfl, rfl⟩ := Prod.mk.inj (Option.some.inj (hi.symm.trans hi'))
      rw [hw, Option.none_or] at hv
      have hreturn : Json.Alike (job.fields.overlay job.progress.fields)[name]?
          (job.fields.overlay start.fields)[name]? := by
        rw [← Job.getElem?_record hn, ← hf.tells name hn, ha, hb']
        exact .some hs
      have hbetween := hf.built.alike_overlay hbody (hf.builds.trans (hb hfull)) hreturn
      rw [← Job.getElem?_record hn] at hbetween
      exact (hv.trans (hf.shows name hn hbody)).trans hbetween

theorem Reflects.write (h : book.Reflects job.name job.fields p) (ht : book.Takes job full)
    (hk : p.Keeps job.progress) (hb : full = false → p.Builds job.progress) :
    ∃ stored, (book.write job full).1.folder.read job.name = .ok (some stored) ∧
      (∀ name, Progress.Apart job.fields name → Json.Alike stored[name]? job.record[name]?) ∧
      (p.Builds job.progress →
        (book.write job full).1.Reflects job.name job.fields job.progress) := by
  obtain ⟨existing, stored, he, hstored, hs, hlegible⟩ :=
    ht.read_write fun r hr => h.isLegible_of_read hr
  have halike : ∀ name, Progress.Apart job.fields name →
      Json.Alike stored[name]? job.record[name]? := fun name hbody =>
    h.alike_write hbody hk hb he (Fields.same_iff.mp hs name)
  refine ⟨stored, hstored, halike, fun hbuilds => ?_⟩
  have hshows : Shows stored job.fields job.progress := fun name hn hbody => by
    rw [← Job.getElem?_record hn]
    exact halike name hbody
  have hfolders := (write_cases book job full).1.folders
  refine ⟨h.complete.write job full, h.sole.write full fun _ => rfl,
    hfolders.inside_iff.mpr h.inside, .inr ?_⟩
  rcases h.written with hi | ⟨first, old, start, last, hf⟩
  · exact ⟨job.record, stored, job.progress, job.progress, {
      known := ⟨job.transactionId, initial_write_first full hi⟩
      read := hstored
      legible := hlegible
      tells := fun name hn => Job.getElem?_record hn job
      shows := hshows
      built := .refl _
      builds := .refl _ }⟩
  · obtain ⟨id, hi⟩ := hf.known
    exact ⟨first, stored, start, job.progress, {
      known := ⟨id, initial_write_again full hi⟩
      read := hstored
      legible := hlegible
      tells := hf.tells
      shows := hshows
      built := (hf.built.trans hf.builds).trans hbuilds
      builds := .refl _ }⟩

variable {key : String} {body : Fields}

theorem Reflects.congr {book' : SnapshotBook} (h : book.Reflects key body p) (hc : book'.Complete)
    (hs : book'.Sole key) (hfolders : SameFolders book.folder book'.folder)
    (hi : book'.initial[key]? = book.initial[key]?)
    (ht : ∀ text, book.folder.fileText (fileName key) = .ok text →
      book'.folder.fileText (fileName key) = .ok text) : book'.Reflects key body p := by
  refine ⟨hc, hs, hfolders.inside_iff.mpr h.inside, ?_⟩
  rw [hi]
  refine h.written.imp_right ?_
  rintro ⟨first, stored, start, last, hf⟩
  exact ⟨first, stored, start, last,
    { hf with known := hi ▸ hf.known, read := read_of_fileText ht hf.read }⟩

theorem Reflects.write_of_ne (h : book.Reflects key body p) (hn : job.name ≠ key)
    (hs : ¬ book.folder.Shares job.name key) (full : Bool) :
    (book.write job full).1.Reflects key body p := by
  obtain ⟨htouches, -⟩ := write_cases book job full
  exact h.congr (h.complete.write job full) (h.sole.write full fun hshares => absurd hshares hs)
    htouches.folders (initial_write_of_ne full hn.symm) fun text ht => htouches.fileText hs ht

theorem Reflects.purge (h : book.Reflects key body p) (id : TransactionId) :
    (book.purge id).Reflects key body p := by
  have hfolders := sameFolders_dropAll (book.keysOf id) book
  have hkeys : ∀ k ∈ book.keysOf id, book.folder.Shares k key → k = key := fun k hk => by
    obtain ⟨first, hfirst⟩ := mem_keysOf.mp hk
    exact h.sole k (by rw [hfirst]; rfl)
  rcases dropAll_cases hkeys with hi | ⟨hi, ht⟩
  · exact ⟨h.complete.purge id, h.sole.purge id, hfolders.inside_iff.mpr h.inside, .inl hi⟩
  · exact h.congr (h.complete.purge id) (h.sole.purge id) hfolders hi ht

theorem Reflects.builds {q : Progress} (h : book.Reflects key body p) (hb : p.Builds q) :
    book.Reflects key body q := by
  refine { h with written := h.written.imp_right ?_ }
  rintro ⟨first, stored, start, last, hf⟩
  exact ⟨first, stored, start, last, { hf with builds := hf.builds.trans hb }⟩

end

end SnapshotBook

end SiteBroker
