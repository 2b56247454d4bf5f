import SiteBroker.Proofs.Legible
import SiteBroker.Proofs.Snapshot.Places
import SiteBroker.Startup

/-! What writing and deleting snapshots does to each file, and to what the book knows of it. Names
with a slash may lead to one file, and then the snapshots of two keys are one. -/

namespace SiteBroker

namespace SnapshotFolder

variable {folder folder' : SnapshotFolder} {place : FilePlace} {key key' name text : String}
  {record : Fields} {changed : Bool}

theorem fileName_inj (h : fileName key = fileName key') : key = key' := by
  have hcs := congrArg String.toList h
  simp only [fileName, String.toList_append, List.append_cancel_right_eq] at hcs
  exact String.toList_injective hcs

theorem fileName_ne_versionName (key : String) : fileName key ≠ versionName := by
  intro h
  have hcs := congrArg (·.toList.reverse[2]?) h
  simp [fileName, versionName] at hcs

theorem fileName_notMem (key : String) : fileName key ∉ ["", ".", ".."] := by
  have hlong : 5 ≤ (fileName key).toList.length := by simp [fileName]
  simp only [List.mem_cons, List.not_mem_nil, or_false]
  rintro (he | he | he) <;> simp [he] at hlong

theorem own_fileName_inj : folder.own (fileName key) = folder.own (fileName key') ↔ key = key' :=
  ⟨fun h => fileName_inj (congrArg FilePlace.name h), fun h => h ▸ rfl⟩

theorem own_fileName_ne (folder : SnapshotFolder) (key : String) :
    folder.own (fileName key) ≠ folder.own versionName := fun h =>
  fileName_ne_versionName key (congrArg FilePlace.name h)

theorem isSome_key?_fileName (key : String) : (key? (fileName key)).isSome = true := by
  simp [key?, fileName]

/-- Whether the folder has a snapshot of a key. -/
def has (folder : SnapshotFolder) (key : String) : Bool :=
  (folder.text? (folder.own (fileName key))).isSome

theorem fileText_eq_ok_iff : folder.fileText name = .ok text ↔
    ∃ place, folder.locate name = .ok place ∧ folder.text? place = some text := by
  unfold fileText
  cases folder.locate name with
  | error e => simp
  | ok place => cases h : folder.text? place <;> simp [h]

theorem Ordinary.fileText_eq (h : Ordinary name) (hf : folder.files.isSome = true) :
    folder.fileText name = match folder.text? (folder.own name) with
      | some text => .ok text
      | none => .error .notFound := by
  have hplace : folder.locate name = .ok (folder.own name) := by rw [h.locate_eq, if_pos hf]
  unfold fileText
  cases ht : folder.text? (folder.own name) <;> simp [hplace, ht]

theorem ordinary_versionName : Ordinary versionName :=
  ⟨by decide, by decide, by decide, by decide⟩

theorem bump_eq (folder : SnapshotFolder) : folder.bump = if folder.files.isSome then
    folder.put (folder.own versionName) (Nat.repr (folder.version + 1)) else folder := by
  unfold bump putFile
  rw [ordinary_versionName.locate_eq]
  cases folder.files.isSome <;> rfl

theorem sameFolders_bump (folder : SnapshotFolder) : SameFolders folder folder.bump := by
  rw [bump_eq]
  split
  · exact sameFolders_put (isFolder_own folder versionName) _
  · exact .refl folder

theorem text?_bump (h : place ≠ folder.own versionName) :
    folder.bump.text? place = folder.text? place := by
  rw [bump_eq]
  split
  · next hf => rw [text?_put fun _ => hf, if_neg h]
  · rfl

/-- The file of a key is one of the folder itself. -/
def Inside (folder : SnapshotFolder) (key : String) : Prop :=
  ∃ name, folder.locate (fileName key) = .ok (folder.own name)

/-- Two keys have one file. -/
def Shares (folder : SnapshotFolder) (key key' : String) : Prop :=
  ∃ place, folder.locate (fileName key) = .ok place ∧ folder.locate (fileName key') = .ok place

theorem SameFolders.inside_iff (h : SameFolders folder folder') :
    folder'.Inside key ↔ folder.Inside key := by
  simp only [Inside, h.own, h.locate_iff]

theorem SameFolders.shares_iff (h : SameFolders folder folder') :
    folder'.Shares key key' ↔ folder.Shares key key' := by
  simp only [Shares, h.locate_iff]

theorem slash_notMem_fileName (h : '/' ∉ key.toList) : '/' ∉ (fileName key).toList := by
  simpa [fileName] using h

/-- Keys without slashes do not get into each other's way. -/
theorem eq_of_shares (h : folder.Shares key key') (hk : '/' ∉ key.toList)
    (hk' : '/' ∉ key'.toList) : key = key' := by
  obtain ⟨place, hplace, hplace'⟩ := h
  have hown := eq_own_of_locate hplace (slash_notMem_fileName hk)
  exact own_fileName_inj.mp (hown.symm.trans (eq_own_of_locate hplace' (slash_notMem_fileName hk')))

/-- At most the file of one key has changed, and the number of changes. -/
structure Touches (folder folder' : SnapshotFolder) (key : String) : Prop where
  folders : SameFolders folder folder'
  others : ∀ place, place ≠ folder.own versionName →
    folder.locate (fileName key) ≠ .ok place → folder'.text? place = folder.text? place

theorem Touches.refl (folder : SnapshotFolder) (key : String) : Touches folder folder key :=
  ⟨.refl folder, fun _ _ _ => rfl⟩

theorem Touches.bump (h : Touches folder folder' key) : Touches folder folder'.bump key := by
  refine ⟨h.folders.trans (sameFolders_bump folder'), fun place hplace hkey => ?_⟩
  rw [text?_bump (by rwa [h.folders.own])]
  exact h.others place hplace hkey

theorem touches_putFile (h : folder.putFile (fileName key) text = .ok folder') :
    Touches folder folder' key ∧ ∃ place, folder.locate (fileName key) = .ok place ∧
      folder'.text? place = some text := by
  unfold putFile at h
  split at h <;> cases h
  next place hplace =>
  have htext := text?_put (isSome_of_locate hplace) text
  refine ⟨⟨sameFolders_put (isFolder_path hplace) text, fun other hother hkey => ?_⟩,
    place, hplace, by rw [htext, if_pos rfl]⟩
  rw [htext, if_neg fun he : other = place => hkey (he ▸ hplace)]

/-- The file of a key does not count the changes. -/
theorem ne_own_versionName (h : folder.locate (fileName key) = .ok place) :
    place ≠ folder'.own versionName := by
  obtain ⟨key', hname⟩ := exists_name_eq h
  intro he
  rw [he] at hname
  exact fileName_ne_versionName key' hname.symm

theorem Touches.fileText (h : Touches folder folder' key) (hs : ¬ folder.Shares key key')
    (ht : folder.fileText (fileName key') = .ok text) :
    folder'.fileText (fileName key') = .ok text := by
  obtain ⟨place, hplace, hsome⟩ := fileText_eq_ok_iff.mp ht
  refine fileText_eq_ok_iff.mpr ⟨place, h.folders.locate_iff.mpr hplace, ?_⟩
  rw [h.others place (ne_own_versionName hplace) fun he => hs ⟨place, he, hplace⟩, hsome]

theorem read_of_fileText {r : Fields}
    (h : ∀ text, folder.fileText (fileName key) = .ok text →
      folder'.fileText (fileName key) = .ok text)
    (hr : folder.read key = .ok (some r)) : folder'.read key = .ok (some r) := by
  unfold read at hr ⊢
  split at hr
  · cases hr
  · cases hr
  · next text ht =>
    rw [h text ht]
    exact hr

theorem read_ne_some (h : ∀ text, folder.fileText (fileName key) ≠ .ok text) (r : Fields) :
    folder.read key ≠ .ok (some r) := by
  unfold read
  split
  · simp
  · simp
  · next text ht => exact absurd ht (h text)

/-- An update lays the record over what is there, and writes that down unless nothing changes. -/
theorem update_cases (h : folder.update key record = .ok (folder', changed)) :
    Touches folder folder' key ∧ ∃ existing, folder.read key = .ok existing ∧
      ((∃ r, existing = some r ∧ ((existing.getD ∅).overlay record).same r = true ∧
        folder' = folder) ∨
      folder'.fileText (fileName key) =
        .ok (Json.pretty 0 ((existing.getD ∅).overlay record).toJson)) := by
  unfold update at h
  split at h
  · cases h
  · next existing he =>
    dsimp only at h
    split at h
    · next hs =>
      cases h
      obtain ⟨r, rfl, hr⟩ := (Option.any_eq_true _ _).mp hs
      exact ⟨.refl folder key, _, he, .inl ⟨r, rfl, hr, rfl⟩⟩
    · split at h <;> cases h
      next written hput =>
      obtain ⟨htouches, place, hplace, htext⟩ := touches_putFile hput
      refine ⟨htouches.bump, existing, he, .inr (fileText_eq_ok_iff.mpr ⟨place, ?_, ?_⟩)⟩
      · exact htouches.bump.folders.locate_iff.mpr hplace
      · rw [text?_bump (ne_own_versionName hplace), htext]

/-- What is there after an update is the record laid over what was there, or else just that if it
tells the same. -/
theorem read_update (h : folder.update key record = .ok (folder', changed)) :
    ∃ existing, folder.read key = .ok existing ∧
      (((existing.getD ∅).overlay record).isLegible = true →
        ∃ stored, folder'.read key = .ok (some stored) ∧
          stored.same ((existing.getD ∅).overlay record) = true ∧
          (existing = some stored ∨ stored = (existing.getD ∅).overlay record)) := by
  obtain ⟨-, existing, he, hcases⟩ := update_cases h
  refine ⟨existing, he, fun hl => ?_⟩
  rcases hcases with ⟨r, rfl, hs, rfl⟩ | htext
  · exact ⟨r, he, Fields.same_symm hs, .inl rfl⟩
  · refine ⟨_, ?_, Fields.same_self hl, .inr rfl⟩
    simp only [read, htext, Fields.ofJson?_parse?_pretty hl]

/-- After an update that succeeds there is a snapshot. -/
theorem exists_fileText_update (h : folder.update key record = .ok (folder', changed)) :
    ∃ text, folder'.fileText (fileName key) = .ok text := by
  obtain ⟨-, existing, he, ⟨r, rfl, -, rfl⟩ | htext⟩ := update_cases h
  · by_contra hnone
    exact read_ne_some (not_exists.mp hnone) r he
  · exact ⟨_, htext⟩

/-- A record can be laid over whatever can be read, if the folder is there and the key gives the
name of a file. -/
theorem update_of_read (hf : folder.files.isSome = true) (hn : Ordinary (fileName key))
    {existing : Option Fields} (hr : folder.read key = .ok existing) (record : Fields) :
    ∃ folder' changed, folder.update key record = .ok (folder', changed) := by
  simp only [update, hr, putFile, hn.locate_eq, hf, if_true]
  split <;> exact ⟨_, _, rfl⟩

/-- Deleting takes the file of the key away, if there is one. -/
theorem delete_cases (h : folder.delete key = .ok (folder', changed)) :
    Touches folder folder' key ∧
      ∀ place, folder.locate (fileName key) = .ok place → folder'.text? place = none := by
  unfold delete at h
  split at h
  · next hplace =>
    cases h
    exact ⟨.refl folder key, fun place he => by cases hplace.symm.trans he⟩
  · cases h
  · next place hplace =>
    have hgone : ∀ other, folder.locate (fileName key) = .ok other → other = place :=
      fun other he => Except.ok.inj (he.symm.trans hplace)
    split at h <;> cases h
    · have hremove : Touches folder (folder.remove place) key := by
        refine ⟨sameFolders_remove (isFolder_path hplace), fun other hother hkey => ?_⟩
        rw [text?_remove, if_neg fun he : other = place => hkey (he ▸ hplace)]
      refine ⟨hremove.bump, fun other he => ?_⟩
      obtain rfl := hgone other he
      rw [text?_bump (ne_own_versionName hplace), text?_remove, if_pos rfl]
    · next hnone =>
      refine ⟨.refl folder key, fun other he => ?_⟩
      obtain rfl := hgone other he
      exact hnone

/-- What cannot be deleted is not there. -/
theorem locate_of_delete_error {e : FileError} (h : folder.delete key = .error e) :
    ∃ e', folder.locate (fileName key) = .error e' := by
  unfold delete at h
  split at h
  · cases h
  · next e' _ hplace => exact ⟨_, hplace⟩
  · split at h <;> cases h

/-- What was there before is cleared away when the folder is opened. -/
theorem has_reopen (folder : SnapshotFolder) (key : String) : folder.reopen.has key = false := by
  rw [has, reopen, (sameFolders_bump _).own, text?_bump (own_fileName_ne _ key)]
  have hkey := isSome_key?_fileName key
  simp [text?_own, Option.isNone_eq_false_iff.mpr hkey]

end SnapshotFolder

namespace SnapshotBook

open SnapshotFolder

variable {book : SnapshotBook} {key key' : String} {job : Job}

/-- Each snapshot in the folder is the file of a key that the book knows. -/
def Complete (book : SnapshotBook) : Prop :=
  ∀ key, book.folder.has key = true → ∃ known, (book.initial[known]?).isSome = true ∧
    book.folder.locate (fileName known) = .ok (book.folder.own (fileName key))

/-- No other key that the book knows has the file of the key. -/
def Sole (book : SnapshotBook) (key : String) : Prop :=
  ∀ known, (book.initial[known]?).isSome = true → book.folder.Shares known key → known = key

/-- What the book does not know is not there. -/
theorem Complete.fileText_ne (h : book.Complete) (hs : book.Sole key)
    (hin : book.folder.Inside key) (hi : book.initial[key]? = none) (text : String) :
    book.folder.fileText (fileName key) ≠ .ok text := by
  intro ht
  obtain ⟨place, hplace, hsome⟩ := fileText_eq_ok_iff.mp ht
  obtain ⟨name, hown⟩ := hin
  obtain rfl := Except.ok.inj (hplace.symm.trans hown)
  obtain ⟨key', hname⟩ := exists_name_eq hplace
  obtain rfl : name = fileName key' := hname
  obtain ⟨known, hknown, hshared⟩ := h key' (by rw [has, hsome]; rfl)
  obtain rfl := hs known hknown ⟨_, hshared, hplace⟩
  rw [hi] at hknown
  cases hknown

theorem Complete.read_ne_some (h : book.Complete) (hs : book.Sole key)
    (hin : book.folder.Inside key) (hi : book.initial[key]? = none) (r : Fields) :
    book.folder.read key ≠ .ok (some r) :=
  SnapshotFolder.read_ne_some (h.fileText_ne hs hin hi) r

/-- That a snapshot is not there can be found out. -/
theorem Complete.read_eq_none (h : book.Complete) (hs : book.Sole key)
    (hi : book.initial[key]? = none) (hf : book.folder.files.isSome = true)
    (hn : Ordinary (fileName key)) : book.folder.read key = .ok none := by
  have hmissing := h.fileText_ne hs ⟨fileName key, by rw [hn.locate_eq, if_pos hf]⟩ hi
  rw [hn.fileText_eq hf] at hmissing
  rw [SnapshotFolder.read, hn.fileText_eq hf]
  cases htext : book.folder.text? (book.folder.own (fileName key)) with
  | none => rfl
  | some text => simp [htext] at hmissing

theorem complete_opened (folder : SnapshotFolder) : (opened folder).Complete := fun key h =>
  absurd h (by simp [opened, has_reopen])

theorem sole_opened (folder : SnapshotFolder) (key : String) : (opened folder).Sole key :=
  fun known h => absurd h (by simp [opened])

theorem initial_write (book : SnapshotBook) (job : Job) (full : Bool) :
    (book.write job full).1.initial =
      book.initial.insertIfNew job.name (job.transactionId, job.record) := by
  simp only [write]
  split <;> rfl

theorem initial_write_first (full : Bool) (h : book.initial[job.name]? = none) :
    (book.write job full).1.initial[job.name]? = some (job.transactionId, job.record) := by
  rw [initial_write, Std.ExtTreeMap.getElem?_insertIfNew,
    if_pos ⟨Std.ReflCmp.compare_self, by simpa using h⟩]

theorem initial_write_again {first : TransactionId × Fields} (full : Bool)
    (h : book.initial[job.name]? = some first) :
    (book.write job full).1.initial[job.name]? = some first := by
  rw [initial_write, Std.ExtTreeMap.getElem?_insertIfNew, if_neg fun hnew => ?_, h]
  simp [← Std.ExtTreeMap.isSome_getElem?_iff_mem, h] at hnew

theorem initial_write_of_ne (full : Bool) (h : key ≠ job.name) :
    (book.write job full).1.initial[key]? = book.initial[key]? := by
  rw [initial_write, Std.ExtTreeMap.getElem?_insertIfNew, if_neg]
  simp [Ne.symm h]

theorem isSome_initial_write_iff (full : Bool) :
    ((book.write job full).1.initial[key]?).isSome = true ↔
      key = job.name ∨ (book.initial[key]?).isSome = true := by
  by_cases hk : key = job.name
  · simp [initial_write, hk]
  · simp [initial_write_of_ne full hk, hk]

/-- A write changes at most the file of its job, which is there afterwards if that can be. -/
theorem write_cases (book : SnapshotBook) (job : Job) (full : Bool) :
    Touches book.folder (book.write job full).1.folder job.name ∧
      ((∃ text, (book.write job full).1.folder.fileText (fileName job.name) = .ok text) ∨
        ∃ e, (book.write job full).2.2 = .error e) := by
  simp only [write]
  split
  · next hu => exact ⟨(update_cases hu).1, .inl (exists_fileText_update hu)⟩
  · next e _ => exact ⟨.refl _ _, .inr ⟨e, rfl⟩⟩

theorem Complete.write (h : book.Complete) (job : Job) (full : Bool) :
    (book.write job full).1.Complete := by
  intro key hk
  obtain ⟨htouches, -⟩ := write_cases book job full
  have hfolders := htouches.folders
  rw [has, hfolders.own] at hk
  simp only [isSome_initial_write_iff, hfolders.locate_iff, hfolders.own]
  by_cases hjob : book.folder.locate (fileName job.name) = .ok (book.folder.own (fileName key))
  · exact ⟨job.name, .inl rfl, hjob⟩
  · rw [htouches.others _ (own_fileName_ne _ key) hjob] at hk
    obtain ⟨known, hknown, hplace⟩ := h key hk
    exact ⟨known, .inr hknown, hplace⟩

theorem Sole.write (h : book.Sole key) (full : Bool)
    (hjob : book.folder.Shares job.name key → job.name = key) :
    (book.write job full).1.Sole key := by
  intro known hknown hshares
  rw [(write_cases book job full).1.folders.shares_iff] at hshares
  rcases (isSome_initial_write_iff full).mp hknown with rfl | hknown
  · exact hjob hshares
  · exact h known hknown hshares

theorem initial_drop (book : SnapshotBook) (key : String) :
    (book.drop key).initial = book.initial.erase key := by
  simp only [drop]
  split <;> rfl

theorem isSome_initial_drop_iff : ((book.drop key).initial[key']?).isSome = true ↔
    key' ≠ key ∧ (book.initial[key']?).isSome = true := by
  rw [initial_drop, Std.ExtTreeMap.getElem?_erase]
  by_cases hk : key = key'
  · simp [hk]
  · simp [hk, Ne.symm hk]

/-- Dropping a key takes its file away, and no other one. -/
theorem drop_cases (book : SnapshotBook) (key : String) :
    Touches book.folder (book.drop key).folder key ∧
      ∀ place, book.folder.locate (fileName key) = .ok place →
        (book.drop key).folder.text? place = none := by
  simp only [drop]
  split
  · next hd => exact delete_cases hd
  · next e hd =>
    obtain ⟨e', hplace⟩ := locate_of_delete_error hd
    exact ⟨.refl _ _, fun place he => by cases hplace.symm.trans he⟩

theorem Complete.drop (h : book.Complete) (key : String) : (book.drop key).Complete := by
  intro key' hk
  obtain ⟨htouches, hgone⟩ := drop_cases book key
  have hfolders := htouches.folders
  rw [has, hfolders.own] at hk
  simp only [isSome_initial_drop_iff, hfolders.locate_iff, hfolders.own]
  have hkey : book.folder.locate (fileName key) ≠ .ok (book.folder.own (fileName key')) :=
    fun he => by simp [hgone _ he] at hk
  rw [htouches.others _ (own_fileName_ne _ key') hkey] at hk
  obtain ⟨known, hknown, hplace⟩ := h key' hk
  exact ⟨known, ⟨fun he => hkey (he ▸ hplace), hknown⟩, hplace⟩

theorem Sole.drop (h : book.Sole key) (key' : String) : (book.drop key').Sole key := by
  intro known hknown hshares
  rw [(drop_cases book key').1.folders.shares_iff] at hshares
  exact h known (isSome_initial_drop_iff.mp hknown).2 hshares

theorem mem_keysOf {id : TransactionId} : key ∈ book.keysOf id ↔
    ∃ first, book.initial[key]? = some (id, first) := by
  simp only [keysOf, List.mem_map, List.mem_filter, beq_iff_eq]
  constructor
  · rintro ⟨⟨k, i, first⟩, ⟨hm, rfl⟩, rfl⟩
    exact ⟨first, Std.ExtTreeMap.mem_toList_iff_getElem?_eq_some.mp hm⟩
  · rintro ⟨first, h⟩
    exact ⟨(key, id, first), ⟨Std.ExtTreeMap.mem_toList_iff_getElem?_eq_some.mpr h, rfl⟩, rfl⟩

theorem sameFolders_dropAll (keys : List String) (book : SnapshotBook) :
    SameFolders book.folder (keys.foldl drop book).folder := by
  induction keys generalizing book with
  | nil => exact .refl _
  | cons key keys ih => exact (drop_cases book key).1.folders.trans (ih (book.drop key))

/-- A snapshot that shares its file with no other key is forgotten with its transaction, or it stays
as it is. -/
theorem dropAll_cases {keys : List String}
    (hkeys : ∀ k ∈ keys, book.folder.Shares k key → k = key) :
    (keys.foldl drop book).initial[key]? = none ∨
    (keys.foldl drop book).initial[key]? = book.initial[key]? ∧
      ∀ text, book.folder.fileText (fileName key) = .ok text →
        (keys.foldl drop book).folder.fileText (fileName key) = .ok text := by
  induction keys generalizing book with
  | nil => exact .inr ⟨rfl, fun _ ht => ht⟩
  | cons k keys ih =>
    rw [List.foldl_cons]
    obtain ⟨htouches, -⟩ := drop_cases book k
    have hrest : ∀ k' ∈ keys, (book.drop k).folder.Shares k' key → k' = key := fun k' hk' => by
      rw [htouches.folders.shares_iff]
      exact hkeys k' (List.mem_cons_of_mem k hk')
    by_cases hk : k = key
    · have herased : (book.drop k).initial[key]? = none := by
        rw [initial_drop, hk]
        simp
      rcases ih hrest with h | ⟨hi, -⟩
      · exact .inl h
      · exact .inl (hi.trans herased)
    · have hi : (book.drop k).initial[key]? = book.initial[key]? := by
        rw [initial_drop, Std.ExtTreeMap.getElem?_erase, if_neg (by simpa using hk)]
      rw [← hi]
      refine (ih hrest).imp_right (And.imp_right fun hkept text ht => hkept text ?_)
      exact htouches.fileText (fun hshares => hk (hkeys k (by simp) hshares)) ht

theorem Complete.purge (h : book.Complete) (id : TransactionId) : (book.purge id).Complete := by
  unfold SnapshotBook.purge
  induction book.keysOf id generalizing book with
  | nil => exact h
  | cons key keys ih => exact ih (h.drop key)

theorem Sole.purge (h : book.Sole key) (id : TransactionId) : (book.purge id).Sole key := by
  unfold SnapshotBook.purge
  induction book.keysOf id generalizing book with
  | nil => exact h
  | cons key' keys ih => exact ih (h.drop key')

end SnapshotBook

end SiteBroker
