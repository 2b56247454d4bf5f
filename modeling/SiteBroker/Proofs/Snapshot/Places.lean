import Mathlib.Data.List.Basic
import Mathlib.Data.String.Basic
import SiteBroker.Snapshot.Folder

/-! Where the files of the folder are. Writing and deleting a file changes the text at one place,
and leaves every name at its place. A name without slashes is one of a file in the folder itself. -/

namespace SiteBroker

theorem FilePlace.path_inj {place place' : FilePlace} :
    place.path = place'.path ↔ place = place' := by
  obtain ⟨way, name⟩ := place
  obtain ⟨way', name'⟩ := place'
  simp [path]

namespace SnapshotFolder

variable {folder folder' folder'' : SnapshotFolder} {place place' : FilePlace}
  {name key text : String} {way way' : List String} {part : String}

/-- The place of a file in the folder itself. -/
def own (folder : SnapshotFolder) (name : String) : FilePlace := ⟨folder.address.way, name⟩

theorem text?_own (folder : SnapshotFolder) (name : String) :
    folder.text? (folder.own name) = folder.files.bind (·[name]?) := by
  simp [text?, own]

theorem isFolder_own (folder : SnapshotFolder) (name : String) :
    folder.isFolder (folder.own name).path = false := by
  have hprefix : (folder.address.way ++ [name]).isPrefixOf folder.address.way = false := by
    rw [← Bool.not_eq_true, List.isPrefixOf_iff_prefix]
    intro h
    have hlength := h.length_le
    simp at hlength
  simp [isFolder, own, FilePlace.path, hprefix]

/-- The folders are the same ones. -/
structure SameFolders (folder folder' : SnapshotFolder) : Prop where
  address : folder'.address = folder.address
  isSome : folder'.files.isSome = folder.files.isSome
  isFolder : ∀ way, folder'.isFolder way = folder.isFolder way

theorem SameFolders.refl (folder : SnapshotFolder) : SameFolders folder folder :=
  ⟨rfl, rfl, fun _ => rfl⟩

theorem SameFolders.trans (h : SameFolders folder folder') (h' : SameFolders folder' folder'') :
    SameFolders folder folder'' :=
  ⟨h'.address.trans h.address, h'.isSome.trans h.isSome,
    fun way => (h'.isFolder way).trans (h.isFolder way)⟩

theorem SameFolders.own (h : SameFolders folder folder') (name : String) :
    folder'.own name = folder.own name := by
  rw [SnapshotFolder.own, h.address]
  rfl

theorem sameFolders_put (h : folder.isFolder place.path = false) (text : String) :
    SameFolders folder (folder.put place text) := by
  unfold put
  split
  · exact ⟨rfl, by simp, fun way => by simp [isFolder]⟩
  · refine ⟨rfl, rfl, fun way => ?_⟩
    by_cases hway : way = place.path
    · subst hway
      unfold isFolder at h ⊢
      split at h <;> simp_all [Neighbour.isFolder]
    · simp [isFolder, Std.ExtTreeMap.getElem?_insert, Ne.symm hway]

theorem sameFolders_remove (h : folder.isFolder place.path = false) :
    SameFolders folder (folder.remove place) := by
  unfold remove
  split
  · exact ⟨rfl, by simp, fun way => by simp [isFolder]⟩
  · refine ⟨rfl, rfl, fun way => ?_⟩
    by_cases hway : way = place.path
    · subst hway
      unfold isFolder at h ⊢
      split at h <;> simp_all
    · simp [isFolder, Std.ExtTreeMap.getElem?_erase, Ne.symm hway]

theorem text?_put (h : place.way = folder.address.way → folder.files.isSome = true)
    (text : String) (place' : FilePlace) :
    (folder.put place text).text? place' =
      if place' = place then some text else folder.text? place' := by
  obtain ⟨way, name⟩ := place
  obtain ⟨way', name'⟩ := place'
  unfold put
  split
  · next hway =>
    obtain rfl : way = folder.address.way := hway
    obtain ⟨files, hfiles⟩ := Option.isSome_iff_exists.mp (h rfl)
    by_cases hway' : way' = folder.address.way
    · subst hway'
      by_cases hname : name' = name
      · simp [text?, hfiles, hname]
      · simp [text?, hfiles, hname, Std.ExtTreeMap.getElem?_insert, Ne.symm hname]
    · simp [text?, hway']
  · next hway =>
    by_cases hplace : (⟨way', name'⟩ : FilePlace) = ⟨way, name⟩
    · cases hplace
      simp_all [text?, Neighbour.text?]
    · have hpath : FilePlace.path ⟨way, name⟩ ≠ FilePlace.path ⟨way', name'⟩ := fun he =>
        hplace (FilePlace.path_inj.mp he.symm)
      simp [text?, hplace, Std.ExtTreeMap.getElem?_insert, hpath]

theorem text?_remove (folder : SnapshotFolder) (place place' : FilePlace) :
    (folder.remove place).text? place' =
      if place' = place then none else folder.text? place' := by
  obtain ⟨way, name⟩ := place
  obtain ⟨way', name'⟩ := place'
  unfold remove
  split
  · next hway =>
    obtain rfl : way = folder.address.way := hway
    by_cases hway' : way' = folder.address.way
    · subst hway'
      by_cases hname : name' = name
      · cases hfiles : folder.files <;> simp [text?, hname]
      · cases hfiles : folder.files <;>
          simp [text?, hfiles, hname, Std.ExtTreeMap.getElem?_erase, Ne.symm hname]
    · simp [text?, hway']
  · next hway =>
    by_cases hplace : (⟨way', name'⟩ : FilePlace) = ⟨way, name⟩
    · cases hplace
      simp_all [text?]
    · have hpath : FilePlace.path ⟨way, name⟩ ≠ FilePlace.path ⟨way', name'⟩ := fun he =>
        hplace (FilePlace.path_inj.mp he.symm)
      simp [text?, hplace, Std.ExtTreeMap.getElem?_erase, hpath]

theorem enter_eq_ok_iff : folder.enter way part = .ok way' ↔
    part.utf8ByteSize ≤ nameLimit ∧ folder.isFolder way' = true ∧ way' = next way part := by
  unfold enter
  split
  · next hlong => simp [Nat.not_le.mpr hlong]
  · next hshort =>
    split
    · next hfolder =>
      simp only [Except.ok.injEq, Nat.not_lt.mp hshort, true_and]
      constructor
      · rintro rfl
        exact ⟨hfolder, rfl⟩
      · rintro ⟨-, rfl⟩
        rfl
    · next hfolder =>
      split <;> simp only [reduceCtorEq, false_iff, not_and] <;> rintro - hway rfl <;>
        exact hfolder hway

theorem SameFolders.enter_all (h : SameFolders folder folder') (parts : List String)
    (way way' : List String) : parts.foldlM folder'.enter way = .ok way' ↔
      parts.foldlM folder.enter way = .ok way' := by
  induction parts generalizing way with
  | nil => rfl
  | cons part parts ih =>
    have hbind : ∀ f : SnapshotFolder, (part :: parts).foldlM f.enter way = .ok way' ↔
        ∃ between, f.enter way part = .ok between ∧ parts.foldlM f.enter between = .ok way' := by
      intro f
      rw [List.foldlM_cons]
      cases f.enter way part <;> simp [bind, Except.bind]
    simp only [hbind, enter_eq_ok_iff, h.isFolder, ih]

/-- What makes a place that of a name. -/
theorem locate_eq_ok_iff : folder.locate name = .ok place ↔
    '\x00' ∉ name.toList ∧ folder.pathSize name ≤ pathLimit ∧
      folder.isFolder (folder.startOf name) = true ∧
      (parts name).dropLast.foldlM folder.enter (folder.startOf name) = .ok place.way ∧
      place.name = (parts name).getLastD "" ∧ place.name ∉ ["", ".", ".."] ∧
      place.name.utf8ByteSize ≤ nameLimit ∧ folder.isFolder place.path = false := by
  obtain ⟨way, last⟩ := place
  unfold locate
  dsimp only [FilePlace.path]
  split
  · next hnull => simp_all
  split
  · next hlong => simp [Nat.not_le.mpr hlong]
  split
  · next hstart => simp_all
  next hnull hshort hstart =>
  split
  · next hways => simp [hways]
  · next hways =>
    simp only [hways]
    grind

theorem SameFolders.locate_iff (h : SameFolders folder folder') :
    folder'.locate name = .ok place ↔ folder.locate name = .ok place := by
  have hstart : folder'.startOf name = folder.startOf name := by
    rw [startOf, startOf, h.address]
  have hsize : folder'.pathSize name = folder.pathSize name := by
    rw [pathSize, pathSize, h.address]
  simp only [locate_eq_ok_iff, hstart, hsize, h.isFolder, h.enter_all]

/-- A file that has a name is in a folder. -/
theorem isFolder_way (h : folder.locate name = .ok place) : folder.isFolder place.way = true := by
  obtain ⟨-, -, hstart, hway, -⟩ := locate_eq_ok_iff.mp h
  generalize folder.startOf name = way at hstart hway
  generalize (parts name).dropLast = names at hway
  induction names generalizing way with
  | nil =>
    obtain rfl : way = place.way := Except.ok.inj hway
    exact hstart
  | cons part names ih =>
    rw [List.foldlM_cons] at hway
    cases hnext : folder.enter way part with
    | error e => simp [hnext, bind, Except.bind] at hway
    | ok between =>
      rw [hnext] at hway
      exact ih between (enter_eq_ok_iff.mp hnext).2.1 hway

theorem isSome_of_locate (h : folder.locate name = .ok place)
    (hway : place.way = folder.address.way) : folder.files.isSome = true := by
  have hfolder := isFolder_way h
  rwa [isFolder, if_pos hway] at hfolder

theorem isFolder_path (h : folder.locate name = .ok place) : folder.isFolder place.path = false :=
  (locate_eq_ok_iff.mp h).2.2.2.2.2.2.2

/-- What comes after the last slash stays at the end. -/
theorem getLastD_parts_append (cs : List Char) {suffix : List Char} (hslash : '/' ∉ suffix) :
    ∃ start, (parts (.ofList (cs ++ suffix))).getLastD "" = .ofList (start ++ suffix) := by
  by_cases hcs : '/' ∈ cs
  · obtain ⟨after, before, hreverse, hafter⟩ :=
      List.eq_append_cons_of_mem (List.mem_reverse.mpr hcs)
    have hsplit : cs = before.reverse ++ '/' :: after.reverse := by
      simpa using congrArg List.reverse hreverse
    have hend : '/' ∉ after.reverse ++ suffix := by simp [hafter, hslash]
    refine ⟨after.reverse, ?_⟩
    rw [parts, String.toList_ofList, hsplit, List.append_assoc, List.cons_append,
      List.splitOn_append_cons_self, List.splitOn_eq_singleton hend]
    simp
  · have hwhole : '/' ∉ cs ++ suffix := by simp [hcs, hslash]
    refine ⟨cs, ?_⟩
    rw [parts, String.toList_ofList, List.splitOn_eq_singleton hwhole]
    simp

/-- The file of a key has the ending of a snapshot, wherever it is. -/
theorem exists_name_eq (h : folder.locate (fileName key) = .ok place) :
    ∃ key', place.name = fileName key' := by
  obtain ⟨-, -, -, -, hname, -⟩ := locate_eq_ok_iff.mp h
  have hending : '/' ∉ ".json".toList := by decide
  obtain ⟨start, hstart⟩ := getLastD_parts_append key.toList hending
  refine ⟨.ofList start, ?_⟩
  have hfile : ∀ cs, String.ofList (cs ++ ".json".toList) = fileName (.ofList cs) := fun cs => by
    simp [fileName]
  rw [hname, ← hfile, ← hstart, hfile, String.ofList_toList]

theorem parts_of_slash_notMem (h : '/' ∉ name.toList) : parts name = [name] := by
  simp [parts, List.splitOn_eq_singleton h]

theorem isAbsolute_eq_false (h : '/' ∉ name.toList) : isAbsolute name = false := by
  unfold isAbsolute
  cases hname : name.toList with
  | nil => rfl
  | cons c cs =>
    have hc : c ≠ '/' := fun he => h (by simp [hname, he])
    simpa using hc

/-- A name without slashes is one in the folder. -/
theorem eq_own_of_locate (h : folder.locate name = .ok place) (hslash : '/' ∉ name.toList) :
    place = folder.own name := by
  obtain ⟨-, -, -, hway, hname, -⟩ := locate_eq_ok_iff.mp h
  rw [parts_of_slash_notMem hslash] at hway hname
  obtain ⟨way, last⟩ := place
  obtain rfl : last = name := hname
  obtain rfl : folder.address.way = way := by
    simpa [startOf, isAbsolute_eq_false hslash, pure, Except.pure] using hway
  rfl

/-- A name that is not too long and not one with a meaning of its own. -/
structure Ordinary (name : String) : Prop where
  slash : '/' ∉ name.toList
  null : '\x00' ∉ name.toList
  short : name.utf8ByteSize ≤ nameLimit
  special : name ∉ ["", ".", ".."]

theorem Ordinary.locate_eq (h : Ordinary name) : folder.locate name =
    if folder.files.isSome then .ok (folder.own name) else .error .notFound := by
  have hroom : ¬ pathLimit < folder.pathSize name := by
    have hroom := folder.address.room
    have hshort := h.short
    simp only [pathSize, isAbsolute_eq_false h.slash, Bool.false_eq_true, if_false]
    omega
  have hstart : folder.startOf name = folder.address.way := by
    simp [startOf, isAbsolute_eq_false h.slash]
  have hfolder : folder.isFolder folder.address.way = folder.files.isSome := by simp [isFolder]
  have hspecial : ¬ name = "" ∧ ¬ name = "." ∧ ¬ name = ".." := by simpa using h.special
  unfold locate
  rw [parts_of_slash_notMem h.slash, hstart, hfolder]
  cases folder.files.isSome with
  | false => simp [h.null, hroom]
  | true =>
    have hfile : folder.isFolder (folder.address.way ++ [name]) = false := isFolder_own folder name
    simp [h.null, hroom, pure, Except.pure, hspecial, Nat.not_lt.mpr h.short, hfile, own]

end SnapshotFolder

end SiteBroker
