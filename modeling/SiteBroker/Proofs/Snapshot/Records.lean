import Mathlib.Data.List.TakeWhile
import SiteBroker.Proofs.Snapshot.Files
import SiteBroker.Proofs.Split

/-! The folder as a map of records: what it holds under a key is what was laid over each other
since the key was last deleted. -/

namespace SiteBroker

namespace Fields

variable {a b c upper : Fields}

theorem same_trans (h : a.same b = true) (h' : b.same c = true) : a.same c = true :=
  Json.sameEntries_trans h h'

theorem same_overlay (h : a.same b = true) (hu : upper.isLegible = true) :
    (a.overlay upper).same (b.overlay upper) = true := by
  refine same_iff.mpr fun name => ?_
  rw [getElem?_overlay, getElem?_overlay]
  have hupper := same_iff.mp (same_self hu) name
  cases hn : upper[name]? with
  | some x =>
    rw [hn] at hupper
    exact hupper
  | none => exact same_iff.mp h name

/-- Two records are both missing, or they are equal. -/
abbrev Alike : Option Fields → Option Fields → Prop := Option.Rel fun a b => a.same b = true

theorem Alike.symm {a b : Option Fields} (h : Alike a b) : Alike b a := by
  cases h with
  | some h => exact .some (same_symm h)
  | none => exact .none

theorem Alike.trans {a b c : Option Fields} (h : Alike a b) (h' : Alike b c) : Alike a c := by
  cases h with
  | some h =>
    cases h' with
    | some h' => exact .some (same_trans h h')
  | none => exact h'

theorem Alike.isSome_eq {a b : Option Fields} (h : Alike a b) : a.isSome = b.isSome := by
  cases h <;> rfl

theorem Alike.overlay {a b : Option Fields} (h : Alike a b) (hu : upper.isLegible = true) :
    ((a.getD ∅).overlay upper).same ((b.getD ∅).overlay upper) = true := by
  cases h with
  | some h => exact same_overlay h hu
  | none => exact same_self (by simpa [empty_overlay] using hu)

end Fields

namespace SnapshotFolder

/-- Something that is asked of the folder: to lay a record over the snapshot of a key, or to delete
that. -/
inductive Edit where
  | update (key : String) (record : Fields)
  | delete (key : String)

namespace Edit

def key : Edit → String
  | .update key _ => key
  | .delete key => key

def deletes (key : String) : Edit → Bool
  | .update _ _ => false
  | .delete k => k == key

/-- The record that is given for a key. -/
def record? (key : String) : Edit → Option Fields
  | .update k record => if k = key then some record else none
  | .delete _ => none

end Edit

def edit (folder : SnapshotFolder) : Edit → Except FileError (SnapshotFolder × Bool)
  | .update key record => folder.update key record
  | .delete key => folder.delete key

/-- Edits one after another with their answers, as long as none fails. -/
def editAll (folder : SnapshotFolder) (edits : List Edit) :
    Except FileError (SnapshotFolder × List Bool) :=
  edits.foldlM (fun (folder, answers) e => do
    let (folder, answer) ← folder.edit e
    pure (folder, answers ++ [answer])) (folder, [])

/-- The records given for a key since it was last deleted. -/
def recordsOf (edits : List Edit) (key : String) : List Fields :=
  (edits.reverse.takeWhile (!·.deletes key)).reverse.filterMap (·.record? key)

/-- Records laid over each other, nothing if there are none. -/
def merged? : List Fields → Option Fields
  | [] => none
  | record :: more => some (more.foldl Fields.overlay record)

/-- What edits leave under a key. -/
def content (edits : List Edit) (key : String) : Option Fields := merged? (recordsOf edits key)

section

variable {edits : List Edit} {e : Edit} {key : String} {record : Fields}

theorem content_concat_update (edits : List Edit) (key : String) (record : Fields) :
    content (edits ++ [.update key record]) key =
      some (((content edits key).getD ∅).overlay record) := by
  have hrecords :
      recordsOf (edits ++ [.update key record]) key = recordsOf edits key ++ [record] := by
    simp [recordsOf, Edit.deletes, Edit.record?]
  rw [content, content, hrecords]
  cases recordsOf edits key with
  | nil => simp [merged?, Fields.empty_overlay]
  | cons first more => simp [merged?]

theorem content_concat_delete (edits : List Edit) (key : String) :
    content (edits ++ [.delete key]) key = none := by
  simp [content, recordsOf, Edit.deletes, merged?]

theorem content_concat_of_ne (edits : List Edit) (h : e.key ≠ key) :
    content (edits ++ [e]) key = content edits key := by
  have hkept : e.deletes key = false ∧ e.record? key = none := by
    cases e <;> simpa [Edit.deletes, Edit.record?, Edit.key] using h
  simp [content, recordsOf, hkept]

end

/-- A key that, with its ending, can be the name of a file. -/
structure Usable (key : String) : Prop where
  slash : '/' ∉ key.toList
  null : '\x00' ∉ key.toList
  short : (fileName key).utf8ByteSize ≤ nameLimit

theorem Usable.ordinary {key : String} (h : Usable key) : Ordinary (fileName key) where
  slash := by simpa [fileName] using h.slash
  null := by simpa [fileName] using h.null
  short := h.short
  special := fileName_notMem key

/-- The folder holds under each key what edits leave there. -/
structure Holds (folder : SnapshotFolder) (edits : List Edit) : Prop where
  isOpen : folder.files.isSome = true
  reads : ∀ key, Usable key → ∃ stored, folder.read key = .ok stored ∧
    Fields.Alike stored (content edits key) ∧ ∀ r ∈ stored, r.isLegible = true
  has_eq : ∀ key, folder.has key = (content edits key).isSome

variable {folder : SnapshotFolder} {edits : List Edit} {key : String} {record : Fields}

theorem Usable.read_eq (hk : Usable key) (hf : folder.files.isSome = true) :
    folder.read key = match folder.text? (folder.own (fileName key)) with
      | some text => match (Json.parse? text).bind Fields.ofJson? with
        | some record => .ok (some record)
        | none => .error .invalidData
      | none => .ok none := by
  rw [read, hk.ordinary.fileText_eq hf]
  cases folder.text? (folder.own (fileName key)) <;> rfl

theorem update_eq {existing : Option Fields} (hf : folder.files.isSome = true) (hk : Usable key)
    (hr : folder.read key = .ok existing) (record : Fields) :
    folder.update key record =
      if existing.any (Fields.same ((existing.getD ∅).overlay record)) then .ok (folder, false)
      else .ok ((folder.put (folder.own (fileName key))
        (Json.pretty 0 ((existing.getD ∅).overlay record).toJson)).bump, true) := by
  simp only [update, hr, putFile, hk.ordinary.locate_eq, hf, if_true]

theorem delete_eq (hf : folder.files.isSome = true) (hk : Usable key) : folder.delete key =
    if folder.has key then .ok ((folder.remove (folder.own (fileName key))).bump, true)
    else .ok (folder, false) := by
  simp only [delete, has, hk.ordinary.locate_eq, hf, if_true]
  split <;> simp_all

theorem Holds.keep (h : folder.Holds edits) {e : Edit}
    (he : Fields.Alike (content edits e.key) (content (edits ++ [e]) e.key)) :
    folder.Holds (edits ++ [e]) where
  isOpen := h.isOpen
  reads key hk := by
    obtain ⟨stored, hread, halike, hleg⟩ := h.reads key hk
    refine ⟨stored, hread, ?_, hleg⟩
    by_cases hkey : e.key = key
    · subst hkey
      exact halike.trans he
    · rwa [content_concat_of_ne edits hkey]
  has_eq key := by
    rw [h.has_eq]
    by_cases hkey : e.key = key
    · subst hkey
      exact he.isSome_eq
    · rw [content_concat_of_ne edits hkey]

/-- An edit that writes or deletes the one file it is about, and counts that. -/
theorem Holds.change (h : folder.Holds edits) {e : Edit} (he : e.key = key)
    {folder' : SnapshotFolder} (hfolders : SameFolders folder folder')
    (hother : ∀ name ≠ fileName key,
      folder'.text? (folder.own name) = folder.text? (folder.own name))
    (hhas : folder'.has key = (content (edits ++ [e]) key).isSome)
    (hread : ∃ stored, folder'.read key = .ok stored ∧
      Fields.Alike stored (content (edits ++ [e]) key) ∧ ∀ r ∈ stored, r.isLegible = true) :
    folder'.bump.Holds (edits ++ [e]) ∧
      folder'.bump.version = (folder.version + 1) % UInt64.size := by
  have hopen : folder'.files.isSome = true := hfolders.isSome.trans h.isOpen
  have hbumped : folder'.bump.files.isSome = true := isSome_files_bump.trans hopen
  have hkept : ∀ k ≠ key, folder'.text? (folder.own (fileName k)) =
      folder.text? (folder.own (fileName k)) ∧ content (edits ++ [e]) k = content edits k :=
    fun k hne => ⟨hother _ fun hn => hne (fileName_inj hn),
      content_concat_of_ne edits fun hk => hne (hk.symm.trans he)⟩
  refine ⟨⟨hbumped, fun k hk => ?_, fun k => ?_⟩, ?_⟩
  · have hread' : folder'.bump.read k = folder'.read k := by
      rw [hk.read_eq hbumped, hk.read_eq hopen, (sameFolders_bump folder').own,
        text?_bump (own_fileName_ne folder' k)]
    rw [hread']
    by_cases hkey : k = key
    · rw [hkey]
      exact hread
    · obtain ⟨htext, hcontent⟩ := hkept k hkey
      rw [hcontent, hk.read_eq hopen, hfolders.own, htext, ← hk.read_eq h.isOpen]
      exact h.reads k hk
  · rw [has_bump]
    by_cases hkey : k = key
    · rw [hkey]
      exact hhas
    · obtain ⟨htext, hcontent⟩ := hkept k hkey
      rw [hcontent, has, hfolders.own, htext, ← has, h.has_eq]
  · have hversion : folder'.version = folder.version := by
      refine version_congr ?_
      rw [ordinary_versionName.fileText_eq hopen, ordinary_versionName.fileText_eq h.isOpen,
        hfolders.own, hother _ (fileName_ne_versionName key).symm]
    rw [version_bump hopen, hversion]

theorem Holds.update (h : folder.Holds edits) (hk : Usable key) (hl : record.isLegible = true) :
    ∃ folder' answer, folder.update key record = .ok (folder', answer) ∧
      folder'.Holds (edits ++ [.update key record]) ∧
      (answer = false ↔
        Fields.Alike (content edits key) (content (edits ++ [.update key record]) key)) ∧
      folder'.version = (folder.version + answer.toNat) % UInt64.size := by
  obtain ⟨stored, hread, halike, hleg⟩ := h.reads key hk
  generalize hm : (stored.getD ∅).overlay record = merged
  have hlegible : merged.isLegible = true := by
    cases stored with
    | none => rwa [← hm, Option.getD_none, Fields.empty_overlay]
    | some r => exact hm ▸ Fields.isLegible_overlay (hleg r rfl) hl
  have hmerged : Fields.Alike (some merged) (content (edits ++ [.update key record]) key) := by
    rw [content_concat_update, ← hm]
    exact .some (halike.overlay hl)
  have hsame : stored.any (Fields.same merged) = true ↔
      Fields.Alike (content edits key) (content (edits ++ [.update key record]) key) := by
    constructor
    · intro hany
      obtain ⟨r, rfl, hr⟩ := (Option.any_eq_true _ _).mp hany
      exact halike.symm.trans (Fields.Alike.trans (.some (Fields.same_symm hr)) hmerged)
    · intro hc
      have hback := (halike.trans hc).trans hmerged.symm
      cases hback with
      | some hr => exact Fields.same_symm hr
  rw [update_eq h.isOpen hk hread, hm]
  by_cases hany : stored.any (Fields.same merged) = true
  · refine ⟨_, _, if_pos hany, h.keep (hsame.mp hany), by simpa using hsame.mp hany, ?_⟩
    exact (Nat.mod_eq_of_lt (version_lt _)).symm
  · have hput : ∀ place, (folder.put (folder.own (fileName key))
        (Json.pretty 0 merged.toJson)).text? place =
          if place = folder.own (fileName key) then some (Json.pretty 0 merged.toJson)
          else folder.text? place :=
      text?_put (fun _ => h.isOpen) _
    have hfolders := sameFolders_put (isFolder_own folder (fileName key))
      (Json.pretty 0 merged.toJson)
    have hwritten : (folder.put (folder.own (fileName key)) (Json.pretty 0 merged.toJson)).read
        key = .ok (some merged) := by
      rw [hk.read_eq (hfolders.isSome.trans h.isOpen), hfolders.own, hput, if_pos rfl]
      simp [Fields.ofJson?_parse?_pretty hlegible]
    obtain ⟨hholds, hversion⟩ := h.change (show (Edit.update key record).key = key from rfl)
      hfolders (fun name hne => by rw [hput, if_neg fun he => hne (congrArg FilePlace.name he)])
      (by rw [has, hfolders.own, hput, if_pos rfl, content_concat_update]; rfl)
      ⟨some merged, hwritten, hmerged, fun r hr => Option.some.inj hr ▸ hlegible⟩
    exact ⟨_, _, if_neg hany, hholds, by simpa [hsame] using hany, hversion⟩

theorem Holds.delete (h : folder.Holds edits) (hk : Usable key) :
    ∃ folder' answer, folder.delete key = .ok (folder', answer) ∧
      folder'.Holds (edits ++ [.delete key]) ∧ answer = (content edits key).isSome ∧
      folder'.version = (folder.version + answer.toNat) % UInt64.size := by
  have hgone := content_concat_delete edits key
  rw [delete_eq h.isOpen hk]
  by_cases hhas : folder.has key = true
  · have hremove := text?_remove folder (folder.own (fileName key))
    have hfolders := sameFolders_remove (isFolder_own folder (fileName key))
    have hmissing : (folder.remove (folder.own (fileName key))).read key = .ok none := by
      rw [hk.read_eq (hfolders.isSome.trans h.isOpen), hfolders.own, hremove, if_pos rfl]
    obtain ⟨hholds, hversion⟩ := h.change (show (Edit.delete key).key = key from rfl)
      hfolders (fun name hne => by rw [hremove, if_neg fun he => hne (congrArg FilePlace.name he)])
      (by rw [has, hfolders.own, hremove, if_pos rfl, hgone]; rfl)
      ⟨none, hmissing, by rw [hgone]; exact .none, by simp⟩
    exact ⟨_, _, if_pos hhas, hholds, by rw [← h.has_eq, hhas], hversion⟩
  · have hnone : content edits key = none := by simpa [h.has_eq] using hhas
    refine ⟨_, _, if_neg hhas, h.keep ?_, by simp [hnone], (Nat.mod_eq_of_lt (version_lt _)).symm⟩
    show Fields.Alike (content edits key) (content (edits ++ [.delete key]) key)
    rw [hnone, hgone]
    exact .none

theorem holds_reopen (folder : SnapshotFolder) : folder.reopen.Holds [] := by
  refine ⟨isSome_files_bump, fun key hk => ⟨none, ?_, .none, by simp⟩, has_reopen folder⟩
  have hgone := has_reopen folder key
  have hopen : folder.reopen.files.isSome = true := isSome_files_bump
  rw [has, Option.isSome_eq_false_iff, Option.isNone_iff_eq_none] at hgone
  rw [hk.read_eq hopen, hgone]

/-- What an edit answers after others: an update whether it changed the record, a deletion whether
there was one. -/
def Answers (before : List Edit) (e : Edit) (answer : Bool) : Prop :=
  match e with
  | .update key _ =>
    answer = false ↔ Fields.Alike (content before key) (content (before ++ [e]) key)
  | .delete key => answer = (content before key).isSome

theorem Holds.edit (h : folder.Holds edits) {e : Edit} (hk : Usable e.key)
    (hl : ∀ key record, e = .update key record → record.isLegible = true) :
    ∃ folder' answer, folder.edit e = .ok (folder', answer) ∧ folder'.Holds (edits ++ [e]) ∧
      Answers edits e answer ∧
      folder'.version = (folder.version + answer.toNat) % UInt64.size := by
  cases e with
  | update key record => exact h.update hk (hl key record rfl)
  | delete key => exact h.delete hk

theorem editAll_concat (folder : SnapshotFolder) (edits : List Edit) (e : Edit) :
    folder.editAll (edits ++ [e]) = (do
      let (folder, answers) ← folder.editAll edits
      let (folder, answer) ← folder.edit e
      pure (folder, answers ++ [answer])) := by
  simp [editAll]

/-- The folder is a map of records: a key has what was laid over each other since it was last
deleted, the keys are those that have something, and each change is answered and counted. -/
theorem editAll_reopen (folder : SnapshotFolder) (edits : List Edit)
    (hkeys : ∀ e ∈ edits, Usable e.key)
    (hrecords : ∀ key record, .update key record ∈ edits → record.isLegible = true) :
    ∃ folder' answers, folder.reopen.editAll edits = .ok (folder', answers) ∧
      (∀ key, Usable key → ∃ stored, folder'.read key = .ok stored ∧
        Fields.Alike stored (content edits key)) ∧
      folder'.keys.Pairwise (· < ·) ∧
      (∀ key, key ∈ folder'.keys ↔ (content edits key).isSome = true) ∧
      answers.length = edits.length ∧
      (∀ before e after, edits = before ++ e :: after →
        ∃ answer, answers[before.length]? = some answer ∧ Answers before e answer) ∧
      folder'.version = (folder.reopen.version + answers.count true) % UInt64.size := by
  suffices h : ∃ folder' answers, folder.reopen.editAll edits = .ok (folder', answers) ∧
      folder'.Holds edits ∧ answers.length = edits.length ∧
      (∀ before e after, edits = before ++ e :: after →
        ∃ answer, answers[before.length]? = some answer ∧ Answers before e answer) ∧
      folder'.version = (folder.reopen.version + answers.count true) % UInt64.size by
    obtain ⟨folder', answers, hedits, hholds, hlength, hanswers, hversion⟩ := h
    refine ⟨folder', answers, hedits, fun key hk => ?_, sorted_keys folder', fun key => ?_, hlength,
      hanswers, hversion⟩
    · obtain ⟨stored, hread, halike, -⟩ := hholds.reads key hk
      exact ⟨stored, hread, halike⟩
    · rw [mem_keys, hholds.has_eq]
  induction edits using List.reverseRecOn with
  | nil =>
    exact ⟨_, [], rfl, holds_reopen folder, rfl, by simp, (Nat.mod_eq_of_lt (version_lt _)).symm⟩
  | append_singleton edits e ih =>
    obtain ⟨mid, answers, hedits, hholds, hlength, hanswers, hversion⟩ := ih
      (fun e he => hkeys e (List.mem_append_left _ he))
      (fun key record hm => hrecords key record (List.mem_append_left _ hm))
    obtain ⟨folder', answer, hedit, hholds', hanswer, hversion'⟩ := hholds.edit (e := e)
      (hkeys e (by simp)) (fun key record he => hrecords key record (by simp [he]))
    refine ⟨folder', answers ++ [answer], ?_, hholds', by simp [hlength], ?_, ?_⟩
    · rw [editAll_concat, hedits]
      simp [bind, Except.bind, hedit, pure, Except.pure]
    · intro before x after hsplit
      rcases split_concat hsplit with ⟨rfl, rfl⟩ | ⟨rest, hrest⟩
      · exact ⟨answer, by rw [← hlength]; exact List.getElem?_concat_length, hanswer⟩
      · obtain ⟨earlier, hearlier, hspec⟩ := hanswers before x rest hrest
        have hlt := (List.getElem?_eq_some_iff.mp hearlier).1
        exact ⟨earlier, by rw [List.getElem?_append_left hlt, hearlier], hspec⟩
    · have hcount : [answer].count true = answer.toNat := by cases answer <;> rfl
      rw [hversion', hversion, List.count_append, hcount, Nat.mod_add_mod, Nat.add_assoc]

/-- Of two snapshots, one of them empty, the other is deleted. -/
theorem editAll_reopen_two_keys :
    let held := Fields.ofList [("state", .str "held")]
    let edits : List Edit := [.update "p1" held, .update "p2" ∅, .delete "p1"]
    (∀ e ∈ edits, Usable e.key) ∧
      (∀ key record, .update key record ∈ edits → record.isLegible = true) ∧
      ∃ folder' answers, (reopen {}).editAll edits = .ok (folder', answers) ∧
        answers[2]? = some true ∧ "p1" ∉ folder'.keys ∧ "p2" ∈ folder'.keys := by
  intro held edits
  have hkeys : ∀ e ∈ edits, Usable e.key := by
    simp only [edits, List.forall_mem_cons, Edit.key]
    exact ⟨⟨by decide, by decide, by decide⟩, ⟨by decide, by decide, by decide⟩,
      ⟨by decide, by decide, by decide⟩, by simp⟩
  have hrecords : ∀ key record, .update key record ∈ edits → record.isLegible = true := by
    intro key record hm
    simp only [edits, List.mem_cons, Edit.update.injEq, List.not_mem_nil, reduceCtorEq,
      or_false] at hm
    rcases hm with ⟨-, rfl⟩ | ⟨-, rfl⟩ <;> decide
  obtain ⟨folder', answers, hedits, -, -, hlist, -, hanswers, -⟩ :=
    editAll_reopen {} edits hkeys hrecords
  obtain ⟨answer, hanswer, hdeleted⟩ := hanswers _ _ [] (show edits =
    [.update "p1" held, .update "p2" ∅] ++ [.delete "p1"] from rfl)
  have hpresent : answer = true := hdeleted.trans (by decide)
  exact ⟨hkeys, hrecords, folder', answers, hedits, hpresent ▸ hanswer,
    by rw [hlist]; decide, by rw [hlist]; decide⟩

end SnapshotFolder

end SiteBroker
