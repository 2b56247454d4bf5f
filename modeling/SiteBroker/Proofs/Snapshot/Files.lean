import Mathlib.Data.List.Nodup
import Mathlib.Data.String.Basic
import SiteBroker.Proofs.Digits
import SiteBroker.Proofs.Snapshot

/-! The keys that the files of the folder make, and the number of changes that its version file
tells. -/

namespace SiteBroker.SnapshotFolder

variable {folder folder' : SnapshotFolder} {key : String}

theorem key?_eq_some_iff {name : String} : key? name = some key ↔ name = fileName key := by
  constructor
  · intro h
    obtain ⟨hs, hkey⟩ := Option.ite_none_right_eq_some.mp h
    obtain ⟨cs, hcs⟩ := List.isSuffixOf_iff_suffix.mp hs
    obtain rfl := Option.some.inj hkey
    refine String.toList_injective ?_
    simp [fileName, ← hcs]
  · rintro rfl
    simp [key?, fileName]

theorem has_eq (folder : SnapshotFolder) (key : String) :
    folder.has key = (folder.files.bind (·[fileName key]?)).isSome := by
  rw [has, text?_own]

theorem mem_keys : key ∈ folder.keys ↔ folder.has key = true := by
  rw [has_eq, keys]
  cases folder.files with
  | none => simp
  | some files => simp [key?_eq_some_iff]

theorem sorted_keys (folder : SnapshotFolder) : folder.keys.Pairwise (· < ·) := by
  rw [keys]
  cases folder.files with
  | none => exact List.Pairwise.nil
  | some files =>
    have hnames : files.keys.Pairwise fun a b => ¬ compare a b = .eq :=
      Std.ExtTreeMap.distinct_keys
    have hdistinct : (files.keys.filterMap key?).Pairwise (· ≠ ·) := by
      refine List.Pairwise.filterMap key? (fun name name' hne k hk k' hk' he => ?_) hnames
      rw [key?_eq_some_iff.mp hk, key?_eq_some_iff.mp hk', he] at hne
      exact hne Std.ReflCmp.compare_self
    have htotal : ∀ a b : String, ((compare a b).isLE || (compare b a).isLE) = true := by
      intro a b
      have hswap : compare b a = (compare a b).swap := Std.OrientedCmp.eq_swap
      rw [hswap]
      cases compare a b <;> rfl
    have hsorted : ((files.keys.filterMap key?).mergeSort
        fun a b => (compare a b).isLE).Pairwise fun a b => (compare a b).isLE = true :=
      List.pairwise_mergeSort (fun a b c => Std.TransCmp.isLE_trans) htotal _
    have hnodup : ((files.keys.filterMap key?).mergeSort fun a b => (compare a b).isLE).Nodup :=
      (List.mergeSort_perm _ _).nodup_iff.mpr hdistinct
    exact (hsorted.and hnodup).imp fun ⟨hle, hne⟩ =>
      lt_of_le_of_ne (Std.LawfulBCmp.isLE_iff_le.mp hle) hne

theorem number?_repr (n : Nat) :
    number? (Nat.repr n) = if n < UInt64.size then some n else none := by
  rw [number?, Text.trim_repr, Text.natural64?_repr]

theorem version_lt (folder : SnapshotFolder) : folder.version < UInt64.size := by
  unfold version
  split
  · next text ht =>
    cases h : number? text with
    | none => exact (by decide : 0 < UInt64.size)
    | some n => exact Text.natural64?_lt h
  · exact (by decide : 0 < UInt64.size)

theorem version_congr (h : folder'.fileText versionName = folder.fileText versionName) :
    folder'.version = folder.version := by
  rw [version, version, h]

theorem isSome_files_bump : folder.bump.files.isSome = folder.files.isSome :=
  (sameFolders_bump folder).isSome

/-- The number of changes has 64 bits. -/
theorem version_bump (h : folder.files.isSome = true) :
    folder.bump.version = (folder.version + 1) % UInt64.size := by
  have htext : folder.bump.fileText versionName = .ok (Nat.repr (folder.version + 1)) := by
    rw [ordinary_versionName.fileText_eq (isSome_files_bump.trans h), (sameFolders_bump folder).own,
      bump_eq, if_pos h, text?_put fun _ => h, if_pos rfl]
  have hlt := version_lt folder
  rw [version, htext]
  dsimp only
  rw [number?_repr]
  split
  · next hroom => exact (Nat.mod_eq_of_lt hroom).symm
  · next hfull =>
    have hmax : folder.version + 1 = UInt64.size := by omega
    rw [hmax, Nat.mod_self]
    rfl

theorem has_bump : folder.bump.has key = folder.has key := by
  rw [has, has, (sameFolders_bump folder).own, text?_bump (own_fileName_ne folder key)]

end SiteBroker.SnapshotFolder
