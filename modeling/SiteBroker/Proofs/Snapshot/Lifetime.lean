import Mathlib.Data.List.Sort
import Mathlib.Data.String.Basic
import SiteBroker.Proofs.Along
import SiteBroker.Proofs.Attending
import SiteBroker.Proofs.Dropping
import SiteBroker.Proofs.Snapshot.Files
import SiteBroker.Proofs.Success

/-! Snapshots live as long as their transactions: the folder, the first records that the book
knows, and the docket are kept in step, whatever is asked of a broker and however that ends. -/

namespace SiteBroker

open Program SnapshotFolder

theorem SnapshotFolder.has_of_fileText {folder : SnapshotFolder} {key text : String}
    (h : folder.fileText (fileName key) = .ok text) (hslash : '/' ∉ key.toList) :
    folder.has key = true := by
  obtain ⟨place, hplace, hsome⟩ := fileText_eq_ok_iff.mp h
  obtain rfl := eq_own_of_locate hplace (slash_notMem_fileName hslash)
  rw [has, hsome]
  rfl

namespace SnapshotBook

open SnapshotFolder

variable {book : SnapshotBook} {d d' : Docket} {log log' : List Event} {job : Job} {full : Bool}
  {id : TransactionId}

theorem initial_dropAll (keys : List String) (book : SnapshotBook) (key : String) :
    (keys.foldl drop book).initial[key]? = if key ∈ keys then none else book.initial[key]? := by
  induction keys generalizing book with
  | nil => simp
  | cons k keys ih =>
    rw [List.foldl_cons, ih, initial_drop, Std.ExtTreeMap.getElem?_erase]
    by_cases hk : k = key <;> by_cases hm : key ∈ keys <;> simp [hk, hm, Ne.symm]

theorem of_initial_purge {key : String} {i : TransactionId} {first : Fields}
    (h : (book.purge id).initial[key]? = some (i, first)) :
    book.initial[key]? = some (i, first) ∧ i ≠ id := by
  rw [purge, initial_dropAll] at h
  split at h
  · cases h
  · next hk =>
    refine ⟨h, ?_⟩
    rintro rfl
    exact hk (mem_keysOf.mpr ⟨first, h⟩)

theorem isSome_of_purge {key : String} (h : ((book.purge id).initial[key]?).isSome = true) :
    (book.initial[key]?).isSome = true := by
  obtain ⟨⟨i, first⟩, hi⟩ := Option.isSome_iff_exists.mp h
  rw [(of_initial_purge hi).1]
  rfl

/-- A snapshot of the key could not be written at some time. -/
def Failed (log : List Event) (key : String) : Prop :=
  ∃ record e, Event.stored key record (.error e) ∈ log

/-- There was a snapshot under a key that leads through folders. -/
def Strayed (log : List Event) : Prop :=
  ∃ key record outcome, Event.stored key record outcome ∈ log ∧ '/' ∈ key.toList

/-- The book, the folder and the docket are in step: each file is that of a key that the book knows,
and the transactions of these are there. Each key has a snapshot, unless that could not be written
or a snapshot has strayed. -/
structure InStep (book : SnapshotBook) (d : Docket) (log : List Event) : Prop where
  complete : book.Complete
  live : ∀ key id first, book.initial[key]? = some (id, first) →
    (d.get? id).isSome = true ∧ ∃ job : Job, job.transactionId = id ∧ job.name = key
  plain : ∀ key : String, (book.initial[key]?).isSome = true → '/' ∈ key.toList → Strayed log
  stored : ∀ key : String, (book.initial[key]?).isSome = true →
    (∃ text, book.folder.fileText (fileName key) = .ok text) ∨ Failed log key ∨ Strayed log

theorem inStep_opened (folder : SnapshotFolder) (d : Docket) (log : List Event) :
    (opened folder).InStep d log where
  complete := complete_opened folder
  live key id first h := by simp [opened] at h
  plain key h := by simp [opened] at h
  stored key h := by simp [opened] at h

theorem InStep.spares (h : book.InStep d log)
    (hd : ∀ id, (d.get? id).isSome = true → (d'.get? id).isSome = true) : book.InStep d' log :=
  { h with live := fun key id first hi => (h.live key id first hi).imp_left (hd id) }

theorem InStep.mono (h : book.InStep d log) (hlog : log ⊆ log') : book.InStep d log' := by
  have hstrayed : Strayed log → Strayed log' := by
    rintro ⟨key, record, outcome, hm, hslash⟩
    exact ⟨key, record, outcome, hlog hm, hslash⟩
  refine { h with
    plain := fun key hi hslash => hstrayed (h.plain key hi hslash)
    stored := fun key hi => (h.stored key hi).imp_right (Or.imp ?_ hstrayed) }
  rintro ⟨record, e, hm⟩
  exact ⟨record, e, hlog hm⟩

/-- As long as no snapshot has strayed, a key that the book knows shares its file with no other. -/
theorem InStep.eq_of_shares {key key' : String} (h : book.InStep d log) (hs : ¬ Strayed log)
    (hk : (book.initial[key]?).isSome = true) (hslash : '/' ∉ key'.toList)
    (hshares : book.folder.Shares key key') : key = key' :=
  SnapshotFolder.eq_of_shares hshares (mt (h.plain key hk) hs) hslash

theorem InStep.write (h : book.InStep d log) (hlive : (d.get? job.transactionId).isSome = true)
    (hlog : .stored job.name (book.write job full).2.1 (book.write job full).2.2 ∈ log) :
    (book.write job full).1.InStep d log where
  complete := h.complete.write job full
  live key id first hi := by
    by_cases hk : key = job.name
    · subst hk
      cases hknown : book.initial[job.name]? with
      | none =>
        rw [initial_write_first full hknown] at hi
        cases hi
        exact ⟨hlive, job, rfl, rfl⟩
      | some known =>
        rw [initial_write_again full hknown] at hi
        cases hi
        exact h.live _ _ _ hknown
    · rw [initial_write_of_ne full hk] at hi
      exact h.live key id first hi
  plain key hi hslash := by
    rcases (isSome_initial_write_iff full).mp hi with rfl | hi
    · exact ⟨_, _, _, hlog, hslash⟩
    · exact h.plain key hi hslash
  stored key hi := by
    obtain ⟨htouches, hwritten⟩ := write_cases book job full
    by_cases hk : key = job.name
    · subst hk
      rcases hwritten with htext | ⟨e, he⟩
      · exact .inl htext
      · rw [he] at hlog
        exact .inr (.inl ⟨_, e, hlog⟩)
    · have hi := ((isSome_initial_write_iff full).mp hi).resolve_left hk
      by_cases hs : Strayed log
      · exact .inr (.inr hs)
      have hslash : '/' ∉ job.name.toList := fun hslash => hs ⟨_, _, _, hlog, hslash⟩
      have hshares : ¬ book.folder.Shares job.name key := fun hshares =>
        hk (SnapshotFolder.eq_of_shares hshares hslash (mt (h.plain key hi) hs)).symm
      exact (h.stored key hi).imp_left fun ⟨text, ht⟩ => ⟨text, htouches.fileText hshares ht⟩

theorem InStep.purge (h : book.InStep d log) (id : TransactionId) :
    (book.purge id).InStep (d.purge id) log where
  complete := h.complete.purge id
  live key i first hi := by
    obtain ⟨hbefore, hne⟩ := of_initial_purge hi
    obtain ⟨hlive, hjob⟩ := h.live key i first hbefore
    rw [Docket.get?_purge, if_neg (Ne.symm hne)]
    exact ⟨hlive, hjob⟩
  plain key hi hslash := h.plain key (isSome_of_purge hi) hslash
  stored key hi := by
    have hbefore := isSome_of_purge hi
    by_cases hs : Strayed log
    · exact .inr (.inr hs)
    have hshares : ∀ k ∈ book.keysOf id, book.folder.Shares k key → k = key := fun k hk => by
      obtain ⟨first, hfirst⟩ := mem_keysOf.mp hk
      exact h.eq_of_shares hs (by rw [hfirst]; rfl) (mt (h.plain key hbefore) hs)
    rcases dropAll_cases hshares with hgone | ⟨-, htext⟩
    · unfold SnapshotBook.purge at hi
      rw [hgone] at hi
      cases hi
    · exact (h.stored key hbefore).imp_left fun ⟨text, ht⟩ => ⟨text, htext text ht⟩

/-- What the folder lists is the file of a key that the book knows. -/
theorem InStep.exists_initial {key : String} (h : book.InStep d log)
    (hk : key ∈ book.folder.keys) : ∃ known id first, book.initial[known]? = some (id, first) ∧
      book.folder.locate (fileName known) = .ok (book.folder.own (fileName key)) := by
  obtain ⟨known, hknown, hplace⟩ := h.complete key (mem_keys.mp hk)
  obtain ⟨⟨id, first⟩, hi⟩ := Option.isSome_iff_exists.mp hknown
  exact ⟨known, id, first, hi, hplace⟩

theorem InStep.keys_eq (h : book.InStep d log) (hwritten : ∀ key, ¬ Failed log key)
    (hs : ¬ Strayed log) : book.folder.keys = book.initial.keys := by
  have hmem : ∀ key, key ∈ book.folder.keys ↔ key ∈ book.initial.keys := by
    intro key
    rw [Std.ExtTreeMap.mem_keys, ← Std.ExtTreeMap.isSome_getElem?_iff_mem]
    constructor
    · intro hk
      obtain ⟨known, hknown, hplace⟩ := h.complete key (mem_keys.mp hk)
      have hslash : '/' ∉ known.toList := mt (h.plain known hknown) hs
      have hown := eq_own_of_locate hplace (slash_notMem_fileName hslash)
      rwa [own_fileName_inj.mp hown]
    · intro hk
      obtain ⟨text, ht⟩ := (h.stored key hk).resolve_right (not_or.mpr ⟨hwritten key, hs⟩)
      exact mem_keys.mpr (has_of_fileText ht (mt (h.plain key hk) hs))
  have hsorted : book.initial.keys.Pairwise (· < ·) :=
    Std.ExtTreeMap.ordered_keys.imp compare_lt_iff_lt.mp
  exact (sorted_keys book.folder).sortedLT.eq_of_mem_iff hsorted.sortedLT hmem

end SnapshotBook

/-- From one world to the other the log has only grown. -/
def World.Grows {σ : Type} (w w' : World σ) : Prop := w.log <+: w'.log

instance {σ : Type} : IsPreorder (World σ) World.Grows where
  refl _ := List.prefix_refl _
  trans _ _ _ := List.IsPrefix.trans

theorem Services.upheld_grows {σ : Type} (s : Services σ) : s.Upheld World.Grows where
  read w := refl_of World.Grows w
  sleep _ _ := List.prefix_append _ _
  ask _ _ := List.prefix_append _ _
  setEpisode w _ side := by cases side <;> exact refl_of World.Grows w
  stored _ _ _ _ := List.prefix_append _ _

namespace Office

variable {σ : Type} {s : Services σ} {o : Office σ} {id : TransactionId}

theorem stored_of_attend {job : Job} (hj : o.docket.job? id = some job) {reply : Option Packet}
    {desk : Desk σ} (ha : attend (Registry.catalog s) ⟨job, o.world⟩ = (.ok reply, desk)) :
    .stored desk.job.name (o.book.write desk.job reply.isSome).2.1
      (o.book.write desk.job reply.isSome).2.2 ∈ (o.act s (.attend id)).world.log := by
  simp only [act, serveAll, hj, ha]
  cases reply <;> simp [takeSnapshot, answer, World.note, Services.clock]

/-- The snapshots are in step with the transactions. -/
def InStep (o : Office σ) : Prop := o.book.InStep o.docket o.world.log

theorem InStep.attend (h : o.InStep) (hs : o.docket.Sound) (id : TransactionId) :
    (o.act s (.attend id)).InStep := by
  cases hj : o.docket.job? id with
  | none => rwa [act_attend_none hj]
  | some job =>
    rcases ha : Office.attend (Registry.catalog s) ⟨job, o.world⟩ with ⟨answer, desk⟩
    have hspares : Spares o (o.act s (.attend id)) := spares_serve_one s (Registry.catalog s) id o
    have hgrows : o.world.Grows (o.act s (.attend id)).world :=
      along_serve_one s.upheld_grows id o
    have hkept : o.book.InStep (o.act s (.attend id)).docket (o.act s (.attend id)).world.log :=
      (h.spares hspares).mono hgrows.subset
    unfold InStep
    rw [(act_attend hj ha).1]
    cases answer with
    | error e => exact hkept
    | ok reply =>
      have hpacket := (leads_attend s ⟨job, o.world⟩).1
      rw [ha] at hpacket
      have hid : desk.job.transactionId = id :=
        (congrArg Packet.transactionId hpacket).trans (hs.transactionId_of_job? hj)
      refine hkept.write ?_ (stored_of_attend hj ha)
      rw [hid]
      obtain ⟨t, ht, -⟩ := Docket.get?_of_job? hj
      exact hspares id (Option.isSome_iff_exists.mpr ⟨t, ht⟩)

end Office

namespace Broker

variable {σ : Type} {setup : Setup σ} {b b' : Broker σ} {log : List Event}

/-- The snapshots are in step with the transactions, as far as a log tells of no mishap. -/
def InStep (b : Broker σ) (log : List Event) : Prop := b.office.book.InStep b.docket log

theorem InStep.spares (h : b.InStep log) (hb : b'.office.book = b.office.book)
    (hd : ∀ id, b.Live id → b'.Live id) : b'.InStep log := by
  unfold InStep
  rw [hb]
  exact SnapshotBook.InStep.spares h hd

theorem InStep.afterSending (h : b.InStep log) (p : Packet) :
    (b.afterSending p).InStep log := by
  unfold Broker.afterSending
  split
  · exact h
  · exact SnapshotBook.InStep.purge h p.transactionId

theorem InStep.sendAll (h : b.InStep log) (packets : List Packet) :
    (left (sendAll setup packets b)).InStep log := by
  induction packets generalizing b with
  | nil => exact h
  | cons p rest ih =>
    rcases sendAll_outcomes setup b p rest with ⟨w, -, hrun, -⟩ | ⟨e, e', w, hrun, -⟩ <;> rw [hrun]
    · have hsent : (b.inWorld w).InStep log := h
      exact ih (hsent.afterSending p)
    · exact h

theorem InStep.withoutTaskOnly (h : b.InStep log) : b.withoutTaskOnly.InStep log := by
  unfold InStep Broker.withoutTaskOnly docket at *
  dsimp only
  generalize b.office.docket.taskOnly = ids
  generalize b.office = o at h ⊢
  induction ids generalizing o with
  | nil => exact h
  | cons id ids ih => exact ih (o.purge id) (h.purge id)

theorem InStep.carryOut (h : b.InStep b.world.log)
    (hr : setup.registry = Registry.catalog setup.services) (hs : b.docket.Sound) (e : Errand) :
    (carryOut setup b e).InStep (carryOut setup b e).world.log := by
  have hgrows : b.world.Grows (Broker.carryOut setup b e).world :=
    along_carryOut setup.services.upheld_grows hr b e
  have hmono : (Broker.carryOut setup b e).InStep b.world.log →
      (Broker.carryOut setup b e).InStep (Broker.carryOut setup b e).world.log := fun h =>
    SnapshotBook.InStep.mono h hgrows.subset
  cases e with
  | readClock => exact hmono h
  | loadTasks wait =>
    refine hmono (h.spares ?_ fun id hl => live_loadTasks setup hl wait)
    rw [Broker.carryOut]
    rcases loadTasks_outcomes setup b wait with ⟨tasks, w, n, hrun, -⟩ | ⟨e, e', w, hrun, -⟩ <;>
      rw [hrun] <;> rfl
  | list =>
    refine hmono ?_
    rw [Broker.carryOut]
    rcases loadPackets_outcomes setup b with ⟨e, e', w, hrun, -⟩ | ⟨packets, w, hrun, -⟩ <;>
      rw [hrun] <;> exact h
  | take query p => exact hmono (h.spares rfl fun id hl => Docket.live_receive hl query p)
  | close p =>
    refine hmono ?_
    rw [Broker.carryOut]
    rcases complete_outcomes setup b p.transactionId with ⟨w, hrun, -⟩ | ⟨e, e', w, hrun, -⟩ <;>
      rw [hrun]
    · exact SnapshotBook.InStep.purge h p.transactionId
    · exact h
  | dropTaskOnly => exact hmono h.withoutTaskOnly
  | settle query =>
    exact hmono (h.spares rfl fun id hl => Docket.live_mapAll hl _)
  | attend id =>
    have hattend := Office.InStep.attend (s := setup.services) (o := b.office) h hs id
    rwa [Office.act, ← hr] at hattend
  | flush =>
    refine hmono ?_
    obtain ⟨w, -, hrun⟩ := flush_outcome setup b
    rw [Broker.carryOut, hrun]
    have hcollected : ((b.inWorld w).setDocket (b.docket.afterDue (reading setup b))).InStep
        b.world.log := h.spares rfl fun id hl => Docket.live_mapAll hl _
    exact hcollected.sendAll _
  | nextWait => exact hmono h
  | sleep seconds => exact hmono h

theorem inStep_of_carries (hr : setup.registry = Registry.catalog setup.services)
    (h : b.InStep b.world.log) (hs : b.docket.Sound) (hc : Carries setup b b') :
    b'.InStep b'.world.log := by
  obtain ⟨errands, hfit, rfl⟩ := hc
  induction errands generalizing b with
  | nil => exact h
  | cons e errands ih =>
    exact ih (h.carryOut hr hs e) ((leads_carryOut hr hfit.1 hs).sound hs) hfit.2

/-- At every turn of a broker the first records that it knows are of live transactions, and each
snapshot in the folder is the file of a key among them. If each snapshot could be written, and none
under a key with a slash, there is one under each key and no other. -/
theorem snapshots_live_with_transactions {σ : Type} (siteName : String) (s : Services σ)
    (localWaits waits : WaitTimes) (folder : SnapshotFolder) (outside : σ) :
    let setup : Setup σ := ⟨siteName, s, Registry.catalog s, localWaits⟩
    let start := Broker.start waits folder { outside }
    (∀ commands, ∃ turns, turnAll setup start turns = performAll setup start commands) ∧
    ∀ turns,
      let b := turnAll setup start turns
      let book := b.office.book
      (∀ key id first, book.initial[key]? = some (id, first) →
        b.Live id ∧ ∃ job : Job, job.transactionId = id ∧ job.name = key) ∧
      (∀ key ∈ book.folder.keys, ∃ known id first, book.initial[known]? = some (id, first) ∧
        b.Live id ∧ book.folder.locate (SnapshotFolder.fileName known) =
          .ok ⟨book.folder.address.way, SnapshotFolder.fileName key⟩) ∧
      ((∀ key record outcome, .stored key record outcome ∈ b.world.log →
          '/' ∉ key.toList ∧ ∃ changed, outcome = .ok changed) →
        book.folder.keys = book.initial.keys) := by
  intro setup start
  refine ⟨exists_turns setup start, fun turns => ?_⟩
  intro b book
  have hstart : start.docket.Sound := Docket.sound_start waits
  have hopened : start.InStep start.world.log := SnapshotBook.inStep_opened folder _ _
  have hstep : b.InStep b.world.log :=
    inStep_of_carries rfl hopened hstart ((upheld_carries setup).turnAll start turns)
  refine ⟨hstep.live, fun key hk => ?_, fun hwritten => hstep.keys_eq (fun key => ?_) ?_⟩
  · obtain ⟨known, id, first, hi, hplace⟩ := SnapshotBook.InStep.exists_initial hstep hk
    exact ⟨known, id, first, hi, (hstep.live known id first hi).1, hplace⟩
  · rintro ⟨record, e, hm⟩
    obtain ⟨-, changed, he⟩ := hwritten key record _ hm
    cases he
  · rintro ⟨key, record, outcome, hm, hslash⟩
    exact (hwritten key record outcome hm).1 hslash

/-- A packet of a type that the exchange does not know, with a slash in its name. -/
def slashed : Packet := { Docket.projectEnd with type := .other "./x" }

/-- Services that list the packet, and are fine with everything else. -/
def stray : Services Unit :=
  { Workflow.obliging with
    environment := {
      clock := Workflow.obliging.environment.clock
      answer := fun
        | .listPackets _, u => (.ok [slashed], u)
        | call, u => Workflow.obliging.environment.answer call u } }

/-- The packet is listed and refused. -/
def refusing : Broker Unit :=
  performAll ⟨"REMOTE", stray, Registry.catalog stray, ⟨20000, 120000, 7200000⟩⟩
    (Broker.start ⟨10000, 60000, 3600000⟩ {} { outside := () }) [.loadPackets, .servePackets]

/-- With a slash in it, the key of a snapshot may be another than the one it is listed under,
although every snapshot could be written. -/
theorem listed_under_other_key :
    (∀ key record outcome, .stored key record outcome ∈ refusing.world.log →
      ∃ changed, outcome = .ok changed) ∧
    refusing.office.book.initial.keys = ["./x.ORIG:REMOTE:LOCAL:42.5"] ∧
    refusing.office.book.folder.keys = ["x.ORIG:REMOTE:LOCAL:42.5"] := by
  refine ⟨fun key record outcome hm => ?_, by decide +kernel, by decide +kernel⟩
  have hwritten : (refusing.world.log.all fun
      | .stored _ _ (.error _) => false
      | _ => true) = true := by decide +kernel
  have hevent := List.all_eq_true.mp hwritten _ hm
  cases outcome with
  | ok changed => exact ⟨changed, rfl⟩
  | error e => cases hevent

end Broker

end SiteBroker
