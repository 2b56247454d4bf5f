import SiteBroker.Docket
import SiteBroker.Snapshot.Folder

/-! Snapshots of the jobs, for outside viewers. After the first, a snapshot repeats only what has
changed since, and what every snapshot tells. -/

namespace SiteBroker

/-- The folder, and the first full record of each job with the transaction it belongs to. -/
structure SnapshotBook where
  folder : SnapshotFolder
  initial : Std.ExtTreeMap String (TransactionId × Fields) := ∅

namespace SnapshotBook

/-- What every snapshot tells. -/
def fixedNames : List String :=
  ["job_id", "packet_type", "amie_packet_timestamp", "amie_transaction_id",
    "amie_packet_rec_id", "amie_packet_id", "timestamp", "tasks"]

/-- What of a record differs from the first one or is always told. -/
def partialRecord (first record : Fields) : Fields :=
  record.filter fun name a => fixedNames.contains name || !(first[name]?.any (a == ·))

/-- What is written for a job: all of its record the first time and when it is answered. -/
def recordToWrite (book : SnapshotBook) (job : Job) (full : Bool) : Fields :=
  match book.initial[job.name]? with
  | some (_, first) => if full then job.record else partialRecord first job.record
  | none => job.record

/-- Writes the snapshot of a job, and tells what was written and how that went. A snapshot that
cannot be written is left out. -/
def write (book : SnapshotBook) (job : Job) (full : Bool) :
    SnapshotBook × Fields × Except FileError Bool :=
  let record := book.recordToWrite job full
  let initial := book.initial.insertIfNew job.name (job.transactionId, job.record)
  match book.folder.update job.name record with
  | .ok (folder, changed) => (⟨folder, initial⟩, record, .ok changed)
  | .error e => (⟨book.folder, initial⟩, record, .error e)

/-- The keys of a transaction. -/
def keysOf (book : SnapshotBook) (id : TransactionId) : List String :=
  (book.initial.toList.filter (·.2.1 == id)).map (·.1)

/-- Forgets a key and deletes its snapshot. -/
def drop (book : SnapshotBook) (key : String) : SnapshotBook :=
  let initial := book.initial.erase key
  match book.folder.delete key with
  | .ok (folder, _) => ⟨folder, initial⟩
  | .error _ => ⟨book.folder, initial⟩

/-- Forgets a transaction and deletes its snapshots. -/
def purge (book : SnapshotBook) (id : TransactionId) : SnapshotBook :=
  (book.keysOf id).foldl drop book

end SnapshotBook

end SiteBroker
