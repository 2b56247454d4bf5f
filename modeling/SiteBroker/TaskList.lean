import SiteBroker.Task

/-! The tasks of one packet by name. A newer record of a task replaces an older one. -/

namespace SiteBroker

/-- Each task is kept under its own name. -/
structure TaskList where
  byName : Std.ExtTreeMap String TaskRecord
  named : ∀ {n : String} {t : TaskRecord}, byName[n]? = some t → t.name = n

namespace TaskList

def empty : TaskList := ⟨∅, by simp⟩

instance : EmptyCollection TaskList := ⟨empty⟩

instance : Inhabited TaskList := ⟨empty⟩

def get? (l : TaskList) (name : String) : Option TaskRecord := l.byName[name]?

/-- Whether the list holds a record of the task that is at least as new. -/
def covers (l : TaskList) (t : TaskRecord) : Bool :=
  (l.get? t.name).any fun old => t.timestamp ≤ old.timestamp

/-- Adds a task, or replaces it by a newer record. -/
def put (l : TaskList) (t : TaskRecord) : TaskList :=
  if l.covers t then l
  else ⟨l.byName.insert t.name t, by
    intro n u h
    rw [Std.ExtTreeMap.getElem?_insert] at h
    split at h
    · next hn =>
      obtain rfl := Option.some.inj h
      exact Std.LawfulEqCmp.compare_eq_iff_eq.1 hn
    · exact l.named h⟩

/-- Puts each task of a list, and tells whether any of them changed the list. -/
def putAll (l : TaskList) (ts : List TaskRecord) : TaskList × Bool :=
  ts.foldl (fun (l, changed) t => (l.put t, changed || !l.covers t)) (l, false)

def ofList (ts : List TaskRecord) : TaskList := (empty.putAll ts).1

/-- The tasks in the order of their names. -/
def toList (l : TaskList) : List TaskRecord := l.byName.values

def size (l : TaskList) : Nat := l.byName.size

def isEmpty (l : TaskList) : Bool := l.byName.isEmpty

/-- Older tasks first, those of one time by name. -/
def precedes (a b : TaskRecord) : Bool :=
  a.timestamp < b.timestamp || (a.timestamp == b.timestamp && (compare a.name b.name).isLE)

def inOrder (l : TaskList) : List TaskRecord := l.toList.mergeSort precedes

/-- The newest task that can still change. -/
def active? (l : TaskList) : Option TaskRecord := l.inOrder.reverse.find? (·.isActive)

/-- The time of the newest task. -/
def latest? (l : TaskList) : Option Instant := (l.toList.map (·.timestamp)).max?

end TaskList

end SiteBroker
