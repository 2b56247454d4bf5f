import Std.Data.ExtTreeMap
import SiteBroker.Error

/-! The key of a transaction: three sites and a number, written with colons between them. -/

namespace SiteBroker

structure TransactionId where
  originatingSite : String
  remoteSite : String
  localSite : String
  number : String
  deriving DecidableEq

namespace TransactionId

/-- The parts in the order in which they are compared and written. -/
def parts (id : TransactionId) : List String :=
  [id.originatingSite, id.remoteSite, id.localSite, id.number]

theorem parts_inj {a b : TransactionId} : a.parts = b.parts ↔ a = b := by
  cases a; cases b; simp [parts]

instance : Ord TransactionId := ⟨compareOn parts⟩

instance : Std.TransOrd TransactionId := inferInstanceAs (Std.TransCmp (compareOn parts))

instance : Std.LawfulEqOrd TransactionId where
  compare_self := Std.ReflOrd.compare_self (α := List String)
  eq_of_compare h := parts_inj.1 (Std.LawfulEqOrd.eq_of_compare h)

def text (id : TransactionId) : String := ":".intercalate id.parts

/-- What stands before and after the first colon. -/
def cut (cs : List Char) : Option (List Char × List Char) :=
  match cs.dropWhile (· != ':') with
  | _ :: rest => some (cs.takeWhile (· != ':'), rest)
  | [] => none

def parse? (s : String) : Option TransactionId := do
  let (originating, rest) ← cut s.toList
  let (remote, rest) ← cut rest
  let (site, number) ← cut rest
  if originating.isEmpty || remote.isEmpty || site.isEmpty || number.isEmpty then none
  else some ⟨.ofList originating, .ofList remote, .ofList site, .ofList number⟩

def parse (s : String) : Except ValidationError TransactionId :=
  match parse? s with
  | some id => .ok id
  | none => .error (.malformedTransactionId s)

end TransactionId

end SiteBroker
