import Mathlib.Data.List.DropRight
import SiteBroker.Proofs.TransactionId
import SiteBroker.Task.Wire

/-! How the record of a task comes about and how the task is ended, and what its state has to do
with its products then. -/

namespace SiteBroker

theorem Text.isEmpty_trim (s : String) : (trim s).isEmpty = blank s := by
  have hkept : (∀ c ∈ s.toList.dropWhile isBlank, isBlank c = true) ↔
      ∀ c ∈ s.toList, isBlank c = true := by
    rw [← List.dropWhile_eq_nil_iff, ← List.dropWhile_eq_nil_iff, List.dropWhile_idempotent]
  have htrim : trimChars s.toList = [] ↔ ∀ c ∈ s.toList, isBlank c = true := by
    rw [← hkept, trimChars, List.reverse_eq_nil_iff, List.dropWhile_eq_nil_iff]
    simp only [List.mem_reverse]
  rw [Bool.eq_iff_iff, blank, List.all_eq_true, ← htrim, trim, String.isEmpty_iff]
  simp

namespace TaskRecord

/-- The record was made from its parts, or read from JSON. -/
inductive Issued : TaskRecord → Prop
  | made {keys : TaskKeys} {name : String} {state : Option TaskState} {timestamp : Instant}
      {products : List Product} {t : TaskRecord}
      (h : make keys name state timestamp products = .ok t) : Issued t
  | read {a : Json} {t : TaskRecord} (h : ofJson? a = some t) : Issued t

/-- What ends a task: that it failed, or an error, with a message that explains it. -/
inductive Verdict where
  | failed (message : String)
  | errored (message : String)

namespace Verdict

def message : Verdict → String
  | failed message | errored message => message

def state : Verdict → TaskState
  | failed _ => .failed
  | errored _ => .errored

def product : Verdict → String
  | failed _ => Product.failedName
  | errored _ => Product.erroredName

end Verdict

variable {t : TaskRecord} {keys : TaskKeys} {name : String} {timestamp : Instant}
  {products : List Product}

/-- A task has failed or is in error only if a product says so, and it has no such product
otherwise. -/
structure Agrees (t : TaskRecord) : Prop where
  failed : t.state = .failed → hasProduct t.products Product.failedName = true
  errored : t.state = .errored → hasProduct t.products Product.erroredName = true
  neither : t.state ≠ .failed → t.state ≠ .errored →
    hasProduct t.products Product.failedName = false ∧
      hasProduct t.products Product.erroredName = false

/-- The state that products stand for, or else the given one. -/
def decided (products : List Product) (state : TaskState) : TaskState :=
  if hasProduct products Product.failedName then .failed
  else if hasProduct products Product.erroredName then .errored
  else state

theorem make_eq_ok_iff {state : Option TaskState} :
    make keys name state timestamp products = .ok t ↔
      Text.blank name = false ∧
      (state = some .failed → hasProduct products Product.failedName = true) ∧
      (state = some .errored → hasProduct products Product.erroredName = true) ∧
      t = ⟨keys, name, decided products (state.getD .nascent), timestamp, products⟩ := by
  unfold make
  dsimp only
  constructor
  · intro h
    split at h
    · cases h
    · next hblank =>
      split at h
      · cases h
      · next hf =>
        split at h
        · cases h
        · next he =>
          cases h
          exact ⟨by simpa using hblank, fun hs => by simpa [hs] using hf,
            fun hs => by simpa [hs] using he, rfl⟩
  · rintro ⟨hblank, hf, he, rfl⟩
    rw [if_neg (by simp [hblank]), if_neg fun h => by simp [hf h.1] at h,
      if_neg fun h => by simp [he h.1] at h]
    rfl

theorem agrees_decided {state : TaskState}
    (hf : state = .failed → hasProduct products Product.failedName = true)
    (he : state = .errored → hasProduct products Product.erroredName = true) :
    Agrees ⟨keys, name, decided products state, timestamp, products⟩ := by
  unfold decided
  cases hfailed : hasProduct products Product.failedName with
  | true => exact ⟨fun _ => hfailed, nofun, fun h => absurd rfl h⟩
  | false =>
    cases herrored : hasProduct products Product.erroredName with
    | true => exact ⟨nofun, fun _ => herrored, fun _ h => absurd rfl h⟩
    | false =>
      refine ⟨fun h => ?_, fun h => ?_, fun _ _ => ⟨hfailed, herrored⟩⟩
      · exact absurd (hf h) (by simp [hfailed])
      · exact absurd (he h) (by simp [herrored])

theorem agrees_of_make {state : Option TaskState}
    (h : make keys name state timestamp products = .ok t) : t.Agrees := by
  obtain ⟨-, hf, he, rfl⟩ := make_eq_ok_iff.mp h
  have hasked : ∀ s, s ≠ .nascent → state.getD .nascent = s → state = some s := by
    cases state with
    | none => exact fun s hs h => absurd h.symm hs
    | some state => exact fun s _ h => congrArg some h
  exact agrees_decided (fun hs => hf (hasked _ nofun hs)) fun hs => he (hasked _ nofun hs)

theorem make_self {state : Option TaskState}
    (h : make keys name state timestamp products = .ok t) :
    make t.keys t.name state t.timestamp t.products = .ok t := by
  obtain ⟨-, -, -, rfl⟩ := make_eq_ok_iff.mp h
  exact h

theorem make_of_toOption {state : Option TaskState}
    (h : (make keys name state timestamp products).toOption = some t) :
    make keys name state timestamp products = .ok t := by
  cases hmake : make keys name state timestamp products with
  | error e =>
    rw [hmake] at h
    cases h
  | ok u =>
    rw [hmake] at h
    cases h
    rfl

/-- The keys of a task are read with those of a transaction that its text tells. -/
theorem TaskKeys.separable_of_ofFields? {get : String → Option Json} {keys : TaskKeys}
    (h : TaskKeys.ofFields? get = some keys) : keys.transactionId.Separable := by
  simp only [TaskKeys.ofFields?, Option.bind_eq_bind, Option.bind_eq_some_iff] at h
  obtain ⟨jobId, -, text, -, id, hid, packetId, -, packetType, -, h⟩ := h
  cases h
  exact (TransactionId.parse?_eq_some_iff.mp hid).1

/-- A record that was read was made, of a transaction that a text can tell and at a time that a
number of milliseconds tells. -/
theorem of_ofJson? {a : Json} (h : ofJson? a = some t) :
    (∃ state, make t.keys t.name state t.timestamp t.products = .ok t) ∧
      t.keys.transactionId.Separable ∧ ∃ ms, Instant.ofMillis? ms = some t.timestamp := by
  unfold ofJson? at h
  split at h
  · next entries =>
    simp only [Option.bind_eq_bind, Option.bind_eq_some_iff] at h
    obtain ⟨keys, hkeys, name, -, state, -, timestamp, ⟨b, -, htime⟩, h⟩ := h
    have hmake : ∃ products, make keys name state timestamp products = .ok t := by
      split at h
      · exact ⟨_, make_of_toOption h⟩
      · obtain ⟨products, -, h⟩ := Option.bind_eq_some_iff.mp h
        exact ⟨products, make_of_toOption h⟩
    obtain ⟨products, hmake⟩ := hmake
    have hself := make_self hmake
    obtain ⟨-, -, -, rfl⟩ := make_eq_ok_iff.mp hmake
    obtain ⟨ms, -, hms⟩ := Option.bind_eq_some_iff.mp htime
    exact ⟨⟨state, hself⟩, TaskKeys.separable_of_ofFields? hkeys, ms, hms⟩
  · cases h

theorem Issued.exists_make (h : t.Issued) :
    ∃ state, make t.keys t.name state t.timestamp t.products = .ok t := by
  cases h with
  | made h => exact ⟨_, make_self h⟩
  | read h => exact (of_ofJson? h).1

/-- The record with a verdict on its task. -/
def conclude (t : TaskRecord) : Verdict → Except ValidationError TaskRecord
  | .failed message => t.fail message
  | .errored message => t.error message

theorem conclude_eq (t : TaskRecord) (v : Verdict) :
    t.conclude v = t.finish v.state v.product v.message := by
  cases v <;> rfl

/-- A record as it is changed in place. It stays as it was left when the change ends in an error. -/
abbrev Change : Type := EStateM ValidationError TaskRecord Unit

/-- A verdict as it is entered in place, part by part. -/
def enter (v : Verdict) : Change := do
  let message := Text.trim v.message
  if message.isEmpty then throw (.blankMessage v.product)
  modify fun t => { t with products := t.products ++ [⟨v.product, .str message⟩] }
  modify fun t => { t with state := v.state }

theorem enter_eq (v : Verdict) (t : TaskRecord) : enter v t =
    match t.conclude v with
    | .ok u => .ok () u
    | .error e => .error e t := by
  rw [conclude_eq]
  unfold enter finish
  rw [← Text.isEmpty_trim]
  cases (Text.trim v.message).isEmpty <;> rfl

/-- What a verdict leaves of a record, whether it can be entered or not. -/
def after (t : TaskRecord) (v : Verdict) : TaskRecord :=
  match enter v t with
  | .ok _ u | .error _ u => u

def afterAll (t : TaskRecord) (vs : List Verdict) : TaskRecord := vs.foldl after t

theorem conclude_of_blank {v : Verdict} (h : Text.blank v.message = true) (t : TaskRecord) :
    t.conclude v = .error (.blankMessage v.product) := by
  rw [conclude_eq, finish, if_pos h]

theorem enter_of_blank {v : Verdict} (h : Text.blank v.message = true) (t : TaskRecord) :
    enter v t = .error (.blankMessage v.product) t := by
  rw [enter_eq, conclude_of_blank h]

theorem after_of_blank {v : Verdict} (h : Text.blank v.message = true) (t : TaskRecord) :
    t.after v = t := by
  rw [after, enter_of_blank h]

theorem after_of_message {v : Verdict} (h : Text.blank v.message = false) (t : TaskRecord) :
    t.after v = { t with
      state := v.state, products := t.products ++ [⟨v.product, .str (Text.trim v.message)⟩] } := by
  have hblank : ¬ Text.blank v.message = true := by simp [h]
  rw [after, enter_eq, conclude_eq, finish, if_neg hblank]

theorem Agrees.after (h : t.Agrees) (v : Verdict) : (t.after v).Agrees := by
  cases hblank : Text.blank v.message with
  | true => rwa [after_of_blank hblank]
  | false =>
    rw [after_of_message hblank]
    cases v with
    | failed message =>
      exact ⟨fun _ => by simp [hasProduct, Verdict.product], nofun,
        fun h => absurd rfl h⟩
    | errored message =>
      exact ⟨nofun, fun _ => by simp [hasProduct, Verdict.product],
        fun _ h => absurd rfl h⟩

theorem Agrees.afterAll (h : t.Agrees) (vs : List Verdict) : (t.afterAll vs).Agrees := by
  induction vs generalizing t with
  | nil => exact h
  | cons v vs ih => exact ih (h.after v)

/-- However often a task is ended, its state agrees with its products. A verdict that explains
nothing is refused and changes nothing. -/
theorem agrees_of_issued (h : t.Issued) (vs : List Verdict) :
    (t.afterAll vs).Agrees ∧ ∀ v : Verdict, (∀ c ∈ v.message.toList, Text.isBlank c = true) →
      (t.afterAll vs).conclude v = .error (.blankMessage v.product) ∧
        enter v (t.afterAll vs) = .error (.blankMessage v.product) (t.afterAll vs) := by
  obtain ⟨state, hmake⟩ := h.exists_make
  refine ⟨(agrees_of_make hmake).afterAll vs, fun v hv => ?_⟩
  have hblank : Text.blank v.message = true := List.all_eq_true.mpr hv
  exact ⟨conclude_of_blank hblank _, enter_of_blank hblank _⟩

/-- A task that is at work. -/
def atWork : TaskRecord where
  keys := ⟨"9001", ⟨"ORIG", "REMOTE", "LOCAL", "42"⟩, "3", "request_account_create"⟩
  name := "notify_user"
  state := .inProgress
  timestamp := .ofMillis 1700000000000
  products := []

theorem make_atWork :
    make atWork.keys atWork.name (some .inProgress) atWork.timestamp [] = .ok atWork :=
  make_eq_ok_iff.mpr ⟨by decide, nofun, nofun, rfl⟩

/-- A task at work that is ended by a failure, and then once more by an error. -/
theorem agrees_of_issued_atWork :
    let u := atWork.afterAll [.failed " mailbox full ", .errored "bad settings"]
    atWork.Issued ∧ (∀ c ∈ " \u3000".toList, Text.isBlank c = true) ∧ u.Agrees ∧
      u.state = .errored ∧
      u.conclude (.failed " \u3000") = .error (.blankMessage Product.failedName) := by
  intro u
  have hblank : ∀ c ∈ " \u3000".toList, Text.isBlank c = true := by simp [Text.isBlank]
  have hu := agrees_of_issued (.made make_atWork) [.failed " mailbox full ", .errored "bad settings"]
  exact ⟨.made make_atWork, hblank, hu.1, by decide +kernel, (hu.2 (.failed " \u3000") hblank).1⟩

end TaskRecord

end SiteBroker
