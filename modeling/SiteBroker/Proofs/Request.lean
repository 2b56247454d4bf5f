import SiteBroker.Proofs.Demands
import SiteBroker.Request

/-! Which fields make a request. A request takes what its table accepts and leaves the rest, or, if
it is built strictly, refuses the rest. -/

namespace SiteBroker

namespace FieldRule

variable {fields : Fields} {name : String} {rule : FieldRule}

/-- One of the fields that the demand lists is there, and it is neither null nor the empty text. -/
def Met (fields : Fields) (rule : FieldRule) : Prop :=
  ∃ name ∈ rule.names, ∃ a, fields[name]? = some a ∧ a ≠ .null ∧ a ≠ .str ""

theorem hasValue_iff :
    hasValue fields name = true ↔ ∃ a, fields[name]? = some a ∧ a ≠ .null ∧ a ≠ .str "" := by
  unfold hasValue
  cases fields[name]? with
  | none => simp
  | some a => cases a <;> simp

theorem isSatisfied_iff_met : rule.isSatisfied fields = true ↔ rule.Met fields := by
  simp only [isSatisfied_iff, hasValue_iff, Met]

instance : DecidablePred (Met fields) := fun _ => decidable_of_iff _ isSatisfied_iff_met

end FieldRule

namespace FieldTable

variable {table : FieldTable} {fields : Fields} {ρ : Type} {request : Fields → ρ}

/-- The demands that are not met, as they are told, in the order of the table. -/
def absent (table : FieldTable) (fields : Fields) : List String :=
  (table.required.filter fun rule => ¬ rule.Met fields).map (·.describe)

/-- In the order of their names, the fields that the table does not accept. -/
structure Unknown (table : FieldTable) (fields : Fields) (names : List String) : Prop where
  sorted : names.Pairwise (· < ·)
  mem_iff : ∀ name, name ∈ names ↔ name ∈ fields ∧ name ∉ table.allowed

/-- The error that says no more than what is wrong. -/
inductive Narrowest : List String → List String → ValidationError → Prop
  | missing {absent : List String} (h : absent ≠ []) : Narrowest absent [] (.missing absent)
  | disallowed {unknown : List String} (h : unknown ≠ []) :
    Narrowest [] unknown (.disallowed unknown)
  | both {absent unknown : List String} (h : absent ≠ []) (h' : unknown ≠ []) :
    Narrowest absent unknown (.missingAndDisallowed absent unknown)

theorem unmet_eq_absent : table.unmet fields = table.absent fields := by
  unfold unmet absent
  congr 1
  refine List.filter_congr fun rule _ => ?_
  rw [Bool.eq_iff_iff, decide_eq_true_eq, ← FieldRule.isSatisfied_iff_met]
  simp

theorem absent_eq_nil_iff : table.absent fields = [] ↔ ∀ rule ∈ table.required, rule.Met fields := by
  simp [absent, List.filter_eq_nil_iff]

theorem unknown_refused : table.Unknown fields (table.refused fields) where
  sorted := by
    have hkeys := Std.ExtTreeMap.ordered_keys (t := fields)
    exact (hkeys.imp compareOfLessAndEq_eq_lt.mp).filter _
  mem_iff name := by simp [refused]

theorem refused_eq_nil_iff : table.refused fields = [] ↔ ∀ name ∈ fields, name ∈ table.allowed := by
  simp [refused, List.filter_eq_nil_iff]

/-- A check tells all that is wrong. -/
theorem check_eq_error_iff {e : ValidationError} : table.check fields = .error e ↔
    Narrowest (table.absent fields) (table.refused fields) e := by
  unfold check
  rw [unmet_eq_absent]
  generalize table.absent fields = absent, table.refused fields = unknown
  constructor
  · intro h
    cases absent with
    | nil =>
      cases unknown with
      | nil => cases h
      | cons name names =>
        cases h
        exact .disallowed (List.cons_ne_nil _ _)
    | cons rule rules =>
      cases unknown with
      | nil =>
        cases h
        exact .missing (List.cons_ne_nil _ _)
      | cons name names =>
        cases h
        exact .both (List.cons_ne_nil _ _) (List.cons_ne_nil _ _)
  · intro h
    cases h with
    | missing h =>
      obtain ⟨rule, rules, rfl⟩ := List.exists_cons_of_ne_nil h
      rfl
    | disallowed h =>
      obtain ⟨name, names, rfl⟩ := List.exists_cons_of_ne_nil h
      rfl
    | both h h' =>
      obtain ⟨rule, rules, rfl⟩ := List.exists_cons_of_ne_nil h
      obtain ⟨name, names, rfl⟩ := List.exists_cons_of_ne_nil h'
      rfl

theorem check_eq_ok_iff : table.check fields = .ok () ↔
    (∀ rule ∈ table.required, rule.Met fields) ∧ ∀ name ∈ fields, name ∈ table.allowed := by
  rw [← absent_eq_nil_iff, ← refused_eq_nil_iff]
  unfold check
  rw [unmet_eq_absent]
  cases table.absent fields <;> cases table.refused fields <;> simp [ValidationError.ofFields?]

/-- The request for some fields, if they pass the check. -/
def accept (table : FieldTable) (request : Fields → ρ) (fields : Fields) :
    Except ValidationError ρ :=
  match table.check fields with
  | .ok () => .ok (request fields)
  | .error e => .error e

theorem accept_eq_ok_iff {r : ρ} : table.accept request fields = .ok r ↔
    table.check fields = .ok () ∧ r = request fields := by
  unfold accept
  cases table.check fields <;> simp [eq_comm]

theorem accept_eq_error_iff {e : ValidationError} :
    table.accept request fields = .error e ↔ table.check fields = .error e := by
  unfold accept
  cases table.check fields <;> simp

/-- How a table screens fields for a request: one that takes what the table accepts of them, and
one that is built strictly. -/
structure Screens (table : FieldTable) (fields : Fields) (request : Fields → ρ)
    (lenient strict : Except ValidationError ρ) : Prop where
  succeeds : (∃ r, lenient = .ok r) ↔ ∀ rule ∈ table.required, rule.Met fields
  carries : ∀ r, lenient = .ok r → ∃ kept, r = request kept ∧
    ∀ name : String, kept[name]? = if name ∈ table.allowed then fields[name]? else none
  misses : ∀ e, lenient = .error e → e = .missing (table.absent fields)
  succeeds_strict : (∃ r, strict = .ok r) ↔
    (∃ r, lenient = .ok r) ∧ ∀ name ∈ fields, name ∈ table.allowed
  carries_strict : ∀ r, strict = .ok r → r = request fields
  rejects : ∀ e, strict = .error e →
    ∃ unknown, table.Unknown fields unknown ∧ Narrowest (table.absent fields) unknown e

theorem getElem?_project_eq (name : String) : (table.project fields)[name]? =
    if name ∈ table.allowed then fields[name]? else none := by
  by_cases h : name ∈ table.allowed
  · rw [getElem?_project h, if_pos h]
  · rw [project, Fields.restrict, Std.ExtTreeMap.getElem?_filter', if_neg h]
    cases fields[name]? <;> simp [h]

/-- A table that accepts what it needs misses nothing in what it takes that was there before. -/
theorem check_project_eq_ok_iff (ht : table.Proper) : table.check (table.project fields) = .ok () ↔
    ∀ rule ∈ table.required, rule.Met fields := by
  have hall : ∀ name ∈ table.project fields, name ∈ table.allowed :=
    refused_eq_nil_iff.mp refused_project
  rw [check_eq_ok_iff, and_iff_left hall, ← absent_eq_nil_iff, ← absent_eq_nil_iff,
    ← unmet_eq_absent, ← unmet_eq_absent, unmet_project ht]

theorem screens_accept (ht : table.Proper) (request : Fields → ρ) (fields : Fields) :
    table.Screens fields request (table.accept request (table.project fields))
      (table.accept request fields) where
  succeeds := by
    simp only [accept_eq_ok_iff, check_project_eq_ok_iff ht, exists_and_left, exists_eq, and_true]
  carries r hr := ⟨_, (accept_eq_ok_iff.mp hr).2, getElem?_project_eq⟩
  misses e he := by
    rw [← unmet_eq_absent]
    exact (check_project ht (accept_eq_error_iff.mp he)).1
  succeeds_strict := by
    simp only [accept_eq_ok_iff, check_project_eq_ok_iff ht, check_eq_ok_iff, exists_and_left,
      exists_eq, and_true]
  carries_strict r hr := (accept_eq_ok_iff.mp hr).2
  rejects e he := ⟨_, unknown_refused, check_eq_error_iff.mp (accept_eq_error_iff.mp he)⟩

end FieldTable

/-- Whatever fields there are, a request that takes what its table accepts is made exactly if they
meet what the table demands, and a strict one if there is no other field besides. -/
theorem requests_follow_tables (fields : Fields) :
    (∀ (operation : Operation) (keys : TaskKeys) (taskName : String) (timestamp : Instant),
      operation.table.Screens fields (TaskRequest.mk operation keys taskName timestamp)
        (TaskRequest.ofPacketFields operation keys taskName timestamp fields)
        (TaskRequest.build operation keys taskName timestamp fields)) ∧
      ∀ kind : LookupKind, kind.table.Screens fields (LookupRequest.mk kind)
        (LookupRequest.ofPacketFields kind fields) (LookupRequest.build kind fields) :=
  ⟨fun operation _ _ _ => FieldTable.screens_accept operation.proper_table _ fields,
    fun kind => FieldTable.screens_accept kind.proper_table _ fields⟩

end SiteBroker
