import SiteBroker.Proofs.Role
import SiteBroker.Proofs.Trail

/-! What requests demand of their fields, and where these come from: from a packet that carries what
its type requires, or from what the work on it has found out. -/

namespace SiteBroker

open Program Desk

theorem Fields.overlay_empty (fields : Fields) : fields.overlay ∅ = fields :=
  Std.ExtTreeMap.ext_getElem? fun name => by
    rw [getElem?_overlay, Std.ExtTreeMap.getElem?_empty, Option.none_or]

namespace FieldRule

variable {fields upper : Fields} {name : String}

theorem hasValue_congr {fields' : Fields} (h : fields'[name]? = fields[name]?) :
    hasValue fields' name = hasValue fields name := by
  unfold hasValue
  rw [h]

/-- What counts as filled in when a packet comes in has a value for requests. -/
theorem hasValue_of_isFilled (h : Packet.isFilled fields[name]? = true) :
    hasValue fields name = true := by
  unfold hasValue
  cases ha : fields[name]? with
  | none => simp [ha, Packet.isFilled] at h
  | some a =>
    cases a with
    | null => simp [ha, Packet.isFilled] at h
    | str s =>
      by_cases hs : s = ""
      · subst hs
        simp [ha, Packet.isFilled, Text.blank] at h
      · simpa using hs
    | bool b => rfl
    | int i => rfl
    | float x => rfl
    | arr items => rfl
    | obj entries => rfl

theorem hasValue_overlay_of_upper (h : hasValue upper name = true) :
    hasValue (fields.overlay upper) name = true := by
  refine (hasValue_congr ?_).trans h
  rw [Fields.getElem?_overlay]
  cases hu : upper[name]? with
  | none => simp [hasValue, hu] at h
  | some a => rfl

theorem hasValue_overlay_of_lower (hu : upper[name]? = none) (h : hasValue fields name = true) :
    hasValue (fields.overlay upper) name = true := by
  refine (hasValue_congr ?_).trans h
  rw [Fields.getElem?_overlay, hu, Option.none_or]

/-- The names of the fields that the demand is about. -/
def names : FieldRule → List String
  | one name => [name]
  | anyOf names => names

theorem isSatisfied_iff {rule : FieldRule} :
    rule.isSatisfied fields = true ↔ ∃ name ∈ rule.names, hasValue fields name = true := by
  cases rule <;> simp [isSatisfied, names]

end FieldRule

namespace FieldTable

variable {table : FieldTable} {fields : Fields}

/-- The fields that are needed are accepted. -/
def Proper (table : FieldTable) : Prop := ∀ rule ∈ table.required, rule.names ⊆ table.allowed

theorem unmet_eq_nil_iff : table.unmet fields = [] ↔
    ∀ rule ∈ table.required, rule.isSatisfied fields = true := by
  simp [unmet, List.filter_eq_nil_iff]

theorem getElem?_project {name : String} (h : name ∈ table.allowed) :
    (table.project fields)[name]? = fields[name]? := by
  rw [project, Fields.restrict, Std.ExtTreeMap.getElem?_filter']
  cases fields[name]? <;> simp [h]

theorem refused_project : table.refused (table.project fields) = [] := by
  simp only [refused, List.filter_eq_nil_iff]
  intro name hname
  have hmem : name ∈ table.project fields := Std.ExtTreeMap.mem_keys.mp hname
  simp only [project, Fields.restrict, Std.ExtTreeMap.mem_filter] at hmem
  obtain ⟨_, h⟩ := hmem
  simpa using h

theorem unmet_project (ht : table.Proper) :
    table.unmet (table.project fields) = table.unmet fields := by
  have hrule : ∀ rule ∈ table.required,
      rule.isSatisfied (table.project fields) = rule.isSatisfied fields := fun rule hr => by
    rw [Bool.eq_iff_iff, FieldRule.isSatisfied_iff, FieldRule.isSatisfied_iff]
    refine exists_congr fun name => and_congr_right fun hname => ?_
    rw [FieldRule.hasValue_congr (getElem?_project (ht rule hr hname))]
  unfold unmet
  rw [List.filter_congr fun rule hr => by rw [hrule rule hr]]

/-- Of the fields that it accepts a table refuses none, so it can only miss some. -/
theorem check_project (ht : table.Proper) {e : ValidationError}
    (h : table.check (table.project fields) = .error e) :
    e = .missing (table.unmet fields) ∧ table.unmet fields ≠ [] := by
  unfold check at h
  rw [refused_project, unmet_project ht] at h
  cases hu : table.unmet fields with
  | nil => simp [hu, ValidationError.ofFields?] at h
  | cons name names =>
    simp only [hu, ValidationError.ofFields?] at h
    cases h
    exact ⟨rfl, List.cons_ne_nil _ _⟩

end FieldTable

theorem Operation.proper_table (o : Operation) : o.table.Proper := by
  have hall : ∀ rule ∈ o.table.required, ∀ name ∈ rule.names, name ∈ o.table.allowed := by
    cases o <;> decide
  exact hall

theorem LookupKind.proper_table (kind : LookupKind) : kind.table.Proper := by
  have hall : ∀ rule ∈ kind.table.required, ∀ name ∈ rule.names, name ∈ kind.table.allowed := by
    cases kind <;> decide
  exact hall

/-- A type of packet that has a person added, in a role. -/
def Role.request : Role → PacketType
  | user => .requestAccountCreate
  | pi => .requestProjectCreate

/-- What has to be told of a person. -/
def Role.demands : List String := ["OrgCode", "Organization", "FirstName", "LastName"]

/-- How a request names what it is not told of a person. -/
def Role.shortfalls : List String :=
  ["OrgCode", "OrgCode|Organization", "FirstName|LastName", "Organization"]

/-- All that is demanded has to be told of a person. -/
def FieldTable.Personal (table : FieldTable) : Prop := ∀ rule ∈ table.required,
  (∃ name ∈ rule.names, name ∈ Role.demands) ∧ rule.describe ∈ Role.shortfalls

instance : DecidablePred FieldTable.Personal := fun table =>
  inferInstanceAs (Decidable (∀ rule ∈ table.required, _ ∧ _))

namespace Role

variable {role : Role} {fields : Fields} {name : String}

/-- What has to be told of a person is a field with the role's prefix of a packet that has the
person added. -/
theorem told_of_demand (role : Role) {name : String} (h : name ∈ demands) :
    role.bareName? (role.camel ++ name) = some name ∧
      role.camel ++ name ∈ role.request.requiredFields ∧ role.snake ++ name ≠ "Resource" := by
  have hall : ∀ name ∈ demands, role.bareName? (role.camel ++ name) = some name ∧
      role.camel ++ name ∈ role.request.requiredFields ∧ role.snake ++ name ≠ "Resource" := by
    cases role <;> decide +kernel
  exact hall name h

/-- What is told of a person has a value if the field with the role's prefix has one, and no other
field that stands for it is without. -/
theorem hasValue_strip (hname : role.bareName? (role.camel ++ name) = some name)
    (hcamel : FieldRule.hasValue fields (role.camel ++ name) = true)
    (hsnake : (fields[role.snake ++ name]?).isSome = true →
      FieldRule.hasValue fields (role.snake ++ name) = true) :
    FieldRule.hasValue (role.strip fields) name = true := by
  obtain ⟨hne, hnames⟩ := bareName?_eq_some_iff.mp hname
  obtain ⟨hword, -⟩ := hnames.resolve_left (role.camel_ne_snake name name)
  by_cases hmem : role.snake ++ name ∈ fields
  · rw [FieldRule.hasValue, getElem?_strip, if_pos ⟨hne, hmem⟩]
    exact hsnake (Std.ExtTreeMap.mem_iff_isSome_getElem?.mp hmem)
  · have hmem' : role.camel ++ name ∈ fields := by
      rw [Std.ExtTreeMap.mem_iff_isSome_getElem?]
      cases hc : fields[role.camel ++ name]? with
      | none => simp [FieldRule.hasValue, hc] at hcamel
      | some a => rfl
    rw [FieldRule.hasValue, getElem?_strip, if_neg fun h => hmem h.2,
      if_pos ⟨hne, hword, hmem'⟩]
    exact hcamel

end Role

namespace Json

theorem floatText_ne_empty (x : Double) : floatText x ≠ "" := by
  have hdecimal : ∀ d, decimalText d ≠ "" := fun d => by
    unfold decimalText
    dsimp only
    split
    · simp [String.append_eq_empty_iff]
    · split
      · simp [String.append_eq_empty_iff]
      · split
        · simp [String.append_eq_empty_iff]
        · simp [String.append_eq_empty_iff, Nat.repr_ne_empty]
  unfold floatText
  split <;> split <;> simp [String.append_eq_empty_iff, hdecimal]

theorem compact_ne_empty (a : Json) : a.compact ≠ "" := by
  cases a with
  | null => simp [compact]
  | bool b => cases b <;> simp [compact]
  | int i => cases i <;> simp [compact, toString, Int.repr, Nat.repr_ne_empty]
  | float x => exact floatText_ne_empty x
  | str s => simp [compact, quote]
  | arr items => cases items <;> simp [compact]
  | obj entries => cases entries <;> simp [compact]

theorem exists_text {a : Json} (hnull : a.isNull = false) (hstr : a ≠ .str "") :
    ∃ text, a.text? = some text ∧ text ≠ "" := by
  cases a with
  | null => cases hnull
  | str s => exact ⟨s, rfl, fun h => hstr (by rw [h])⟩
  | bool b => exact ⟨_, rfl, compact_ne_empty _⟩
  | int i => exact ⟨_, rfl, compact_ne_empty _⟩
  | float x => exact ⟨_, rfl, compact_ne_empty _⟩
  | arr items => exact ⟨_, rfl, compact_ne_empty _⟩
  | obj entries => exact ⟨_, rfl, compact_ne_empty _⟩

end Json

namespace Job

variable {job : Job} {name : String}

theorem getElem?_fields (h : name ≠ "Resource") : job.fields[name]? = job.packet.body[name]? := by
  unfold fields
  split
  · rw [Std.ExtTreeMap.getElem?_insert, if_neg (by simpa using h.symm)]
  · rfl

theorem hasValue_fields (h : name ≠ "Resource") :
    FieldRule.hasValue job.fields name = FieldRule.hasValue job.packet.body name :=
  FieldRule.hasValue_congr (getElem?_fields h)

theorem exists_fieldText (h : FieldRule.hasValue job.fields name = true) :
    ∃ text, job.fieldText? name = some text := by
  unfold FieldRule.hasValue at h
  unfold fieldText? field? Fields.present?
  cases ha : job.fields[name]? with
  | none => simp [ha] at h
  | some a =>
    rw [ha] at h
    have hnull : a.isNull = false := by cases a <;> first | rfl | cases h
    have hstr : a ≠ .str "" := by rintro rfl; simp at h
    obtain ⟨text, ht, hne⟩ := Json.exists_text hnull hstr
    exact ⟨text, by simp [Option.filter, hnull, ht, hne]⟩

theorem fieldText_ne_empty {text : String} (h : job.fieldText? name = some text) : text ≠ "" := by
  obtain ⟨-, hne⟩ := Option.filter_eq_some_iff.mp h
  simpa using hne

end Job

namespace Milestone

variable {entries : List (String × Option String)} {name text : String}

theorem getElem?_textFields {x : Option String} (hd : (entries.map (·.1)).Nodup)
    (h : (name, x) ∈ entries) : (textFields entries)[name]? = x.map .str := by
  refine Fields.getElem?_ofOptions_of_mem ?_ (List.mem_map.mpr ⟨_, h, rfl⟩)
  rw [List.map_map]
  exact hd

theorem hasValue_textFields (hd : (entries.map (·.1)).Nodup) (h : (name, some text) ∈ entries)
    (ht : text ≠ "") : FieldRule.hasValue (textFields entries) name = true := by
  simpa [FieldRule.hasValue, getElem?_textFields hd h] using ht

theorem getElem?_textFields_of_notMem (h : name ∉ entries.map (·.1)) :
    (textFields entries)[name]? = none := by
  refine Fields.getElem?_ofOptions_of_notMem fun a hm => ?_
  obtain ⟨⟨k, x⟩, hk, he⟩ := List.mem_map.mp hm
  obtain ⟨rfl, -⟩ := Prod.mk.inj he
  exact h (List.mem_map.mpr ⟨_, hk, rfl⟩)

end Milestone

/-- Requests that are made from an accepted packet of the type have the field. -/
def PacketType.carries (t : PacketType) (name : String) : Bool :=
  t.requiredFields.contains name ||
    (name == "Resource" && t.requiredFields.contains "ResourceList")

namespace Packet

variable {p : Packet}

/-- A packet that is accepted. If it has to list resources, it names one first. -/
structure Ready (p : Packet) : Prop where
  valid : p.validate = .ok ()
  resource : "ResourceList" ∈ p.type.requiredFields →
    ∃ name rest, p.body["ResourceList"]? = some (.arr (.str name :: rest)) ∧ name ≠ ""

theorem isFilled_of_validate (h : p.validate = .ok ()) {name : String}
    (hname : name ∈ p.type.requiredFields) : isFilled p.body[name]? = true := by
  unfold validate at h
  split at h
  · next hm =>
    obtain ⟨-, hfields⟩ := List.append_eq_nil_iff.mp hm
    simpa using List.filter_eq_nil_iff.mp hfields name hname
  · cases h

/-- What an accepted packet may lack all the same: an account may be requested without a project and
without the key of a grant, and a change of a project without the project. Its record may be named
by an empty text. What is told of a person may be told once more in fields of another spelling, and
these count. -/
inductive Gap (p : Packet) : List String → Prop where
  | account (ht : p.type = .requestAccountCreate)
      (hproject : FieldRule.hasValue p.body "ProjectID" = false)
      (hkey : FieldRule.hasValue p.body "site_grant_key" = false) :
      Gap p ["ProjectID|site_grant_key"]
  | project (ht : p.type = .requestProjectCreate)
      (hold : p.body["AllocationType"]? ≠ some (.str "new"))
      (hproject : FieldRule.hasValue p.body "ProjectID" = false) : Gap p ["ProjectID"]
  | record (ht : p.type = .requestProjectCreate) (hrecord : p.body["RecordID"]? = some (.str "")) :
      Gap p ["RecordID"]
  | person {role : Role} {name : String} {names : List String} (ht : p.type = role.request)
      (hname : name ∈ Role.demands) (hdouble : (p.body[role.snake ++ name]?).isSome = true)
      (hvalue : FieldRule.hasValue p.body (role.snake ++ name) = false)
      (hnames : names ⊆ Role.shortfalls) : Gap p names

/-- Nothing is missing, or the packet has a gap there. -/
def Excuses (p : Packet) (names : List String) : Prop := names = [] ∨ p.Gap names

end Packet

namespace Job

variable {job : Job} {name : String}

theorem hasValue_required (hp : job.packet.Ready)
    (hname : name ∈ job.packet.type.requiredFields) :
    FieldRule.hasValue job.fields name = true := by
  have hne : name ≠ "Resource" := by
    rintro rfl
    revert hname
    cases job.packet.type <;> simp [PacketType.requiredFields]
  rw [hasValue_fields hne]
  exact FieldRule.hasValue_of_isFilled (Packet.isFilled_of_validate hp.valid hname)

theorem hasValue_resource (hp : job.packet.Ready)
    (hlist : "ResourceList" ∈ job.packet.type.requiredFields) :
    FieldRule.hasValue job.fields "Resource" = true := by
  obtain ⟨name, rest, hbody, hne⟩ := hp.resource hlist
  have hget : job.fields["Resource"]? = some (.str name) := by
    unfold fields
    rw [hbody]
    simp
  simpa [FieldRule.hasValue, hget] using hne

theorem hasValue_carried (hp : job.packet.Ready) (h : job.packet.type.carries name = true) :
    FieldRule.hasValue job.fields name = true := by
  rcases Bool.or_eq_true_iff.mp h with h | h
  · exact hasValue_required hp (List.contains_iff_mem.mp h)
  · obtain ⟨hname, hlist⟩ := Bool.and_eq_true_iff.mp h
    obtain rfl : name = "Resource" := by simpa using hname
    exact hasValue_resource hp (List.contains_iff_mem.mp hlist)

/-- What is told of a person in an accepted packet has a value, unless it is told once more without
one. -/
theorem excuses_person {role : Role} {table : FieldTable} {fields : Fields} (hp : job.packet.Ready)
    (ht : job.packet.type = role.request)
    (hfields : ∀ name ∈ Role.demands, fields[name]? = (role.strip job.fields)[name]?)
    (htable : table.Personal) : job.packet.Excuses (table.unmet fields) := by
  by_cases hdouble : ∃ name ∈ Role.demands, (job.packet.body[role.snake ++ name]?).isSome = true ∧
      FieldRule.hasValue job.packet.body (role.snake ++ name) = false
  · obtain ⟨name, hname, hd, hv⟩ := hdouble
    refine .inr (.person ht hname hd hv fun d hd => ?_)
    obtain ⟨rule, hrule, rfl⟩ := List.mem_map.mp hd
    exact (htable rule (List.mem_of_mem_filter hrule)).2
  · refine .inl (FieldTable.unmet_eq_nil_iff.mpr fun rule hrule => ?_)
    obtain ⟨⟨name, hname, hdemand⟩, -⟩ := htable rule hrule
    refine FieldRule.isSatisfied_iff.mpr ⟨name, hname, ?_⟩
    rw [FieldRule.hasValue_congr (hfields name hdemand)]
    obtain ⟨hbare, hrequired, hother⟩ := role.told_of_demand hdemand
    refine Role.hasValue_strip hbare (hasValue_required hp (ht ▸ hrequired)) fun hd => ?_
    rw [getElem?_fields hother] at hd
    rw [hasValue_fields hother]
    by_contra hv
    exact hdouble ⟨name, hdemand, hd, Bool.eq_false_iff.mpr hv⟩

/-- Whatever a request needs is given by the work, or by the packet and not by the work. -/
theorem unmet_eq_nil {table : FieldTable} {extra : Fields} (hp : job.packet.Ready)
    (given carried : List String) (hgiven : ∀ name ∈ given, FieldRule.hasValue extra name = true)
    (hcarried : ∀ name ∈ carried, job.packet.type.carries name = true ∧ extra[name]? = none)
    (hrules : ∀ rule ∈ table.required, ∃ name ∈ rule.names, name ∈ given ∨ name ∈ carried) :
    table.unmet (job.requestFields none extra) = [] := by
  refine FieldTable.unmet_eq_nil_iff.mpr fun rule hrule => ?_
  obtain ⟨name, hname, h⟩ := hrules rule hrule
  refine FieldRule.isSatisfied_iff.mpr ⟨name, hname, ?_⟩
  rcases h with h | h
  · exact FieldRule.hasValue_overlay_of_upper (hgiven name h)
  · obtain ⟨hc, hnone⟩ := hcarried name h
    exact FieldRule.hasValue_overlay_of_lower hnone (hasValue_carried hp hc)

end Job

namespace LookupRequest

theorem of_error {kind : LookupKind} {fields : Fields} {e : ValidationError}
    (h : ofPacketFields kind fields = .error e) :
    e = .missing (kind.table.unmet fields) ∧ kind.table.unmet fields ≠ [] := by
  unfold ofPacketFields build at h
  split at h
  · cases h
  · next e' he =>
    cases h
    exact FieldTable.check_project kind.proper_table he

end LookupRequest

namespace TaskRequest

theorem of_error {operation : Operation} {keys : TaskKeys} {name : String} {timestamp : Instant}
    {fields : Fields} {e : ValidationError}
    (h : ofPacketFields operation keys name timestamp fields = .error e) :
    e = .missing (operation.table.unmet fields) ∧ operation.table.unmet fields ≠ [] := by
  unfold ofPacketFields build at h
  split at h
  · cases h
  · next e' he =>
    cases h
    exact FieldTable.check_project operation.proper_table he

end TaskRequest

namespace Desk

variable {σ : Type} {x y z : Desk σ} {e : ServiceError}

/-- The last call that was made from one desk to the other ended in an error. -/
def Fails (x y : Desk σ) (e : ServiceError) : Prop :=
  ∃ c before, y.world.calls = x.world.calls ++ (before ++ [⟨c, .error e⟩])

theorem Fails.prepend (h : Fails y z e) (hxy : Told x y) : Fails x z e := by
  obtain ⟨c, before, hc⟩ := h
  obtain ⟨news, hn, -⟩ := hxy
  exact ⟨c, news ++ before, by rw [hc, hn, List.append_assoc, List.append_assoc]⟩

end Desk

namespace Services

variable {σ : Type} (s : Services σ)

/-- What is not transient is reported as it was answered. -/
theorem attempt_of_validation {policy : RetryPolicy} {c : Call} {v : ValidationError}
    {episode episode' : Option Episode} {w w' : World σ}
    (h : policy.attempt s.clock (s.ask c) episode w = (.error (.validation v), episode', w')) :
    w'.calls = w.calls ++ [⟨c, .error (.validation v)⟩] := by
  have hask : ∀ w₁ : World σ, w₁.calls = w.calls →
      (s.ask c w₁).2.calls = w.calls ++ [⟨c, (s.ask c w₁).1⟩] := fun w₁ h => by
    rw [← h]
    exact World.calls_note_called _ c _
  -- Errors that the policy itself makes up are about lost connections or time that ran out.
  have hfailure : ∀ now e, (policy.onFailure episode now e).1 ≠ .validation v := by
    intro now e
    have htransient : policy.transient e ≠ .validation v := by
      cases e <;> simp [RetryPolicy.transient]
    unfold RetryPolicy.onFailure
    repeat' split
    all_goals first | exact htransient | simp
  unfold RetryPolicy.attempt at h
  rcases episode with _ | ep
  case' none => have hcalls := hask w rfl
  case' some => have hcalls := hask _ (s.calls_sleep ep.delay w)
  all_goals
    dsimp only at h
    split at h
    · cases h
    · next e w₂ he =>
      rw [he] at hcalls
      split at h
      · exact absurd (Except.error.inj (congrArg Prod.fst h)) (hfailure _ _)
      · cases h
        exact hcalls

theorem calls_of_validation {c : Call} {v : ValidationError} {w w' : World σ}
    (h : s.call c w = .error (.validation v) w') :
    w'.calls = w.calls ++ [⟨c, .error (.validation v)⟩] := by
  unfold call at h
  rcases ha : (s.policy c.side).attempt s.clock (s.ask c) (w.episode c.side) w with
    ⟨_ | _, episode, w₁⟩ <;> rw [ha] at h <;> cases h
  exact (World.calls_setEpisode _ _ _).trans (s.attempt_of_validation ha)

theorem fails_of_call {c : Call} {v : ValidationError} {x y : Desk σ}
    (h : Desk.outside (s.call c) x = .error (.validation v) y) : Fails x y (.validation v) := by
  unfold Desk.outside at h
  rcases hc : s.call c x.world with ⟨a, w⟩ | ⟨e, w⟩ <;> rw [hc] at h <;> cases h
  exact ⟨c, [], s.calls_of_validation hc⟩

variable {v : ValidationError} {x y : Desk σ}

theorem lookup_of_validation {kind : LookupKind} {role : Option Role} {extra : Fields}
    (h : s.lookup kind role extra x = .error (.validation v) y) :
    (v = .missing (kind.table.unmet (x.job.requestFields role extra)) ∧
      kind.table.unmet (x.job.requestFields role extra) ≠ []) ∨ Fails x y (.validation v) := by
  unfold lookup at h
  rw [currentJob_bind] at h
  cases hr : LookupRequest.ofPacketFields kind (x.job.requestFields role extra) with
  | error e =>
    rw [hr] at h
    cases h
    exact .inl (LookupRequest.of_error hr)
  | ok request =>
    have hv : (Desk.validated (.ok request) : Work σ LookupRequest) x = .ok request x := rfl
    rw [hr, bind_of_ok hv] at h
    exact .inr (s.fails_of_call h)

theorem clear_of_validation (h : s.clear x = .error (.validation v) y) :
    Fails x y (.validation v) := by
  unfold clear at h
  rw [currentJob_bind] at h
  exact s.fails_of_call h

theorem submit_of_validation {operation : Operation} {name : String} {role : Option Role}
    {extra : Fields} (h : s.submit operation name role extra x = .error (.validation v) y) :
    (v = .missing (operation.table.unmet (x.job.taskFields operation role extra)) ∧
      operation.table.unmet (x.job.taskFields operation role extra) ≠ []) ∨
    Fails x y (.validation v) := by
  unfold submit at h
  rw [currentJob_bind] at h
  obtain ⟨now, w, hnow, hw⟩ : ∃ now w, (Desk.outside s.now : Work σ Instant) x =
      .ok now { x with world := w } ∧ w.calls = x.world.calls :=
    ⟨_, _, rfl, s.calls_read x.world⟩
  rw [bind_of_ok hnow] at h
  cases hr : TaskRequest.ofPacketFields operation x.job.taskKeys name now
      (x.job.taskFields operation role extra) with
  | error e =>
    simp only [hr] at h
    cases h
    exact .inl (TaskRequest.of_error hr)
  | ok request =>
    simp only [hr] at h
    cases hc : Desk.outside (s.call (.submit request)) { x with world := w } with
    | ok t z =>
      have hrun := bind_of_ok hc fun t : TaskRecord => do
        Desk.setJob (x.job.putTask t)
        return t
      cases hrun.symm.trans h
    | error e z =>
      have hrun := bind_of_error hc fun t : TaskRecord => do
        Desk.setJob (x.job.putTask t)
        return t
      cases hrun.symm.trans h
      obtain ⟨c, before, hcalls⟩ := s.fails_of_call hc
      exact .inr ⟨c, before, hcalls.trans (by rw [hw])⟩

theorem runTask_of_validation {operation : Operation} {role : Option Role} {extra : Fields}
    (h : s.runTask operation role extra x = .error (.validation v) y) :
    (v = .missing (operation.table.unmet (x.job.taskFields operation role extra)) ∧
      operation.table.unmet (x.job.taskFields operation role extra) ≠ []) ∨
    Fails x y (.validation v) := by
  have hsettled : ∀ (t : TaskRecord) (z : Desk σ),
      (Desk.lift t.settled : Work σ TaskRecord) z ≠ .error (.validation v) y := by
    intro t z h
    unfold TaskRecord.settled at h
    split at h <;> cases h
  unfold runTask at h
  cases hname : s.taskName? operation with
  | none =>
    rw [hname] at h
    cases h
  | some name =>
    simp only [hname, currentJob_bind] at h
    cases ht : (x.job.tasks.get? name).filter (!·.isOpen) with
    | some t =>
      rw [ht] at h
      exact absurd h (hsettled t x)
    | none =>
      simp only [ht] at h
      cases hsub : s.submit operation name role extra x with
      | ok t z =>
        rw [bind_of_ok hsub] at h
        exact absurd h (hsettled t z)
      | error e z =>
        rw [bind_of_error hsub] at h
        cases h
        exact s.submit_of_validation hsub

end Services

namespace Milestone

variable {σ : Type} (s : Services σ) {m : Milestone} {x y : Desk σ} {v : ValidationError}

/-- What is made of an answer or of a task is not turned down as a request is. -/
structure Clean (m : Milestone) : Prop where
  ofFound : ∀ job found v, m.ofFound job found ≠ .error (.validation v)
  ofTask : ∀ job t v, m.ofTask job t ≠ .error (.validation v)

/-- The demands that the lookup of a milestone does not meet, or its task. -/
def Unmet (m : Milestone) (job : Job) (names : List String) : Prop :=
  (∃ kind extra, m.lookup = some (kind, extra) ∧
    names = kind.table.unmet (job.requestFields m.role (extra job))) ∨
  names = m.operation.table.unmet (job.taskFields m.operation m.role (m.extra job))

theorem look_of_validation (hm : m.Clean) (h : m.look s x = .error (.validation v) y) :
    (∃ names, v = .missing names ∧ names ≠ [] ∧ m.Unmet x.job names) ∨
      Fails x y (.validation v) := by
  unfold look at h
  cases hl : m.lookup with
  | none =>
    simp only [hl] at h
    cases h
  | some lookup =>
    obtain ⟨kind, extra⟩ := lookup
    simp only [hl, currentJob_bind] at h
    split at h
    · cases h
    · cases hlook : s.lookup kind m.role (extra x.job) x with
      | error e z =>
        rw [bind_of_error hlook] at h
        cases h
        rcases s.lookup_of_validation hlook with ⟨rfl, hne⟩ | hf
        · exact .inl ⟨_, rfl, hne, .inl ⟨kind, extra, hl, rfl⟩⟩
        · exact .inr hf
      | ok found z =>
        rw [bind_of_ok hlook] at h
        cases found with
        | none => cases h
        | some found =>
          cases ho : m.ofFound x.job found with
          | ok p =>
            simp only [ho] at h
            cases h
          | error e =>
            simp only [ho] at h
            cases h
            exact absurd ho (hm.ofFound _ _ _)

theorem perform_of_validation (hm : m.Clean) (h : m.perform s x = .error (.validation v) y) :
    (∃ names, v = .missing names ∧ names ≠ [] ∧ m.Unmet x.job names) ∨
      Fails x y (.validation v) := by
  unfold perform at h
  rw [currentJob_bind] at h
  cases hrun : s.runTask m.operation m.role (m.extra x.job) x with
  | error e z =>
    rw [bind_of_error hrun] at h
    cases h
    rcases s.runTask_of_validation hrun with ⟨rfl, hne⟩ | hf
    · exact .inl ⟨_, rfl, hne, .inr rfl⟩
    · exact .inr hf
  | ok t z =>
    rw [bind_of_ok hrun] at h
    split at h
    · cases ho : m.ofTask x.job t with
      | ok p =>
        simp only [ho] at h
        cases h
      | error e =>
        simp only [ho] at h
        cases h
        exact absurd ho (hm.ofTask _ _ _)
    · cases h

/-- A milestone is turned down for what one of its requests lacks, or by an answer. -/
theorem run_of_validation (hm : m.Clean) (h : m.run s x = .error (.validation v) y) :
    (∃ names, v = .missing names ∧ names ≠ [] ∧ m.Unmet x.job names) ∨
      Fails x y (.validation v) := by
  unfold run at h
  rw [currentJob_bind] at h
  split at h
  · cases h
  · cases hlook : m.look s x with
    | error e z =>
      rw [bind_of_error hlook] at h
      cases h
      exact m.look_of_validation s hm hlook
    | ok found z =>
      rw [bind_of_ok hlook] at h
      cases found with
      | some p => cases h
      | none =>
        have hj : z.job = x.job := by simpa [hlook] using m.job_look s x
        have htold : Told x z := by simpa [hlook] using m.goes_look (upheld_told s) x
        rcases perform_of_validation s hm h with ⟨names, hv, hne, hu⟩ | hf
        · exact .inl ⟨names, hv, hne, hj ▸ hu⟩
        · exact .inr (hf.prepend htold)

end Milestone

end SiteBroker
