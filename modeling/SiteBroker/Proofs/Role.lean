import SiteBroker.Proofs.Fields
import SiteBroker.Role

/-! What stands under a name once the prefix of a role is taken off the names that have it. -/

namespace SiteBroker

namespace Role

variable {role other : Role} {fields : Fields} {name key : String}

/-- The name starts with a lowercase letter, so that what comes before it is part of a word. -/
def Continues (name : String) : Prop := name.toList.head?.any Text.isLowercase = true

instance : DecidablePred Continues := fun name =>
  inferInstanceAs (Decidable (name.toList.head?.any Text.isLowercase = true))

/-- The field is one of the two that tell of the role's person what the name says. -/
def Names (role : Role) (key name : String) : Prop :=
  name ≠ "" ∧ (key = role.snake ++ name ∨ ¬ Continues name ∧ key = role.camel ++ name)

/-- The field tells something of the role's person. -/
def Tells (role : Role) (key : String) : Prop := ∃ name, role.Names key name

/-- One of the two fields that tell of the role's person what the name says is there. -/
def Overrides (role : Role) (fields : Fields) (name : String) : Prop :=
  name ≠ "" ∧ (role.snake ++ name ∈ fields ∨ ¬ Continues name ∧ role.camel ++ name ∈ fields)

instance : DecidablePred (role.Overrides fields) := fun name => inferInstanceAs
  (Decidable (name ≠ "" ∧ (role.snake ++ name ∈ fields ∨ ¬ Continues name ∧ _ ∈ fields)))

theorem after?_eq_some_iff {start : String} {rest : List Char} :
    after? start key = some rest ↔ key = start ++ String.ofList rest := by
  rw [after?, Option.ite_none_right_eq_some, List.isPrefixOf_iff_prefix, ← String.toList_inj,
    String.toList_append, String.toList_ofList, ← String.length_toList]
  constructor
  · rintro ⟨⟨tail, htail⟩, hrest⟩
    rw [← htail, List.drop_left] at hrest
    rw [← htail, Option.some.inj hrest]
  · intro h
    rw [h, List.drop_left]
    exact ⟨List.prefix_append .., rfl⟩

theorem ne_append_of_after? {start : String} (h : after? start key = none) (name : String) :
    key ≠ start ++ name := by
  intro hkey
  rw [← String.ofList_toList (s := name)] at hkey
  rw [after?_eq_some_iff.mpr hkey] at h
  cases h

/-- In the order of their names, the field with the underscore comes after the other one. -/
theorem compare_camel_snake (role : Role) (a b : String) :
    compare (role.camel ++ a) (role.snake ++ b) = .lt := by
  refine compareOfLessAndEq_eq_lt.mpr (String.lt_iff.mpr ?_)
  cases role <;> simp [camel, snake, List.cons_lt_cons_iff]

theorem camel_ne_snake (role : Role) (a b : String) : role.camel ++ a ≠ role.snake ++ b := by
  intro h
  have hlt := role.compare_camel_snake a b
  simp [h, Std.ReflCmp.compare_self] at hlt

theorem bareName?_eq_some_iff : role.bareName? key = some name ↔ role.Names key name := by
  unfold bareName?
  split
  · next rest hrest =>
    obtain rfl := after?_eq_some_iff.mp hrest
    simp only [Names, camel_ne_snake, false_or, String.append_right_inj,
      Option.ite_none_left_eq_some, Option.some.injEq, Bool.or_eq_true, not_or]
    constructor
    · rintro ⟨⟨hne, hword⟩, rfl⟩
      exact ⟨by simpa using hne, by simpa [Continues] using hword, rfl⟩
    · rintro ⟨hne, hword, rfl⟩
      exact ⟨⟨by simpa using hne, by simpa [Continues] using hword⟩, rfl⟩
  · next hcamel =>
    have hkey := ne_append_of_after? hcamel name
    split
    · next rest hrest =>
      obtain rfl := after?_eq_some_iff.mp hrest
      simp only [Names, hkey, and_false, or_false, String.append_right_inj,
        Option.ite_none_left_eq_some, Option.some.injEq]
      constructor
      · rintro ⟨hne, rfl⟩
        exact ⟨by simpa using hne, rfl⟩
      · rintro ⟨hne, rfl⟩
        exact ⟨by simpa using hne, rfl⟩
    · next hsnake => simp [Names, hkey, ne_append_of_after? hsnake name]

theorem isSome_bareName?_iff : (role.bareName? key).isSome = true ↔ role.Tells key := by
  simp only [Option.isSome_iff_exists, bareName?_eq_some_iff, Tells]

instance : DecidablePred role.Tells := fun _ => decidable_of_iff _ isSome_bareName?_iff

/-- A field tells of one person only. -/
theorem Tells.eq (h : role.Tells key) (h' : other.Tells key) : role = other := by
  obtain ⟨name, -, rfl | ⟨-, rfl⟩⟩ := h <;> obtain ⟨name', -, h' | ⟨-, h'⟩⟩ := h' <;>
    cases role <;> cases other <;> simp [camel, snake, ← String.toList_inj] at h' ⊢

theorem getElem?_told (role : Role) (fields : Fields) (name : String) :
    (Fields.ofList (fields.toList.filterMap fun (k, a) => (role.bareName? k).map (·, a)))[name]? =
      if name ≠ "" ∧ role.snake ++ name ∈ fields then fields[role.snake ++ name]?
      else if name ≠ "" ∧ ¬ Continues name ∧ role.camel ++ name ∈ fields then
        fields[role.camel ++ name]?
      else none := by
  split
  · next hsnake =>
    obtain ⟨hne, hmem⟩ := hsnake
    have ha := Std.ExtTreeMap.getElem?_eq_some_getElem hmem
    rw [ha, Fields.getElem?_rename_eq_some_iff]
    refine ⟨_, ha, bareName?_eq_some_iff.mpr ⟨hne, .inl rfl⟩, fun other _ hlt hother => ?_⟩
    rcases (bareName?_eq_some_iff.mp hother).2 with rfl | ⟨-, rfl⟩
    · simp [Std.ReflCmp.compare_self] at hlt
    · exact Std.OrientedCmp.not_lt_of_lt hlt (role.compare_camel_snake name name)
  · next hsnake =>
    split
    · next hcamel =>
      obtain ⟨hne, hword, hmem⟩ := hcamel
      have ha := Std.ExtTreeMap.getElem?_eq_some_getElem hmem
      rw [ha, Fields.getElem?_rename_eq_some_iff]
      refine ⟨_, ha, bareName?_eq_some_iff.mpr ⟨hne, .inr ⟨hword, rfl⟩⟩,
        fun other hmem' hlt hother => ?_⟩
      rcases (bareName?_eq_some_iff.mp hother).2 with rfl | ⟨-, rfl⟩
      · exact hsnake ⟨hne, hmem'⟩
      · simp [Std.ReflCmp.compare_self] at hlt
    · next hcamel =>
      refine Option.eq_none_iff_forall_ne_some.mpr fun a ha => ?_
      obtain ⟨key, hkey, hname, -⟩ := Fields.getElem?_rename_eq_some_iff.mp ha
      have hmem : key ∈ fields := Std.ExtTreeMap.mem_iff_isSome_getElem?.mpr (by rw [hkey]; rfl)
      obtain ⟨hne, rfl | ⟨hword, rfl⟩⟩ := bareName?_eq_some_iff.mp hname
      · exact hsnake ⟨hne, hmem⟩
      · exact hcamel ⟨hne, hword, hmem⟩

theorem getElem?_strip (role : Role) (fields : Fields) (name : String) :
    (role.strip fields)[name]? =
      if name ≠ "" ∧ role.snake ++ name ∈ fields then fields[role.snake ++ name]?
      else if name ≠ "" ∧ ¬ Continues name ∧ role.camel ++ name ∈ fields then
        fields[role.camel ++ name]?
      else if role.Tells name then none else fields[name]? := by
  have hkept : (fields.filter fun k _ => (role.bareName? k).isNone)[name]? =
      if role.Tells name then none else fields[name]? := by
    simp only [Std.ExtTreeMap.getElem?_filter', ← isSome_bareName?_iff]
    cases fields[name]? <;> cases role.bareName? name <;> simp
  rw [strip, Fields.getElem?_overlay, getElem?_told, hkept]
  split
  · next hsnake => rw [Std.ExtTreeMap.getElem?_eq_some_getElem hsnake.2, Option.some_or]
  · split
    · next hcamel => rw [Std.ExtTreeMap.getElem?_eq_some_getElem hcamel.2.2, Option.some_or]
    · rw [Option.none_or]

theorem strip_cases (h : ¬ role.Tells name) (fields : Fields) :
    role.Overrides fields name ∨ (role.strip fields)[name]? = fields[name]? := by
  rw [getElem?_strip, if_neg h]
  split
  · next hsnake => exact .inl ⟨hsnake.1, .inl hsnake.2⟩
  · split
    · next hcamel => exact .inl ⟨hcamel.1, .inr hcamel.2⟩
    · exact .inr rfl

theorem mem_strip_of_overrides (h : role.Overrides fields name) : name ∈ role.strip fields := by
  obtain ⟨hne, htold⟩ := h
  rw [Std.ExtTreeMap.mem_iff_isSome_getElem?, getElem?_strip]
  split
  · next hsnake => exact Std.ExtTreeMap.mem_iff_isSome_getElem?.mp hsnake.2
  · next hsnake =>
    have hcamel := htold.resolve_left fun hmem => hsnake ⟨hne, hmem⟩
    rw [if_pos ⟨hne, hcamel⟩]
    exact Std.ExtTreeMap.mem_iff_isSome_getElem?.mp hcamel.2

/-- What stands under a name once the prefix of a role is taken off. A name that has no prefix is
not lost, and what is told of the other role's person stays where it is, unless the role's own
person has the same name told with a prefix. -/
theorem strip_unprefixes (role : Role) (fields : Fields) (name : String) :
    ((role.strip fields)[name]? =
      if name ≠ "" ∧ role.snake ++ name ∈ fields then fields[role.snake ++ name]?
      else if name ≠ "" ∧ ¬ Continues name ∧ role.camel ++ name ∈ fields then
        fields[role.camel ++ name]?
      else if role.Tells name then none else fields[name]?) ∧
      (name ∈ fields → ¬ role.Tells name → name ∈ role.strip fields ∧
        (role.Overrides fields name ∨ (role.strip fields)[name]? = fields[name]?)) ∧
      ∀ other : Role, other ≠ role → other.Tells name → ¬ role.Tells name ∧
        (role.Overrides fields name ∨ (role.strip fields)[name]? = fields[name]?) := by
  refine ⟨getElem?_strip role fields name, fun hmem h => ?_, fun other hne hother => ?_⟩
  · have hcases := strip_cases h fields
    refine ⟨?_, hcases⟩
    rcases hcases with hover | hsame
    · exact mem_strip_of_overrides hover
    · rw [Std.ExtTreeMap.mem_iff_isSome_getElem?, hsame]
      exact Std.ExtTreeMap.mem_iff_isSome_getElem?.mp hmem
  · have h : ¬ role.Tells name := fun h => hne (hother.eq h)
    exact ⟨h, strip_cases h fields⟩

/-- The first name is told of the user twice, and once of nobody. -/
def twoPeople : Fields := Fields.ofList [("FirstName", .str "Mary"), ("PiLastName", .str "Hopper"),
  ("UserFirstName", .str "Ada"), ("Username", .str "ada"), ("user_FirstName", .str "Augusta")]

theorem strip_unprefixes_twoPeople :
    (user.strip twoPeople)["FirstName"]? = twoPeople["user_FirstName"]? ∧
      (user.strip twoPeople)["UserFirstName"]? = none ∧
      "Username" ∈ user.strip twoPeople ∧
      (user.strip twoPeople)["PiLastName"]? = twoPeople["PiLastName"]? := by
  refine ⟨?_, ?_, ?_, ?_⟩
  · rw [(strip_unprefixes user twoPeople "FirstName").1, if_pos (by decide +kernel)]
    rfl
  · rw [(strip_unprefixes user twoPeople "UserFirstName").1, if_neg (by decide +kernel),
      if_neg (by decide +kernel), if_pos (by decide +kernel)]
  · exact ((strip_unprefixes user twoPeople "Username").2.1 (by decide +kernel)
      (by decide +kernel)).1
  · have hpi := (strip_unprefixes user twoPeople "PiLastName").2.2 pi (by decide)
      (by decide +kernel)
    exact hpi.2.resolve_left (by decide +kernel)

end Role

end SiteBroker
