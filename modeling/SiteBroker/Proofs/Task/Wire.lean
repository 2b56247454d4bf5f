import SiteBroker.Proofs.Split
import SiteBroker.Proofs.Task
import SiteBroker.Proofs.Wire

/-! What is read from the JSON that the record of a task is written as. Reading makes the record
anew, so that its products decide once more which state it is in. -/

namespace SiteBroker

namespace Fields

variable {lower upper : List (String × Json)} {name : String} {a : Json}

theorem getElem?_ofList_of_mem (hd : (lower.map (·.1)).Nodup) (h : (name, a) ∈ lower) :
    (ofList lower)[name]? = some a := by
  refine Std.ExtTreeMap.getElem?_ofList_of_mem Std.ReflCmp.compare_self ?_ h
  exact (List.pairwise_map.mp hd).imp fun hne => by simpa using hne

theorem getElem?_ofList_of_notMem (h : name ∉ lower.map (·.1)) : (ofList lower)[name]? = none :=
  Std.ExtTreeMap.getElem?_ofList_of_contains_eq_false (by simpa using h)

/-- Entries of which no two have the same name are all found, however they are put together. -/
theorem getElem?_overlay_of_mem (hd : ((lower ++ upper).map (·.1)).Nodup)
    (h : (name, a) ∈ lower ++ upper) : ((ofList lower).overlay (ofList upper))[name]? = some a := by
  rw [List.map_append] at hd
  obtain ⟨hlower, hupper, hdisjoint⟩ := List.nodup_append.mp hd
  rw [getElem?_overlay]
  rcases List.mem_append.mp h with h | h
  · have hname : name ∉ upper.map (·.1) := fun hm =>
      hdisjoint name (List.mem_map_of_mem (f := (·.1)) h) name hm rfl
    rw [getElem?_ofList_of_notMem hname, Option.none_or, getElem?_ofList_of_mem hlower h]
  · rw [getElem?_ofList_of_mem hupper h, Option.some_or]

end Fields

theorem Json.listOf?_map {α : Type} {read : Json → Option α} {write : α → Json}
    (h : ∀ x, read (write x) = some x) (xs : List α) :
    listOf? read (.arr (xs.map write)) = some xs := by
  show (xs.map write).mapM read = some xs
  induction xs with
  | nil => rfl
  | cons x xs ih => simp [List.mapM_cons, h, ih]

theorem Product.ofJson?_toJson (p : Product) : ofJson? p.toJson = some p := rfl

theorem TaskState.ofName?_name (state : TaskState) : ofName? state.name = some state := by
  cases state <;> rfl

theorem Instant.ofMillis?_millis {ms : Int} {t : Instant} (h : ofMillis? ms = some t) :
    ofMillis? t.millis = some t := by
  have ht : t = ofMillis ms := by
    unfold ofMillis? at h
    dsimp only at h
    split at h
    · exact (Option.some.inj h).symm
    · cases h
  have hms : (ofMillis ms).millis = ms := by
    simp only [millis, ofMillis]
    omega
  rw [ht, hms, h, ht]

namespace TaskRecord

variable {t : TaskRecord}

/-- The parts of a record under the names that they are written under. -/
def entries (t : TaskRecord) : List (String × Json) :=
  [("job_id", .str t.keys.jobId),
    ("amie_transaction_id", .str t.keys.transactionId.text),
    ("amie_packet_id", .str t.keys.packetId),
    ("amie_packet_type", .str t.keys.packetType),
    ("task_name", .str t.name),
    ("task_state", .str t.state.name),
    ("timestamp", .int t.timestamp.millis),
    ("products", .arr (t.products.map Product.toJson))]

theorem field?_toJson (t : TaskRecord) : ∀ e ∈ t.entries, Json.field? e.1 t.toJson = some e.2 := by
  have hnames : (t.entries.map (·.1)).Nodup := by
    show ["job_id", "amie_transaction_id", "amie_packet_id", "amie_packet_type", "task_name",
      "task_state", "timestamp", "products"].Nodup
    decide
  intro e he
  exact (Json.field?_toJson _ _).trans (Fields.getElem?_overlay_of_mem hnames he)

/-- Reading a record makes it of what was written, if the transaction can be told. -/
theorem ofJson?_toJson (htime : ∃ ms, Instant.ofMillis? ms = some t.timestamp) :
    ofJson? t.toJson = (TransactionId.parse? t.keys.transactionId.text).bind fun id =>
      (make { t.keys with transactionId := id } t.name (some t.state) t.timestamp
        t.products).toOption := by
  have hfield := t.field?_toJson
  have hproducts : Json.listOf? Product.ofJson? (.arr (t.products.map Product.toJson)) =
      some t.products := Json.listOf?_map Product.ofJson?_toJson _
  have hinstant : instant? (.int t.timestamp.millis) = some t.timestamp := by
    obtain ⟨ms, hms⟩ := htime
    exact Instant.ofMillis?_millis hms
  have hstate : Json.optional? TaskState.ofJson? (some (.str t.state.name)) =
      some (some t.state) := congrArg (Option.map some) (TaskState.ofName?_name t.state)
  obtain ⟨entries, hentries⟩ : ∃ entries, t.toJson = .obj entries := ⟨_, rfl⟩
  rw [hentries] at hfield ⊢
  simp only [TaskRecord.entries, List.forall_mem_cons] at hfield
  obtain ⟨hjob, hid, hpacket, htype, hname, hs, ht, hp, -⟩ := hfield
  simp only [ofJson?, TaskKeys.ofFields?, hjob, hid, hpacket, htype, hname, hs, ht, hp, hproducts,
    hinstant, hstate, Option.bind_eq_bind, Option.bind_some, Json.str?_str]
  cases TransactionId.parse? t.keys.transactionId.text <;> rfl

/-- The last verdict that could be entered is an error, and the task had failed before it. -/
def Overruled (t : TaskRecord) (vs : List Verdict) : Prop :=
  ∃ before message after, vs = before ++ .errored message :: after ∧
    Text.blank message = false ∧ (∀ v ∈ after, Text.blank v.message = true) ∧
    hasProduct (t.afterAll before).products Product.failedName = true

theorem afterAll_concat (t : TaskRecord) (vs : List Verdict) (v : Verdict) :
    t.afterAll (vs ++ [v]) = (t.afterAll vs).after v := List.foldl_concat ..

theorem fixed_after (t : TaskRecord) (v : Verdict) :
    (t.after v).keys = t.keys ∧ (t.after v).name = t.name ∧
      (t.after v).timestamp = t.timestamp := by
  cases h : Text.blank v.message with
  | true => simp [after_of_blank h]
  | false => simp [after_of_message h]

theorem fixed_afterAll (t : TaskRecord) (vs : List Verdict) :
    (t.afterAll vs).keys = t.keys ∧ (t.afterAll vs).name = t.name ∧
      (t.afterAll vs).timestamp = t.timestamp := by
  induction vs using List.reverseRecOn with
  | nil => exact ⟨rfl, rfl, rfl⟩
  | append_singleton vs v ih =>
    obtain ⟨hkeys, hname, htime⟩ := (t.afterAll vs).fixed_after v
    rw [afterAll_concat, hkeys, hname, htime]
    exact ih

theorem overruled_concat_of_blank {vs : List Verdict} {v : Verdict}
    (h : Text.blank v.message = true) : t.Overruled (vs ++ [v]) ↔ t.Overruled vs := by
  constructor
  · rintro ⟨before, message, after, hsplit, hmessage, hafter, hfailed⟩
    rcases split_concat hsplit with ⟨-, rfl⟩ | ⟨rest, rfl⟩
    · exact absurd (hmessage.symm.trans h) Bool.false_ne_true
    · obtain rfl : after = rest ++ [v] := by simpa using hsplit.symm
      exact ⟨before, message, rest, rfl, hmessage, fun w hw => hafter w (by simp [hw]), hfailed⟩
  · rintro ⟨before, message, after, rfl, hmessage, hafter, hfailed⟩
    refine ⟨before, message, after ++ [v], by simp, hmessage, fun w hw => ?_, hfailed⟩
    rcases List.mem_append.mp hw with hw | hw
    · exact hafter w hw
    · rwa [List.mem_singleton.mp hw]

theorem overruled_concat_of_message {vs : List Verdict} {v : Verdict}
    (h : Text.blank v.message = false) : t.Overruled (vs ++ [v]) ↔
      v.state = .errored ∧ hasProduct (t.afterAll vs).products Product.failedName = true := by
  constructor
  · rintro ⟨before, message, after, hsplit, hmessage, hafter, hfailed⟩
    rcases split_concat hsplit with ⟨rfl, rfl⟩ | ⟨rest, rfl⟩
    · exact ⟨rfl, hfailed⟩
    · obtain rfl : after = rest ++ [v] := by simpa using hsplit.symm
      exact absurd (hafter v (by simp)) (by simp [h])
  · rintro ⟨hstate, hfailed⟩
    cases v with
    | failed message => cases hstate
    | errored message => exact ⟨vs, message, [], rfl, h, by simp, hfailed⟩

/-- After an error that comes upon a failure, state and products say different things. -/
theorem overruled_iff (ht : ¬ (t.state = .errored ∧
    hasProduct t.products Product.failedName = true)) (vs : List Verdict) :
    t.Overruled vs ↔ (t.afterAll vs).state = .errored ∧
      hasProduct (t.afterAll vs).products Product.failedName = true := by
  induction vs using List.reverseRecOn with
  | nil =>
    refine iff_of_false ?_ ht
    rintro ⟨before, message, after, hsplit, -⟩
    simp at hsplit
  | append_singleton vs v ih =>
    rw [afterAll_concat]
    cases hblank : Text.blank v.message with
    | true => rw [overruled_concat_of_blank hblank, after_of_blank hblank, ih]
    | false =>
      rw [overruled_concat_of_message hblank, after_of_message hblank]
      refine and_congr_right fun hstate => ?_
      have hproduct : (v.product == Product.failedName) = false := by
        cases v with
        | failed message => cases hstate
        | errored message => rfl
      simp [hasProduct, hproduct]

theorem Agrees.decided_eq_iff (h : t.Agrees) : decided t.products t.state = t.state ↔
    ¬ (t.state = .errored ∧ hasProduct t.products Product.failedName = true) := by
  unfold decided
  cases hfailed : hasProduct t.products Product.failedName with
  | true =>
    rw [if_pos rfl]
    constructor
    · rintro hs ⟨he, -⟩
      rw [he] at hs
      cases hs
    · intro hne
      by_contra hs
      have he : t.state ≠ .errored := fun he => hne ⟨he, rfl⟩
      exact absurd (h.neither (Ne.symm hs) he).1 (by simp [hfailed])
  | false =>
    rw [if_neg Bool.false_ne_true]
    refine iff_of_true ?_ fun hne => Bool.false_ne_true hne.2
    have hs : t.state ≠ .failed := fun hs => Bool.false_ne_true (hfailed.symm.trans (h.failed hs))
    cases herrored : hasProduct t.products Product.erroredName with
    | true =>
      rw [if_pos rfl]
      by_contra he
      exact absurd (h.neither hs (Ne.symm he)).2 (by simp [herrored])
    | false => rw [if_neg Bool.false_ne_true]

theorem make_of_agrees (h : t.Agrees) (hname : Text.blank t.name = false) :
    make t.keys t.name (some t.state) t.timestamp t.products =
      .ok { t with state := decided t.products t.state } :=
  make_eq_ok_iff.mpr ⟨hname, fun hs => h.failed (Option.some.inj hs),
    fun hs => h.errored (Option.some.inj hs), rfl⟩

/-- What a record that agrees with its products is read as. -/
theorem ofJson?_toJson_of_agrees (h : t.Agrees) (hname : Text.blank t.name = false)
    (htime : ∃ ms, Instant.ofMillis? ms = some t.timestamp)
    (hid : t.keys.transactionId.Separable) :
    ofJson? t.toJson = some { t with state := decided t.products t.state } := by
  rw [ofJson?_toJson htime, TransactionId.parse?_eq_some_iff.mpr ⟨hid, rfl⟩, Option.bind_some]
  exact congrArg Except.toOption (make_of_agrees h hname)

theorem separable_of_ofJson?_toJson (h : ofJson? t.toJson = some t) :
    t.keys.transactionId.Separable := (of_ofJson? h).2.1

theorem not_errored_of_make {keys : TaskKeys} {name : String} {state : Option TaskState}
    {timestamp : Instant} {products : List Product}
    (h : make keys name state timestamp products = .ok t) :
    ¬ (t.state = .errored ∧ hasProduct t.products Product.failedName = true) := by
  obtain ⟨-, -, -, rfl⟩ := make_eq_ok_iff.mp h
  rintro ⟨hstate, hfailed⟩
  rw [decided, if_pos hfailed] at hstate
  cases hstate

theorem exists_millis_atWork : ∃ ms, Instant.ofMillis? ms = some atWork.timestamp :=
  ⟨1700000000000, by decide⟩

theorem separable_atWork : atWork.keys.transactionId.Separable := ⟨by decide, by decide⟩

/-- A record that was made or read, and then ended however often, is read back as it was written,
unless its transaction has no text of its own, or an error came upon a failure: then the products
tell that the task failed, and the record is read as one that did. -/
theorem wire_round_trip_of_issued (h : t.Issued)
    (htime : ∃ ms, Instant.ofMillis? ms = some t.timestamp) (vs : List Verdict) :
    let u := t.afterAll vs
    (ofJson? u.toJson = some u ↔ u.keys.transactionId.Separable ∧ ¬ t.Overruled vs) ∧
      (u.keys.transactionId.Separable → t.Overruled vs →
        ofJson? u.toJson = some { u with state := .failed }) ∧
      ((∃ a, ofJson? a = some t) → u.keys.transactionId.Separable) := by
  intro u
  obtain ⟨state, hmake⟩ := h.exists_make
  obtain ⟨hkeys, hname, htime'⟩ := t.fixed_afterAll vs
  have hu : u.Agrees := (agrees_of_make hmake).afterAll vs
  have hfilled : Text.blank u.name = false := by
    rw [hname]
    exact (make_eq_ok_iff.mp hmake).1
  have hmillis : ∃ ms, Instant.ofMillis? ms = some u.timestamp := by
    rw [htime']
    exact htime
  have hover := overruled_iff (not_errored_of_make hmake) vs
  have hread := ofJson?_toJson_of_agrees hu hfilled hmillis
  refine ⟨⟨fun hback => ?_, fun ⟨hid, hnot⟩ => ?_⟩, fun hid hyes => ?_, ?_⟩
  · have hid := separable_of_ofJson?_toJson hback
    rw [hread hid] at hback
    have hstate := congrArg TaskRecord.state (Option.some.inj hback)
    exact ⟨hid, fun hyes => hu.decided_eq_iff.mp hstate (hover.mp hyes)⟩
  · rw [hread hid, hu.decided_eq_iff.mpr (mt hover.mpr hnot)]
  · rw [hread hid, decided, if_pos (hover.mp hyes).2]
  · rintro ⟨a, ha⟩
    rw [hkeys]
    exact (of_ofJson? ha).2.1

/-- A failure that comes upon an error is read back, together with the error. -/
theorem wire_round_trip_atWork :
    let vs : List Verdict := [.errored "bad settings", .failed "mailbox full"]
    atWork.Issued ∧ (∃ ms, Instant.ofMillis? ms = some atWork.timestamp) ∧
      atWork.keys.transactionId.Separable ∧ ¬ atWork.Overruled vs ∧
      ofJson? (atWork.afterAll vs).toJson = some (atWork.afterAll vs) := by
  intro vs
  have hnot : ¬ atWork.Overruled vs := fun hyes => by
    have hstate := ((overruled_iff (not_errored_of_make make_atWork) vs).mp hyes).1
    exact absurd hstate (by decide +kernel)
  have htrip := wire_round_trip_of_issued (.made make_atWork) exists_millis_atWork vs
  have hkeys : (atWork.afterAll vs).keys = atWork.keys := (atWork.fixed_afterAll vs).1
  exact ⟨.made make_atWork, exists_millis_atWork, separable_atWork, hnot,
    htrip.1.mpr ⟨hkeys ▸ separable_atWork, hnot⟩⟩

/-- A failed task that comes to be in error is read as a failed one. -/
theorem misread_of_error_after_failure :
    let u := atWork.afterAll [.failed "mailbox full", .errored "bad settings"]
    atWork.Issued ∧ (∃ ms, Instant.ofMillis? ms = some atWork.timestamp) ∧ u.state = .errored ∧
      ofJson? u.toJson = some { u with state := .failed } ∧ ofJson? u.toJson ≠ some u := by
  intro u
  obtain ⟨hkeys, hname, htime⟩ :=
    atWork.fixed_afterAll [.failed "mailbox full", .errored "bad settings"]
  have hagrees := (agrees_of_make make_atWork).afterAll
    [.failed "mailbox full", .errored "bad settings"]
  have hstate : u.state = .errored := by decide +kernel
  have hfailed : hasProduct u.products Product.failedName = true := by decide +kernel
  have hread := ofJson?_toJson_of_agrees hagrees (by rw [hname]; decide)
    (by rw [htime]; exact exists_millis_atWork) (by rw [hkeys]; exact separable_atWork)
  rw [decided, if_pos hfailed] at hread
  refine ⟨.made make_atWork, exists_millis_atWork, hstate, hread, fun hback => ?_⟩
  have hsame := congrArg TaskRecord.state (Option.some.inj (hread.symm.trans hback))
  exact absurd (hsame.trans hstate) (by decide)

end TaskRecord

end SiteBroker
