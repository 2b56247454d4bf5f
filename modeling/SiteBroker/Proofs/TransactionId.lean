import SiteBroker.Proofs.Split
import SiteBroker.TransactionId

/-! Which texts can be read as the key of a transaction, and that each is the text of just that
key. -/

namespace SiteBroker.TransactionId

variable {cs part rest : List Char} {s : String} {id id' : TransactionId}

theorem cut_append (h : ':' ∉ part) : cut (part ++ ':' :: rest) = some (part, rest) := by
  have hpart : ∀ c ∈ part, (c != ':') = true := fun c hc => by
    rw [bne_iff_ne]
    rintro rfl
    exact h hc
  simp [cut, List.dropWhile_append_of_pos hpart, List.takeWhile_append_of_pos hpart]

/-- A text is cut at its first colon. -/
theorem cut_eq_some_iff : cut cs = some (part, rest) ↔ ':' ∉ part ∧ cs = part ++ ':' :: rest := by
  constructor
  · intro h
    unfold cut at h
    split at h
    · next c tail hdrop =>
      cases h
      have hcolon := List.head_dropWhile_not (· != ':') (l := cs) (by rw [hdrop]; simp)
      obtain rfl : c = ':' := by simpa [hdrop] using hcolon
      refine ⟨fun hmem => ?_, ?_⟩
      · simpa using List.all_eq_true.mp List.all_takeWhile _ hmem
      · rw [← hdrop, List.takeWhile_append_dropWhile]
    · cases h
  · rintro ⟨hpart, rfl⟩
    exact cut_append hpart

/-- The parts of the key can be told apart in its text. -/
structure Separable (id : TransactionId) : Prop where
  filled : ∀ part ∈ id.parts, part ≠ ""
  plain : ∀ site ∈ [id.originatingSite, id.remoteSite, id.localSite], ':' ∉ site.toList

theorem toList_text (id : TransactionId) : id.text.toList =
    id.originatingSite.toList ++ ':' :: (id.remoteSite.toList ++ ':' ::
      (id.localSite.toList ++ ':' :: id.number.toList)) := by
  simp [text, parts]

/-- A text is read as the key that it is the text of, if the parts of that can be told apart. -/
theorem parse?_eq_some_iff : parse? s = some id ↔ id.Separable ∧ id.text = s := by
  constructor
  · intro h
    simp only [parse?, Option.bind_eq_bind, Option.bind_eq_some_iff, Prod.exists,
      cut_eq_some_iff] at h
    obtain ⟨originating, _, ⟨horiginating, hs⟩, remote, _, ⟨hremote, rfl⟩, site, number,
      ⟨hsite, rfl⟩, h⟩ := h
    split at h
    · cases h
    · next hfilled =>
      cases h
      simp only [Bool.or_eq_true, List.isEmpty_iff, not_or] at hfilled
      obtain ⟨⟨⟨ho, hr⟩, hl⟩, hn⟩ := hfilled
      refine ⟨⟨?_, ?_⟩, ?_⟩
      · simp [parts, ho, hr, hl, hn]
      · simp [horiginating, hremote, hsite]
      · rw [← String.toList_inj, toList_text, hs]
        simp
  · rintro ⟨⟨hfilled, hplain⟩, rfl⟩
    simp only [parts, List.forall_mem_cons] at hfilled hplain
    obtain ⟨ho, hr, hl, hn, -⟩ := hfilled
    obtain ⟨horiginating, hremote, hsite, -⟩ := hplain
    simp [parse?, toList_text, cut_append, horiginating, hremote, hsite, ho, hr, hl, hn]

theorem parse_eq_ok_iff : parse s = .ok id ↔ id.Separable ∧ id.text = s := by
  rw [← parse?_eq_some_iff, parse]
  cases parse? s <;> simp

/-- The sites are what stands before each of the first three colons of the text, and the number is
the rest. -/
structure Divides (id : TransactionId) (s : String) : Prop where
  text_eq : id.text = s
  plain : ∀ site ∈ [id.originatingSite, id.remoteSite, id.localSite], ':' ∉ site.toList

theorem separable_iff_divides : id.Separable ↔ id.Divides id.text ∧ ∀ part ∈ id.parts, part ≠ "" :=
  ⟨fun h => ⟨⟨rfl, h.plain⟩, h.filled⟩, fun ⟨h, hfilled⟩ => ⟨hfilled, h.plain⟩⟩

theorem exists_split_of_lt_count {n : Nat} (h : n < cs.count ':') :
    ∃ part rest, cs = part ++ ':' :: rest ∧ ':' ∉ part ∧ n ≤ rest.count ':' := by
  have hmem : ':' ∈ cs := List.count_pos_iff.mp (Nat.lt_of_le_of_lt (Nat.zero_le n) h)
  obtain ⟨part, rest, rfl, hpart⟩ := List.eq_append_cons_of_mem hmem
  refine ⟨part, rest, rfl, hpart, ?_⟩
  rw [List.count_append, List.count_eq_zero.mpr hpart, List.count_cons_self] at h
  omega

/-- A text can be divided in one way only. -/
theorem Divides.unique (h : id.Divides s) (h' : id'.Divides s) : id = id' := by
  have htext := congrArg String.toList (h.text_eq.trans h'.text_eq.symm)
  have hplain := h.plain
  have hplain' := h'.plain
  simp only [List.forall_mem_cons] at hplain hplain'
  obtain ⟨horiginating, hremote, hsite, -⟩ := hplain
  obtain ⟨horiginating', hremote', hsite', -⟩ := hplain'
  rw [toList_text, toList_text] at htext
  obtain ⟨ho, htext⟩ := split_first horiginating horiginating' htext
  obtain ⟨hr, htext⟩ := split_first hremote hremote' htext
  obtain ⟨hl, hn⟩ := split_first hsite hsite' htext
  obtain ⟨originating, remote, site, number⟩ := id
  rw [TransactionId.mk.injEq]
  exact ⟨String.toList_inj.mp ho, String.toList_inj.mp hr, String.toList_inj.mp hl,
    String.toList_inj.mp hn⟩

/-- A text can be divided if it has three colons at least. -/
theorem exists_divides_iff : (∃ id : TransactionId, id.Divides s) ↔ 3 ≤ s.toList.count ':' := by
  constructor
  · rintro ⟨id, rfl, -⟩
    simp only [toList_text, List.count_append, List.count_cons_self]
    omega
  · intro h
    obtain ⟨originating, _, hs, horiginating, h⟩ := exists_split_of_lt_count h
    obtain ⟨remote, _, rfl, hremote, h⟩ := exists_split_of_lt_count h
    obtain ⟨site, number, rfl, hsite, -⟩ := exists_split_of_lt_count h
    refine ⟨⟨.ofList originating, .ofList remote, .ofList site, .ofList number⟩, ?_, ?_⟩
    · rw [← String.toList_inj, toList_text, hs]
      simp
    · simp [horiginating, hremote, hsite]

/-- Reading a text as a key and writing it gives the text again, and each key whose parts can be
told apart is read from its text, so that no two of them have one text. A text is read exactly if
it has three colons at least, and something before, between and after the first three. -/
theorem text_round_trip :
    (∀ (s : String) (id : TransactionId), parse s = .ok id → id.text = s) ∧
      (∀ id : TransactionId, id.Separable → parse id.text = .ok id) ∧
      (∀ id id' : TransactionId, id.Separable → id'.Separable → id.text = id'.text → id = id') ∧
      ∀ s : String, (∃ id, parse s = .ok id) ↔ 3 ≤ s.toList.count ':' ∧
        ∀ id : TransactionId, id.Divides s → ∀ part ∈ id.parts, part ≠ "" := by
  refine ⟨fun s id h => (parse_eq_ok_iff.mp h).2, fun id h => parse_eq_ok_iff.mpr ⟨h, rfl⟩,
    fun id id' h h' htext => ?_, fun s => ⟨fun ⟨id, hid⟩ => ?_, fun ⟨hcount, hfilled⟩ => ?_⟩⟩
  · have hdivides := (separable_iff_divides.mp h).1
    have hdivides' := (separable_iff_divides.mp h').1
    rw [htext] at hdivides
    exact hdivides.unique hdivides'
  · obtain ⟨h, rfl⟩ := parse_eq_ok_iff.mp hid
    obtain ⟨hdivides, hfilled⟩ := separable_iff_divides.mp h
    refine ⟨exists_divides_iff.mp ⟨id, hdivides⟩, fun id' hdivides' => ?_⟩
    rw [hdivides'.unique hdivides]
    exact hfilled
  · obtain ⟨id, hdivides⟩ := exists_divides_iff.mpr hcount
    refine ⟨id, parse_eq_ok_iff.mpr ⟨separable_iff_divides.mpr ⟨?_, hfilled id hdivides⟩, ?_⟩⟩
    · exact ⟨rfl, hdivides.plain⟩
    · exact hdivides.text_eq

/-- The number may have colons. -/
theorem text_round_trip_colon :
    let id : TransactionId := ⟨"NCAR", "TGCDB", "NCAR", "12:345"⟩
    id.Separable ∧ parse "NCAR:TGCDB:NCAR:12:345" = .ok id := by
  intro id
  have hid : id.Separable := ⟨by decide, by decide⟩
  have htext : id.text = "NCAR:TGCDB:NCAR:12:345" := by decide
  exact ⟨hid, htext ▸ text_round_trip.2.1 id hid⟩

end SiteBroker.TransactionId
