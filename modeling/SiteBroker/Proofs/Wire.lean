import SiteBroker.Packet.Wire
import SiteBroker.Proofs.Fields
import SiteBroker.Proofs.Instant.Text

/-! Packets are read back from the JSON that they are written as. -/

namespace SiteBroker

namespace PacketType

/-- The type is not another one under a name that the exchange gives. -/
def Canonical (t : PacketType) : Prop := ∀ r ∈ named, t ≠ .other r.name

theorem ofName_name {t : PacketType} (h : t.Canonical) : ofName t.name = t := by
  cases t with
  | other s =>
    have hnone : named.find? (·.name == s) = none := by
      rw [List.find?_eq_none]
      intro r hr hs
      exact h r hr (congrArg other (eq_of_beq hs).symm)
    rw [ofName, name, hnone, Option.getD_none]
  | _ => rfl

theorem name_ofName (s : String) : (ofName s).name = s := by
  unfold ofName
  cases hfind : named.find? (·.name == s) with
  | none => rfl
  | some r =>
    have hname := List.find?_some hfind
    exact eq_of_beq hname

theorem canonical_ofName (s : String) : (ofName s).Canonical := by
  intro r hr he
  unfold ofName at he
  cases hfind : named.find? (·.name == s) with
  | none =>
    rw [hfind, Option.getD_none] at he
    have hs : s = r.name := other.inj he
    exact List.find?_eq_none.mp hfind r hr (beq_iff_eq.mpr hs.symm)
  | some t =>
    rw [hfind, Option.getD_some] at he
    have hnamed := List.mem_of_find?_eq_some hfind
    rw [he] at hnamed
    simp [named] at hnamed

end PacketType

namespace Json

theorem field?_toJson (fields : Fields) (name : String) :
    field? name fields.toJson = fields[name]? := by
  show (fields.toList.find? (·.1 == name)).map (·.2) = fields[name]?
  cases hfind : fields.toList.find? (·.1 == name) with
  | some e =>
    have hname := List.find?_some hfind
    obtain rfl : e.1 = name := eq_of_beq hname
    exact (Std.ExtTreeMap.mem_toList_iff_getElem?_eq_some.mp (List.mem_of_find?_eq_some hfind)).symm
  | none =>
    cases h : fields[name]? with
    | none => rfl
    | some a =>
      have hm := Std.ExtTreeMap.mem_toList_iff_getElem?_eq_some.mpr h
      exact absurd (beq_self_eq_true name) (List.find?_eq_none.mp hfind (name, a) hm)

theorem str?_str (s : String) : str? (.str s) = some s := rfl

variable {α : Type} {read : Json → Option α}

theorem optional?_map {write : α → Json} {x : Option α}
    (hnull : ∀ a, write a ≠ .null) (h : ∀ a ∈ x, read (write a) = some a) :
    optional? read (x.map write) = some x := by
  cases x with
  | none => rfl
  | some a =>
    rw [Option.map_some, optional?, h a rfl]
    · rfl
    · exact hnull a

theorem exists_of_optional? {x : Option Json} {v : α} (h : optional? read x = some (some v)) :
    ∃ a, read a = some v := by
  unfold optional? at h
  split at h
  · cases h
  · cases h
  · next a _ =>
    obtain ⟨w, hw, he⟩ := Option.map_eq_some_iff.mp h
    exact ⟨a, hw.trans he⟩

end Json

namespace PacketHeader

theorem int64?_ofInt64 (n : Int64) : Json.int64? (ofInt64 n) = some n := by
  rw [ofInt64, Json.int64?, if_pos ⟨n.minValue_le_toInt, n.toInt_le⟩, Int64.ofInt_toInt]

/-- The parts of a header under the names that they are written under. -/
def entries (h : PacketHeader) : List (String × Option Json) :=
  [("packet_rec_id", h.recordId.map ofInt64),
    ("packet_id", some (ofInt64 h.packetId)),
    ("transaction_id", some (ofInt64 h.transactionNumber)),
    ("originating_site_name", some (.str h.originatingSite)),
    ("remote_site_name", some (.str h.remoteSite)),
    ("local_site_name", some (.str h.localSite)),
    ("packet_timestamp", h.timestamp.map fun t => .str t.text),
    ("packet_state", h.state.map .str),
    ("in_reply_to", h.inReplyTo.map ofInt64)]

theorem record?_toJson (h : PacketHeader) :
    Json.record? fieldNames h.toJson = some fun name => (Fields.ofOptions h.entries)[name]? :=
  congrArg some (funext (Json.field?_toJson _))

theorem getElem?_entries (h : PacketHeader) :
    ∀ e ∈ h.entries, (Fields.ofOptions h.entries)[e.1]? = e.2 := by
  have hnames : (h.entries.map (·.1)).Nodup := (by decide : fieldNames.Nodup)
  exact fun e he => Fields.getElem?_ofOptions_of_mem hnames he

theorem ofJson?_toJson {h : PacketHeader} (ht : ∀ t ∈ h.timestamp, t.Supported) :
    ofJson? h.toJson = some h := by
  have hint : ∀ {x : Option Int64}, Json.optional? Json.int64? (x.map ofInt64) = some x :=
    Json.optional?_map (fun _ => Json.noConfusion) fun n _ => int64?_ofInt64 n
  have hstr : Json.optional? Json.str? (h.state.map .str) = some h.state :=
    Json.optional?_map (fun _ => Json.noConfusion) fun _ _ => rfl
  have htime : Json.optional? (fun a => a.str?.bind Instant.parse?)
      (h.timestamp.map fun t => .str t.text) = some h.timestamp := by
    refine Json.optional?_map (fun _ => Json.noConfusion) fun t hm => ?_
    rw [Json.str?_str, Option.bind_some]
    exact Instant.parse?_text (ht t hm)
  have hget := getElem?_entries h
  unfold ofJson?
  rw [record?_toJson]
  generalize Fields.ofOptions h.entries = fields at hget
  simp only [entries, List.forall_mem_cons] at hget
  simp only [Option.bind_eq_bind, Option.bind_some, hget, hint, hstr, htime, int64?_ofInt64,
    Json.str?_str]

theorem supported_of_ofJson? {a : Json} {h : PacketHeader} (hh : ofJson? a = some h) :
    ∀ t ∈ h.timestamp, t.Supported := by
  simp only [ofJson?, Option.bind_eq_bind, Option.bind_eq_some_iff] at hh
  obtain ⟨get, -, recordId, -, packetId, -, number, -, origin, -, remote, -, site, -, timestamp,
    htime, state, -, inReplyTo, -, hh⟩ := hh
  cases hh
  intro t ht
  obtain rfl : timestamp = some t := ht
  obtain ⟨b, hb⟩ := Json.exists_of_optional? htime
  obtain ⟨text, -, hparse⟩ := Option.bind_eq_some_iff.mp hb
  exact Instant.supported_of_parse? hparse

end PacketHeader

namespace Packet

/-- What a packet is to be read back from its JSON: a type under the name that the exchange gives
it, and a time that can be told. -/
structure Writable (p : Packet) : Prop where
  canonical : p.type.Canonical
  supported : ∀ t ∈ p.header.timestamp, t.Supported

theorem ofJson?_toJson {p : Packet} (h : p.Writable) : ofJson? p.toJson = some p := by
  have hbody : Fields.ofJson? p.body.toJson = some p.body := congrArg some (Fields.ofList_toList _)
  have hheader := PacketHeader.ofJson?_toJson h.supported
  have hget : Json.record? fieldNames p.toJson = some fun name => Json.field? name p.toJson := rfl
  have htype : Json.field? "type" p.toJson = some (.str p.type.name) := rfl
  have hheader' : Json.field? "header" p.toJson = some p.header.toJson := rfl
  have hbody' : Json.field? "body" p.toJson = some p.body.toJson := rfl
  unfold ofJson?
  simp only [hget, htype, hheader', hbody', Option.bind_eq_bind, Option.bind_some, Json.str?_str,
    hheader, hbody, PacketType.ofName_name h.canonical]

theorem writable_of_ofJson? {a : Json} {p : Packet} (h : ofJson? a = some p) : p.Writable := by
  simp only [ofJson?, Option.bind_eq_bind, Option.bind_eq_some_iff] at h
  obtain ⟨get, -, name, -, header, ⟨b, -, hheader⟩, h⟩ := h
  have hsupported := PacketHeader.supported_of_ofJson? hheader
  have hcanonical := PacketType.canonical_ofName name
  split at h
  · cases h
    exact ⟨hcanonical, hsupported⟩
  · obtain ⟨body, -, h⟩ := Option.bind_eq_some_iff.mp h
    cases h
    exact ⟨hcanonical, hsupported⟩

/-- Whatever is read as a packet is written as JSON that is read as the same packet, and so is
each packet with a type under its own name and a time that can be told, and no other. The name of
a type is the one it was read from. -/
theorem wire_round_trip :
    (∀ (a : Json) (p : Packet), ofJson? a = some p → ofJson? p.toJson = some p) ∧
      (∀ p : Packet, ofJson? p.toJson = some p ↔ p.Writable) ∧
      ∀ s : String, (PacketType.ofName s).name = s :=
  ⟨fun _ _ h => ofJson?_toJson (writable_of_ofJson? h),
    fun _ => ⟨writable_of_ofJson?, ofJson?_toJson⟩, PacketType.name_ofName⟩

end Packet

end SiteBroker
