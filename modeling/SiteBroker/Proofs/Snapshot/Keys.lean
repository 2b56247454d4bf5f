import SiteBroker.Proofs.Rejection
import SiteBroker.Proofs.Snapshot
import SiteBroker.Proofs.TransactionId
import SiteBroker.Proofs.Wire

/-! The keys of the snapshots: what of a packet can be told from the name of its job. Names of sites
and of types that the exchange does not know are used as they come, with whatever is in them. -/

namespace SiteBroker

namespace Packet

variable {p q : Packet} {n : Int64} {c : Char}

theorem notMem_numberText (hdigit : c.isDigit = false) (hminus : c ≠ '-') :
    c ∉ (numberText n).toList := by
  have hrepr : ∀ m : Nat, c ∉ m.repr.toList := fun m hm => by
    rw [Text.isDigit_of_mem_repr hm] at hdigit
    cases hdigit
  show c ∉ (Int.repr n.toInt).toList
  cases n.toInt with
  | ofNat m => exact hrepr m
  | negSucc m =>
    show c ∉ ("-" ++ (m + 1).repr).toList
    rw [String.toList_append, List.mem_append]
    exact not_or.mpr ⟨by simpa using hminus, hrepr _⟩

def sites (p : Packet) : List String :=
  [p.header.originatingSite, p.header.remoteSite, p.header.localSite]

/-- The type and the sites, as the name of a job begins. -/
def lead (p : Packet) : String := p.type.name ++ "." ++ ":".intercalate p.sites

theorem toList_lead (p : Packet) : p.lead.toList = p.type.name.toList ++
    '.' :: p.header.originatingSite.toList ++ ':' :: p.header.remoteSite.toList ++
      ':' :: p.header.localSite.toList := by
  simp [lead, sites]

/-- The type and the sites can be told apart where they are written one after another. The sites
are told from the end, so that the first one may be any. -/
structure Separable (p : Packet) : Prop where
  type : '.' ∉ p.type.name.toList
  remote : ':' ∉ p.header.remoteSite.toList
  site : ':' ∉ p.header.localSite.toList

theorem Separable.lead_inj (hp : p.Separable) (hq : q.Separable) (h : p.lead = q.lead) :
    p.type.name = q.type.name ∧ p.sites = q.sites := by
  have hlead := congrArg String.toList h
  rw [toList_lead, toList_lead] at hlead
  obtain ⟨hlead, hsite⟩ := split_last hp.site hq.site hlead
  obtain ⟨hlead, hremote⟩ := split_last hp.remote hq.remote hlead
  obtain ⟨htype, horiginating⟩ := split_first hp.type hq.type hlead
  simp only [String.toList_inj] at htype horiginating hremote hsite
  exact ⟨htype, by rw [sites, sites, horiginating, hremote, hsite]⟩

end Packet

theorem PacketType.Canonical.eq_of_name {t t' : PacketType} (h : t.Canonical) (h' : t'.Canonical)
    (hname : t.name = t'.name) : t = t' := by
  rw [← ofName_name h, hname, ofName_name h']

/-- The name is that of a file of the folder itself, other than the one that counts the changes. -/
structure SnapshotFolder.Direct (name : String) : Prop where
  slash : '/' ∉ name.toList
  special : name ∉ ["", ".", "..", versionName]

theorem SnapshotFolder.direct_fileName_iff {key : String} :
    Direct (fileName key) ↔ '/' ∉ key.toList := by
  have hslash : '/' ∈ (fileName key).toList ↔ '/' ∈ key.toList := by simp [fileName]
  refine ⟨fun h => mt hslash.mpr h.slash, fun h => ⟨mt hslash.mp h, fun hmem => ?_⟩⟩
  have hlong : 5 ≤ (fileName key).toList.length := by simp [fileName]
  simp only [List.mem_cons, List.not_mem_nil, or_false] at hmem
  rcases hmem with he | he | he | he
  · simp [he] at hlong
  · simp [he] at hlong
  · simp [he] at hlong
  · exact fileName_ne_versionName key he

namespace Job

open Packet SnapshotFolder

variable {p q : Packet} {a b : Json} {tasks tasks' : TaskList} {job job' : Job}

theorem toList_name (job : Job) : job.name.toList = job.packet.lead.toList ++
    ':' :: (numberText job.packet.header.transactionNumber).toList ++
      '.' :: (numberText job.packet.header.packetId).toList := by
  have htext : job.transactionId.text = ":".intercalate job.packet.sites ++ ":" ++
      numberText job.packet.header.transactionNumber := by
    simp [TransactionId.text, TransactionId.parts, transactionId, Packet.transactionId, sites,
      ← String.toList_inj]
  simp [name, lead, htext, packetId, Packet.packetId]

theorem slash_mem_name_iff (job : Job) : '/' ∈ job.name.toList ↔
    ∃ part ∈ job.packet.type.name :: job.packet.sites, '/' ∈ part.toList := by
  have hnumber : ∀ n : Int64, '/' ∉ (numberText n).toList := fun n =>
    notMem_numberText rfl (by decide)
  simp [toList_name, toList_lead, hnumber, sites]

/-- The numbers at the end of a name can be told, and what comes before them. -/
theorem name_eq_iff (job job' : Job) : job.name = job'.name ↔
    job.packet.lead = job'.packet.lead ∧
      job.packet.header.transactionNumber = job'.packet.header.transactionNumber ∧
      job.packet.header.packetId = job'.packet.header.packetId := by
  have hdot : ∀ n : Int64, '.' ∉ (numberText n).toList := fun n =>
    notMem_numberText rfl (by decide)
  have hcolon : ∀ n : Int64, ':' ∉ (numberText n).toList := fun n =>
    notMem_numberText rfl (by decide)
  rw [← String.toList_inj, toList_name, toList_name]
  constructor
  · intro h
    obtain ⟨h, hpacket⟩ := split_last (hdot _) (hdot _) h
    obtain ⟨hlead, hnumber⟩ := split_last (hcolon _) (hcolon _) h
    rw [String.toList_inj] at hlead hnumber hpacket
    exact ⟨hlead, numberText_inj.mp hnumber, numberText_inj.mp hpacket⟩
  · rintro ⟨hlead, hnumber, hpacket⟩
    rw [hlead, hnumber, hpacket]

/-- The snapshot of a packet is a file of the folder itself if no slash is in the name of its type
or of a site. Packets with one key have the same numbers, and their types and sites make the same
text; they are of one type, one transaction and one id if the types and the sites can be told
apart. -/
theorem keys_of_wire (hp : Packet.ofJson? a = some p) (hq : Packet.ofJson? b = some q)
    (hjob : ofPacket p tasks = .ok job) (hjob' : ofPacket q tasks' = .ok job') :
    (Direct (fileName job.name) ↔ ∀ part ∈ p.type.name :: p.sites, '/' ∉ part.toList) ∧
      (job.name = job'.name ↔ p.lead = q.lead ∧
        p.header.transactionNumber = q.header.transactionNumber ∧
        p.header.packetId = q.header.packetId) ∧
      (p.Separable → q.Separable → (job.name = job'.name ↔
        p.type = q.type ∧ p.transactionId = q.transactionId ∧ p.packetId = q.packetId)) := by
  obtain ⟨rfl, -, -⟩ := of_ofPacket hjob
  obtain ⟨rfl, -, -⟩ := of_ofPacket hjob'
  refine ⟨?_, name_eq_iff job job', fun hsp hsq => ⟨fun h => ?_, ?_⟩⟩
  · rw [direct_fileName_iff, slash_mem_name_iff]
    simp only [not_exists, not_and]
  · obtain ⟨hlead, hnumber, hpacket⟩ := (name_eq_iff job job').mp h
    obtain ⟨htype, hsites⟩ := hsp.lead_inj hsq hlead
    simp only [sites, List.cons.injEq, and_true] at hsites
    obtain ⟨horiginating, hremote, hsite⟩ := hsites
    have hcanonical := (writable_of_ofJson? hp).canonical
    refine ⟨hcanonical.eq_of_name (writable_of_ofJson? hq).canonical htype, ?_, ?_⟩
    · exact transactionId_eq_iff.mpr ⟨horiginating, hremote, hsite, hnumber⟩
    · rw [Packet.packetId, hpacket, Packet.packetId]
  · rintro ⟨htype, hid, hpacket⟩
    obtain ⟨horiginating, hremote, hsite, hnumber⟩ := transactionId_eq_iff.mp hid
    refine (name_eq_iff job job').mpr ⟨?_, hnumber, numberText_inj.mp hpacket⟩
    rw [lead, lead, sites, sites, htype, horiginating, hremote, hsite]

/-- The packet `projectEnd` with other sites. -/
def between (originating remote site : String) : Packet :=
  { Docket.projectEnd with
    header := { Docket.projectEnd.header with
      originatingSite := originating, remoteSite := remote, localSite := site } }

/-- A new job for it. -/
def jobBetween (originating remote site : String) : Job :=
  ⟨between originating remote site, 101, .epoch, ∅, {}, rfl⟩

theorem ofJson?_between (originating remote site : String) :
    Packet.ofJson? (between originating remote site).toJson =
      some (between originating remote site) :=
  ofJson?_toJson ⟨fun _ _ => PacketType.noConfusion, nofun⟩

theorem ofPacket_between (originating remote site : String) :
    ofPacket (between originating remote site) ∅ = .ok (jobBetween originating remote site) := rfl

/-- A colon in the name of the originating site does no harm. -/
theorem keys_of_wire_between :
    (between "ORIG:2" "REMOTE" "LOCAL").Separable ∧ (between "ORIG" "REMOTE" "LOCAL").Separable ∧
      Direct (fileName (jobBetween "ORIG:2" "REMOTE" "LOCAL").name) ∧
      (jobBetween "ORIG:2" "REMOTE" "LOCAL").name ≠ (jobBetween "ORIG" "REMOTE" "LOCAL").name := by
  have hseparable : (between "ORIG:2" "REMOTE" "LOCAL").Separable :=
    ⟨by decide, by decide, by decide⟩
  have hseparable' : (between "ORIG" "REMOTE" "LOCAL").Separable :=
    ⟨by decide, by decide, by decide⟩
  obtain ⟨hdirect, -, hname⟩ := keys_of_wire (ofJson?_between "ORIG:2" "REMOTE" "LOCAL")
    (ofJson?_between "ORIG" "REMOTE" "LOCAL") (ofPacket_between ..) (ofPacket_between ..)
  refine ⟨hseparable, hseparable', hdirect.mpr (by decide), fun h => ?_⟩
  obtain ⟨-, hid, -⟩ := (hname hseparable hseparable').mp h
  exact absurd hid (by decide)

/-- A slash in the name of a site is one in the key, and the snapshot is not written if there is no
folder of the name before it. A colon there can make one key of those of two transactions. -/
theorem key_shared_between :
    (∃ a p job, Packet.ofJson? a = some p ∧ ofPacket p ∅ = .ok job ∧ '/' ∈ job.name.toList ∧
        (SnapshotBook.write ⟨{ files := some ∅ }, ∅⟩ job true).2.2 = .error .notFound) ∧
      ∃ a b p q job job', Packet.ofJson? a = some p ∧ Packet.ofJson? b = some q ∧
        ofPacket p ∅ = .ok job ∧ ofPacket q ∅ = .ok job' ∧ job.name = job'.name ∧
        p.transactionId ≠ q.transactionId := by
  constructor
  · exact ⟨_, _, _, ofJson?_between "ORIG/2" "REMOTE" "LOCAL", ofPacket_between .., by decide, rfl⟩
  · exact ⟨_, _, _, _, _, _, ofJson?_between "A:B" "C" "D", ofJson?_between "A" "B:C" "D",
      ofPacket_between .., ofPacket_between .., by decide, by decide⟩

end Job

end SiteBroker
