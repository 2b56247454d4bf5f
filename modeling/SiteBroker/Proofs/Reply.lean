import SiteBroker.Proofs.Desk
import SiteBroker.Workflow

/-! What replies take over from the packets that they answer, and how they report an outcome. -/

namespace SiteBroker

open Program

namespace Packet

/-- The fields in which a packet that closes its transaction reports the outcome. -/
def outcomeFields : List String := ["StatusCode", "DetailCode", "Message"]

/-- One packet is another with more fields, none of which reports an outcome. -/
structure Extends (p q : Packet) : Prop where
  type : q.type = p.type
  header : q.header = p.header
  outcome : ∀ n ∈ outcomeFields, q.body[n]? = p.body[n]?

namespace Extends

variable {p q r : Packet}

theorem refl (p : Packet) : p.Extends p := ⟨rfl, rfl, fun _ _ => rfl⟩

theorem trans (h : p.Extends q) (h' : q.Extends r) : p.Extends r where
  type := h'.type.trans h.type
  header := h'.header.trans h.header
  outcome n hn := (h'.outcome n hn).trans (h.outcome n hn)

theorem set (h : p.Extends q) (name : String) (hname : name ∉ outcomeFields) (value : Json) :
    p.Extends (q.set name value) := by
  refine h.trans ⟨rfl, rfl, fun n hn => ?_⟩
  have hne : name ≠ n := fun he => hname (he ▸ hn)
  simp [Packet.set, Std.ExtTreeMap.getElem?_insert, hne]

theorem setText (h : p.Extends q) (name : String) (hname : name ∉ outcomeFields)
    (text : Option String) : p.Extends (q.setText name text) := by
  cases text with
  | none => exact h
  | some s => exact h.set name hname (.str s)

theorem copyTo (h : p.Extends q) {names : List String} (hnames : ∀ n ∈ names, n ∉ outcomeFields)
    (job : Job) : p.Extends (job.copyTo names q) := by
  unfold Job.copyTo
  induction names generalizing q with
  | nil => exact h
  | cons name names ih =>
    obtain ⟨hname, hrest⟩ := List.forall_mem_cons.mp hnames
    rw [List.foldl_cons]
    refine ih ?_ hrest
    cases job.field? name with
    | none => exact h
    | some a => exact h.set name hname a

end Extends

/-- What a packet that closes its transaction reports. -/
def Reports (r : Packet) (status : String) (detail : Int) (message : String) : Prop :=
  r.body["StatusCode"]? = some (.str status) ∧ r.body["DetailCode"]? = some (.int detail) ∧
    r.body["Message"]? = some (.str message)

theorem reports_closing (header : PacketHeader) (status : String) (detail : Int)
    (message : String) : (closing header status detail message).Reports status detail message := by
  have hfield : ∀ {n a}, (n, a) ∈ [("StatusCode", Json.str status), ("DetailCode", .int detail),
      ("Message", .str message)] → (closing header status detail message).body[n]? = some a :=
    fun hm => Std.ExtTreeMap.getElem?_ofList_of_mem Std.ReflCmp.compare_self (by simp) hm
  exact ⟨hfield (by simp), hfield (by simp), hfield (by simp)⟩

theorem Extends.reports {p q : Packet} (h : p.Extends q) {status : String} {detail : Int}
    {message : String} (hp : p.Reports status detail message) :
    q.Reports status detail message := by
  obtain ⟨hs, hd, hm⟩ := hp
  exact ⟨(h.outcome _ (by decide)).trans hs, (h.outcome _ (by decide)).trans hd,
    (h.outcome _ (by decide)).trans hm⟩

/-- A packet answers another: it goes to the same transaction, under the next id and as a reply to
its record, and has a type that the exchange expects or closes the transaction. If it closes it, it
reports an outcome, which is failure or not. -/
structure IsReplyTo (r p : Packet) (failure : Prop) : Prop where
  transactionId : r.transactionId = p.transactionId
  packetId : p.header.packetId.toInt + 1000 ≤ Int64.maxValue.toInt →
    r.header.packetId.toInt = p.header.packetId.toInt + 1000
  inReplyTo : r.header.inReplyTo = p.header.recordId
  recordId : r.header.recordId = none
  type : r.type ∈ p.type.expectedReplies ∨ r.type = .informTransactionComplete
  outcome : r.type = .informTransactionComplete → ∃ status detail message,
    r.Reports status detail message ∧ (status = "Failed" ∧ detail = 2 ↔ failure)

theorem toInt_replyOffset_add {n : Int64} (h : n.toInt + 1000 ≤ Int64.maxValue.toInt) :
    (n + replyOffset).toInt = n.toInt + 1000 := by
  have hlow := n.le_toInt
  have hmax : Int64.maxValue.toInt = 9223372036854775807 := by decide
  have hoffset : replyOffset.toInt = 1000 := by decide
  rw [Int64.toInt_add, hoffset]
  apply Int.bmod_eq_of_le <;> omega

/-- All but the type and the body of a reply is in its header. -/
theorem IsReplyTo.of_header {r p : Packet} {failure : Prop} (h : r.header = p.replyHeader)
    (htype : r.type ∈ p.type.expectedReplies ∨ r.type = .informTransactionComplete)
    (houtcome : r.type = .informTransactionComplete → ∃ status detail message,
      r.Reports status detail message ∧ (status = "Failed" ∧ detail = 2 ↔ failure)) :
    r.IsReplyTo p failure where
  transactionId := by rw [Packet.transactionId, h]; rfl
  packetId hn := by rw [h]; exact toInt_replyOffset_add hn
  inReplyTo := by rw [h]; rfl
  recordId := by rw [h]; rfl
  type := htype
  outcome := houtcome

theorem isReplyTo_failureReply (p : Packet) (message : String) {failure : Prop} (h : failure) :
    (p.failureReply message).IsReplyTo p failure :=
  .of_header rfl (.inr rfl) fun _ =>
    ⟨"Failed", 2, message, reports_closing _ _ _ _, fun _ => h, fun _ => ⟨rfl, rfl⟩⟩

theorem isReplyTo_reply (p : Packet) {failure : Prop} (h : ¬ failure) :
    p.reply.IsReplyTo p failure := by
  have hsuccess : ∃ status detail message,
      (closing p.replyHeader "Success" 1 "Success").Reports status detail message ∧
        (status = "Failed" ∧ detail = 2 ↔ failure) :=
    ⟨"Success", 1, "Success", reports_closing _ _ _ _, by simp [h]⟩
  unfold reply
  split
  · next t _ ht =>
    split
    · exact .of_header rfl (.inr rfl) fun _ => hsuccess
    · next hopen =>
      refine .of_header rfl (.inl (by simp [ht])) fun hclosing => ?_
      have hclosing : t = .informTransactionComplete := hclosing
      exact absurd (by rw [hclosing]; rfl) hopen
  · exact .of_header rfl (.inr rfl) fun _ => hsuccess

theorem IsReplyTo.of_extends {r q p : Packet} {failure : Prop} (h : q.IsReplyTo p failure)
    (hr : q.Extends r) : r.IsReplyTo p failure where
  transactionId := by
    rw [← h.transactionId, Packet.transactionId, hr.header]
    rfl
  packetId hn := by rw [hr.header]; exact h.packetId hn
  inReplyTo := by rw [hr.header]; exact h.inReplyTo
  recordId := by rw [hr.header]; exact h.recordId
  type := by rw [hr.type]; exact h.type
  outcome hc := by
    obtain ⟨status, detail, message, hq, hiff⟩ := h.outcome (hr.type ▸ hc)
    exact ⟨status, detail, message, hr.reports hq, hiff⟩

end Packet

namespace Workflow

variable {t : PacketType} {w : Workflow}

/-- The reply at the end of a workflow is the one that the exchange lays down, with fields of the
packet and of the progress made. -/
theorem extends_reply (hw : ofType? t = some w) (job : Job) : job.reply.Extends (w.reply job) := by
  have hecho : ∀ names, (∀ n ∈ names, n ∉ Packet.outcomeFields) →
      job.reply.Extends (echo names job) := fun names hnames =>
    (Packet.Extends.refl job.reply).copyTo hnames job
  cases t <;> cases hw
  case requestAccountCreate =>
    exact ((((hecho _ (by decide)).setText "AccountActivityTime" (by decide) _).setText
      "ProjectID" (by decide) _).setText "UserPersonID" (by decide) _).set "UserRemoteSiteLogin"
      (by decide) _
  case requestProjectCreate =>
    have hnamed := (((hecho ["GrantNumber", "PfosNumber", "PiOrgCode", "ProjectTitle",
      "ResourceList"] (by decide)).setText "PiPersonID" (by decide)
        job.progress.personId).setText "PiRemoteSiteLogin" (by decide)
        (job.progress.remoteSiteLogin.or job.progress.personId)).setText "ProjectID" (by decide)
        job.progress.projectId
    refine .setText (.setText ?_ "StartDate" (by decide) _) "EndDate" (by decide) _
    split
    · exact hnamed.set "ServiceUnitsAllocated" (by decide) _
    · exact hnamed
  all_goals exact hecho _ (by decide)

theorem reply_of_work {σ : Type} {s : Services σ} {x y : Desk σ} {p : Packet}
    (h : w.work s x = .ok (.reply p) y) : p = w.reply y.job := by
  unfold work at h
  rw [Desk.currentJob_bind] at h
  obtain ⟨result, z, -, hz⟩ := bind_eq_ok h
  cases result with
  | waiting u => cases hz
  | done =>
    cases hz
    rfl
  | settled =>
    cases hz
    rfl

/-- A workflow that is done answers the packet of the job with no failure. -/
theorem isReplyTo_of_work {σ : Type} {s : Services σ} {x y : Desk σ} {r : Packet}
    (hw : ofType? t = some w) (h : w.work s x = .ok (.reply r) y) {failure : Prop}
    (hf : ¬ failure) : r.IsReplyTo y.job.packet failure := by
  rw [reply_of_work h]
  exact (Packet.isReplyTo_reply y.job.packet hf).of_extends (extends_reply hw y.job)

end Workflow

end SiteBroker
