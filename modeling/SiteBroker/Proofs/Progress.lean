import SiteBroker.Progress
import SiteBroker.Proofs.Fields

/-! How the progress of a job builds up: what is known stays known, and with two exceptions it stays
the same. -/

namespace SiteBroker

namespace Progress

/-- The names under which progress is told, and what is told under each. -/
def tellers : List (String × (Progress → Option Json)) := [
  ("org_code", (·.orgCode.map .str)),
  ("person_id", (·.personId.map .str)),
  ("remote_site_login", (·.remoteSiteLogin.map .str)),
  ("site_org", (·.siteOrg.map .str)),
  ("person_active", (·.personActive.map .bool)),
  ("local_fos", (·.localFos.map .str)),
  ("site_grant_key", (·.siteGrantKey.map .str)),
  ("project_name_base", (·.projectNameBase.map .str)),
  ("project_id", (·.projectId.map .str)),
  ("service_units_allocated", (·.serviceUnitsAllocated.map Json.ofDouble)),
  ("start_date", (·.startDate.map .str)),
  ("end_date", (·.endDate.map .str)),
  ("account_login", (·.accountLogin.map .str)),
  ("account_activity_time", (·.accountActivityTime.map .str)),
  ("resource_name", (·.resourceName.map .str)),
  ("user_notified", (·.userNotified.map .bool)),
  ("user_modified", (·.userModified.map .bool)),
  ("person_merged", (·.personMerged.map .bool)),
  ("project_inactivated", (·.projectInactivated.map .bool)),
  ("project_reactivated", (·.projectReactivated.map .bool)),
  ("account_inactivated", (·.accountInactivated.map .bool)),
  ("account_reactivated", (·.accountReactivated.map .bool)),
  ("transaction_cleared", (·.transactionCleared.map .bool))]

theorem nodup_tellers : (tellers.map (·.1)).Nodup := by decide

variable {p q r : Progress} {name : String} {f : Progress → Option Json}

theorem getElem?_fields_of_mem (h : (name, f) ∈ tellers) (p : Progress) :
    p.fields[name]? = f p := by
  have hfields : p.fields = Fields.ofOptions (tellers.map fun e => (e.1, e.2 p)) := rfl
  rw [hfields]
  refine Fields.getElem?_ofOptions_of_mem ?_ (List.mem_map.mpr ⟨_, h, rfl⟩)
  rw [List.map_map]
  exact nodup_tellers

theorem getElem?_fields_of_notMem (h : ∀ f, (name, f) ∉ tellers) (p : Progress) :
    p.fields[name]? = none := by
  have hfields : p.fields = Fields.ofOptions (tellers.map fun e => (e.1, e.2 p)) := rfl
  rw [hfields]
  refine Fields.getElem?_ofOptions_of_notMem fun a hm => ?_
  obtain ⟨e, he, heq⟩ := List.mem_map.mp hm
  obtain rfl : e.1 = name := congrArg Prod.fst heq
  exact h _ he

/-- What is told of one progress is also told of the other. -/
def Keeps (p q : Progress) : Prop :=
  ∀ name f, (name, f) ∈ tellers → (f p).isSome = true → (f q).isSome = true

theorem Keeps.trans (h : p.Keeps q) (h' : q.Keeps r) : p.Keeps r :=
  fun name f hf hp => h' name f hf (h name f hf hp)

/-- The names of what may change once it is known. -/
def loose : List String := ["person_active", "remote_site_login"]

/-- One progress comes of the other: what is known is the same. But a person who was not active
becomes so, and the login may change when the project is set up. -/
structure Builds (p q : Progress) : Prop where
  steady : ∀ name f, (name, f) ∈ tellers → name ∉ loose → f p = none ∨ f q = f p
  active : p.personActive = none ∨ q.personActive = p.personActive ∨
    p.personActive = some false ∧ q.personActive = some true
  login : p.remoteSiteLogin = none ∨ q.remoteSiteLogin = p.remoteSiteLogin ∨
    p.projectId = none ∧ q.projectId.isSome = true ∧ q.remoteSiteLogin.isSome = true

theorem Builds.refl (p : Progress) : p.Builds p :=
  ⟨fun _ _ _ _ => .inr rfl, .inr (.inl rfl), .inr (.inl rfl)⟩

theorem Builds.projectId (h : p.Builds q) : p.projectId = none ∨ q.projectId = p.projectId := by
  have hname : ("project_id", fun p : Progress => p.projectId.map Json.str) ∈ tellers := by
    simp [tellers]
  rcases h.steady _ _ hname (by decide) with h | h
  · exact .inl (Option.map_eq_none_iff.mp h)
  · exact .inr (Option.map_injective (fun _ _ => Json.str.inj) h)

theorem Builds.trans (h : p.Builds q) (h' : q.Builds r) : p.Builds r where
  steady name f hf hn := by
    rcases h.steady name f hf hn with hp | hq
    · exact .inl hp
    · rcases h'.steady name f hf hn with hq' | hr
      · exact .inl (hq ▸ hq')
      · exact .inr (hr.trans hq)
  active := by
    rcases h.active with hp | hq | ⟨hp, hq⟩
    · exact .inl hp
    · rcases h'.active with hq' | hr | hr
      · exact .inl (hq ▸ hq')
      · exact .inr (.inl (hr.trans hq))
      · exact .inr (.inr ⟨hq ▸ hr.1, hr.2⟩)
    · rcases h'.active with hq' | hr | hr
      · simp [hq] at hq'
      · exact .inr (.inr ⟨hp, hr.trans hq⟩)
      · simp [hq] at hr
  login := by
    rcases h.login with hp | hq | ⟨hp, hproject, hq⟩
    · exact .inl hp
    · rcases h'.login with hq' | hr | ⟨hnone, hr⟩
      · exact .inl (hq ▸ hq')
      · exact .inr (.inl (hr.trans hq))
      · rcases h.projectId with hn | he
        · exact .inr (.inr ⟨hn, hr⟩)
        · exact .inr (.inr ⟨he ▸ hnone, hr⟩)
    · rcases h'.login with hq' | hr | ⟨hnone, -⟩
      · simp [hq'] at hq
      · refine .inr (.inr ⟨hp, ?_, hr ▸ hq⟩)
        rcases h'.projectId with hn | he
        · simp [hn] at hproject
        · rwa [he]
      · simp [hnone] at hproject

theorem eq_of_loose (hf : (name, f) ∈ tellers) (hn : name ∈ loose) :
    f = (·.personActive.map .bool) ∨ f = (·.remoteSiteLogin.map .str) := by
  have hunique : ∀ g, (name, g) ∈ tellers → f = g := fun g hg =>
    (Prod.mk.inj (List.inj_on_of_nodup_map nodup_tellers hf hg rfl)).2
  rcases List.mem_pair.mp hn with rfl | rfl
  · exact .inl (hunique _ (by simp [tellers]))
  · exact .inr (hunique _ (by simp [tellers]))

theorem Builds.keeps (h : p.Builds q) : p.Keeps q := by
  intro name f hf hp
  by_cases hn : name ∈ loose
  · rcases eq_of_loose hf hn with rfl | rfl
    · rcases h.active with h | h | ⟨-, h⟩ <;> simp_all
    · rcases h.login with h | h | ⟨-, -, h⟩ <;> simp_all
  · rcases h.steady name f hf hn with hnone | heq
    · simp [hnone] at hp
    · rwa [heq]

theorem alike_map_bool {a b : Option Bool} :
    Json.Alike (a.map .bool) (b.map .bool) ↔ a = b := by
  cases a <;> cases b <;> simp [Json.Alike, Json.same]

theorem alike_map_str {a b : Option String} :
    Json.Alike (a.map .str) (b.map .str) ↔ a = b := by
  cases a <;> cases b <;> simp [Json.Alike, Json.same]

section

variable {body : Fields}

theorem Keeps.overlay_eq_none (h : p.Keeps q) (hq : (body.overlay q.fields)[name]? = none) :
    (body.overlay p.fields)[name]? = none := by
  rw [Fields.getElem?_overlay, Option.or_eq_none_iff] at hq ⊢
  refine ⟨?_, hq.2⟩
  by_cases hn : ∃ f, (name, f) ∈ tellers
  · obtain ⟨f, hf⟩ := hn
    rw [getElem?_fields_of_mem hf] at hq ⊢
    have hkeeps := h _ _ hf
    cases hp : f p with
    | none => rfl
    | some a => simp [hp, hq.1] at hkeeps
  · exact getElem?_fields_of_notMem (fun f hf => hn ⟨f, hf⟩) p

/-- The name is not that of something that may change while the packet tells it too. -/
def Apart (body : Fields) (name : String) : Prop := name ∈ loose → body[name]? = none

/-- What is told at first and is told again later has been told all the time between. -/
theorem Builds.alike_overlay (hbody : Apart body name) (hpq : p.Builds q) (hqr : q.Builds r)
    (h : Json.Alike (body.overlay r.fields)[name]? (body.overlay p.fields)[name]?) :
    Json.Alike (body.overlay q.fields)[name]? (body.overlay r.fields)[name]? := by
  simp only [Fields.getElem?_overlay] at h ⊢
  by_cases hn : ∃ f, (name, f) ∈ tellers
  · obtain ⟨f, hf⟩ := hn
    simp only [getElem?_fields_of_mem hf] at h ⊢
    by_cases hl : name ∈ loose
    · rw [hbody hl] at h ⊢
      simp only [Option.or_none] at h ⊢
      rcases eq_of_loose hf hl with rfl | rfl
      · have hback := alike_map_bool.mp h
        refine alike_map_bool.mpr ?_
        rcases hpq.active with hp | hq | ⟨hp, hq⟩ <;>
          rcases hqr.active with hq' | hr | ⟨hq', hr⟩ <;> simp_all
      · have hback := alike_map_str.mp h
        refine alike_map_str.mpr ?_
        rcases hpq.login with hp | hq | ⟨hp, hproject, hq⟩ <;>
          rcases hqr.login with hq' | hr | ⟨hq', -, hr⟩ <;> simp_all
    · rcases hqr.steady _ _ hf hl with hq | hr
      · have hp : f p = none := by
          rcases hpq.steady _ _ hf hl with hp | hpq
          · exact hp
          · exact hpq ▸ hq
        simp only [hp, hq, Option.none_or] at h ⊢
        exact h.symm
      · rw [hr] at h ⊢
        exact h.left
  · simp only [getElem?_fields_of_notMem fun f hf => hn ⟨f, hf⟩] at h ⊢
    exact h.left

end

end Progress

end SiteBroker
