import Mathlib
import Modall.Registry.Official

/-!
# Version chains

Whatever caches and items the imports meet, the versions of an entry stay numbered `1, 2, …` with
distinct digests, and the entry points at the last of them. One call either leaves entries, versions
and audit trail alone or appends one version; everything else follows from that.
-/
namespace Modall.Registry.Official

open Library Library.Json

/-! ## What a call can do -/

/-- The catalogues differ in their caches only. -/
structure Catalogue.Agrees (c d : Catalogue) : Prop where
  platform : d.platform = c.platform
  entries : d.entries = c.entries
  versions : d.versions = c.versions

namespace Catalogue.Agrees
variable {c d e : Catalogue}

theorem refl (c : Catalogue) : c.Agrees c := ⟨rfl, rfl, rfl⟩

theorem trans (h : c.Agrees d) (g : d.Agrees e) : c.Agrees e :=
  ⟨g.platform.trans h.platform, g.entries.trans h.entries, g.versions.trans h.versions⟩

theorem deleteCaches (h : c.Agrees d) (p : RegistrySearchCache → Bool) :
    c.Agrees (d.deleteCaches p) := h.trans ⟨rfl, rfl, rfl⟩

theorem cleanUp (h : c.Agrees d) (rejected : List (Uuid × Uuid)) (verdicts : List Verdict) :
    c.Agrees (cleanUp rejected verdicts d) := by
  induction rejected generalizing d verdicts with
  | nil => exact h
  | cons entry rejected ih =>
    refine ih ?_ verdicts.tail
    split
    · exact h.deleteCaches _
    · exact h

end Catalogue.Agrees

/-- A session with nothing pending has deleted caches at most. -/
def ImportSession.Quiet (s t : ImportSession) : Prop :=
  s.rows.Agrees s.objects → s.rows.Agrees t.rows ∧ s.rows.Agrees t.objects

/-- A program that writes no entry, version or audit row. -/
abbrev Spares {α : Type} (x : Import α) : Prop := Keeps ImportSession.Quiet x

namespace Spares
variable {α β : Type}

theorem refl (s : ImportSession) : s.Quiet s := fun h => ⟨.refl _, h⟩

theorem bind {x : Import α} {f : α → Import β} (hx : Spares x) (hf : ∀ a, Spares (f a)) :
    Spares (x >>= f) := by
  refine Keeps.bind (R := ImportSession.Quiet) (fun s t u h g clean => ?_) hx hf
  obtain ⟨rows, objects⟩ := h clean
  have clean' : t.rows.Agrees t.objects :=
    ⟨objects.platform.trans rows.platform.symm, objects.entries.trans rows.entries.symm,
      objects.versions.trans rows.versions.symm⟩
  exact ⟨rows.trans (g clean').1, rows.trans (g clean').2⟩

theorem utcNow : Spares utcNow := by
  intro s
  unfold Official.utcNow
  cases hs : s.readings with
  | nil =>
    refine ⟨fun _ _ h => ?_, fun _ _ h => by cases h⟩
    cases h
    exact refl s
  | cons now readings =>
    refine ⟨fun _ _ h => ?_, fun _ _ h => by cases h⟩
    cases h
    intro clean
    exact ⟨.refl s.rows, clean⟩

theorem verdict : Spares verdict := by
  intro s
  unfold Official.verdict
  cases hs : s.verdicts with
  | nil =>
    refine ⟨fun _ _ h => ?_, fun _ _ h => by cases h⟩
    cases h
    exact refl s
  | cons v verdicts =>
    refine ⟨fun _ _ h => ?_, fun _ _ h => by cases h⟩
    cases h
    intro clean
    exact ⟨.refl s.rows, clean⟩

theorem statement {failure : ImportFailure} {x : Import α} (hx : Spares x) :
    Spares (statement failure x) := by
  refine .bind .verdict fun v => ?_
  cases v with
  | answers => exact hx
  | databaseError => exact Keeps.throw refl _
  | timesOut => exact Keeps.throw refl _

theorem query (f : ImportSession → α) : Spares (query f : Import α) := Keeps.query refl f

theorem raiseIf (c : Prop) [Decidable c] (e : ImportFailure) :
    Spares (raiseIf c e : Import Unit) := Keeps.raiseIf refl c e

theorem flushObjects (failure : ImportFailure) : Spares (flushObjects failure) := by
  refine .statement (.bind (.query _) fun _ => .bind (.raiseIf _ _) fun _ => ?_)
  exact Keeps.change _ fun s clean => ⟨clean, clean⟩

theorem requireImporter (context : WorkspaceContext) : Spares (requireImporter context) := by
  intro s
  unfold Official.requireImporter
  split
  · refine ⟨fun _ _ h => ?_, fun _ _ h => by cases h⟩
    cases h
    exact refl s
  · refine ⟨(fun _ _ h => by cases h), fun _ _ h => ?_⟩
    cases h
    exact refl s

theorem deleteNow (p : RegistrySearchCache → Bool) : Spares (deleteNow p) :=
  Keeps.change _ fun _ clean => ⟨.deleteCaches (.refl _) p, clean.deleteCaches p⟩

theorem purgeRejectedCache (workspaceId : Uuid) (cache : RegistrySearchCache) :
    Spares (purgeRejectedCache workspaceId cache) := by
  refine .bind (Keeps.change _ fun s clean => ⟨.refl _, clean⟩) fun _ => ?_
  refine .bind (Keeps.change _ fun s clean => ⟨.refl _, clean.deleteCaches _⟩) fun _ => ?_
  exact .flushObjects _

theorem requireFreshCache (limits : OfficialRegistryLimits) (cache : RegistrySearchCache) :
    Spares (requireFreshCache limits cache) := .bind .utcNow fun _ => .raiseIf _ _

theorem selectItem (P : OfficialPlatform) (limits : OfficialRegistryLimits) (call : ImportCall) :
    Spares (selectItem P limits call) := by
  refine .bind (.statement (.requireImporter _)) fun _ => .bind (.raiseIf _ _) fun _ => ?_
  refine .bind .utcNow fun now => .bind (.statement (.deleteNow _)) fun _ => ?_
  refine .bind (.statement (.query _)) fun found => .bind (Keeps.lift refl _) fun cache => ?_
  refine .bind (.statement (Keeps.pure refl _)) fun parsed => ?_
  cases parsed with
  | error code => exact .bind (.purgeRejectedCache _ _) fun _ => Keeps.throw refl _
  | ok items =>
    refine .bind (.requireFreshCache _ _) fun _ => ?_
    split
    · exact Keeps.throw refl _
    · exact Keeps.pure refl _

end Spares

/-- A statement that returns has been answered; nothing was written before it. -/
theorem statement_eq_ok {α : Type} {failure : ImportFailure} {x : Import α} {s t : ImportSession}
    {a : α} (h : statement failure x s = .ok a t) :
    ∃ verdicts, x { s with verdicts := verdicts } = .ok a t := by
  obtain ⟨v, u, hv, hx⟩ := bind_eq_ok.mp h
  have consumed : ∃ verdicts, u = { s with verdicts := verdicts } := by
    unfold verdict at hv
    cases hs : s.verdicts with
    | nil =>
      rw [hs] at hv
      cases hv
      exact ⟨s.verdicts, rfl⟩
    | cons v' verdicts =>
      rw [hs] at hv
      cases hv
      exact ⟨verdicts, rfl⟩
  obtain ⟨verdicts, rfl⟩ := consumed
  cases v with
  | answers => exact ⟨verdicts, hx⟩
  | databaseError => cases hx
  | timesOut => cases hx

/-- A statement that reads returns what it reads. -/
theorem statement_query_eq_ok {α : Type} {failure : ImportFailure} {f : ImportSession → α}
    {s t : ImportSession} {a : α} (h : statement failure (query f) s = .ok a t) :
    a = f t ∧ ∃ verdicts, t = { s with verdicts := verdicts } := by
  obtain ⟨verdicts, h⟩ := statement_eq_ok h
  cases h
  exact ⟨rfl, verdicts, rfl⟩

theorem flushObjects_eq_ok {failure : ImportFailure} {s t : ImportSession} {u : Unit}
    (h : flushObjects failure s = .ok u t) :
    s.objects.KeysUnique ∧ t.objects = s.objects ∧ t.rows = s.objects := by
  obtain ⟨verdicts, h⟩ := statement_eq_ok h
  obtain ⟨unique, s₁, h₁, h⟩ := bind_eq_ok.mp h
  cases h₁
  obtain ⟨_, s₂, h₂, h⟩ := bind_eq_ok.mp h
  obtain ⟨hunique, rfl⟩ := raiseIf_eq_ok.mp h₂
  cases h
  exact ⟨by simpa using hunique, rfl, rfl⟩

theorem requireFreshCache_eq_ok {limits : OfficialRegistryLimits} {cache : RegistrySearchCache}
    {s t : ImportSession} {u : Unit} (h : requireFreshCache limits cache s = .ok u t) :
    t.rows = s.rows ∧ t.objects = s.objects := by
  obtain ⟨now, s₁, h₁, h⟩ := bind_eq_ok.mp h
  obtain ⟨-, rfl⟩ := raiseIf_eq_ok.mp h
  unfold utcNow at h₁
  cases hs : s.readings with
  | nil =>
    rw [hs] at h₁
    cases h₁
    exact ⟨rfl, rfl⟩
  | cons now' readings =>
    rw [hs] at h₁
    cases h₁
    exact ⟨rfl, rfl⟩

namespace Catalogue

/-- What the lookup of an item's entry asks of a row. -/
def isEntry (workspaceId : Uuid) (externalId : Text) (entry : RegistryEntry) : Bool :=
  entry.workspaceId == workspaceId && decide (entry.source = .official) &&
    entry.externalId == some externalId

/-- The entry an import of the item works on. -/
def Serves (c : Catalogue) (call : ImportCall) (item : OfficialRegistryItem) (entry : RegistryEntry)
    (isNew : Bool) : Prop :=
  isNew = false ∧ entry ∈ c.entries ∧ isEntry call.context.workspaceId item.externalId entry ∨
  isNew = true ∧
    entry = ⟨call.entryId, call.context.workspaceId, .official, some item.externalId, none⟩ ∧
    ∀ other ∈ c.entries, isEntry call.context.workspaceId item.externalId other = false

/-- The catalogue before the version becomes current. -/
def extend (c : Catalogue) (entry : RegistryEntry) (isNew : Bool) (version : RegistryEntryVersion) :
    Catalogue := (if isNew then c.addEntry entry else c).addVersion version

end Catalogue

/-- How a call that returns leaves the catalogue. -/
inductive Recorded (c : Catalogue) (call : ImportCall) (item : OfficialRegistryItem)
    (version : RegistryEntryVersion) (d : Catalogue) : Prop where
  | kept {entry : RegistryEntry} {isNew : Bool} : c.Serves call item entry isNew →
      version ∈ c.versionsOf entry.id → version.provenanceDigest = item.provenanceDigest →
      c.Agrees d → Recorded c call item version d
  | appended {entry : RegistryEntry} {isNew : Bool} {o : Catalogue} :
      c.Serves call item entry isNew →
      (∀ other ∈ c.versionsOf entry.id, other.provenanceDigest ≠ item.provenanceDigest) →
      version.registryEntryId = entry.id → version.provenanceDigest = item.provenanceDigest →
      version.sequence =
        (if isNew then 1 else maximum ((c.versionsOf entry.id).map (·.sequence)) + 1) →
      c.Agrees o → (o.extend entry isNew version).KeysUnique →
      d = ((o.extend entry isNew version).setCurrent entry.id version.id).addAudit
        (importAudit call entry) →
      Recorded c call item version d

theorem entryFor_eq_ok {call : ImportCall} {item : OfficialRegistryItem} {s t : ImportSession}
    {entry : RegistryEntry} {isNew : Bool} (h : entryFor call item s = .ok (entry, isNew) t) :
    s.rows.Serves call item entry isNew ∧ t.rows = s.rows ∧ t.objects = s.objects := by
  obtain ⟨found, s₁, h₁, h⟩ := bind_eq_ok.mp h
  obtain ⟨hfound, verdicts, rfl⟩ := statement_query_eq_ok h₁
  cases found with
  | some entry' =>
    cases h
    refine ⟨.inl ⟨rfl, List.mem_of_find?_eq_some hfound.symm, ?_⟩, rfl, rfl⟩
    exact List.find?_some hfound.symm
  | none =>
    cases h
    refine ⟨.inr ⟨rfl, rfl, fun other hother => ?_⟩, rfl, rfl⟩
    exact Bool.eq_false_iff.mpr (List.find?_eq_none.mp hfound.symm other hother)

theorem nextSequence_eq_ok {entry : RegistryEntry} {isNew : Bool} {s t : ImportSession} {n : Nat}
    (h : nextSequence entry isNew s = .ok n t) :
    n = (if isNew then 1 else maximum ((s.rows.versionsOf entry.id).map (·.sequence)) + 1) ∧
      t.rows = s.rows ∧ t.objects = s.objects := by
  unfold nextSequence at h
  split at h
  case isTrue hnew =>
    cases h
    exact ⟨by rw [if_pos hnew], rfl, rfl⟩
  case isFalse hold =>
    obtain ⟨hn, verdicts, rfl⟩ := statement_query_eq_ok h
    exact ⟨by rw [if_neg hold, hn], rfl, rfl⟩

theorem importItem_eq_ok {limits : OfficialRegistryLimits} {call : ImportCall}
    {cache : RegistrySearchCache} {item : OfficialRegistryItem} {s t : ImportSession}
    {version : RegistryEntryVersion} (clean : s.rows.Agrees s.objects)
    (h : importItem limits call cache item s = .ok version t) :
    Recorded s.rows call item version t.objects := by
  obtain ⟨⟨entry, isNew⟩, s₁, h₁, h⟩ := bind_eq_ok.mp h
  obtain ⟨serves, rows₁, objects₁⟩ := entryFor_eq_ok h₁
  obtain ⟨existing, s₂, h₂, h⟩ := bind_eq_ok.mp h
  obtain ⟨hexisting, verdicts, rfl⟩ := statement_query_eq_ok h₂
  change existing = s₁.rows.versions.find? _ at hexisting
  rw [rows₁] at hexisting
  cases existing with
  | some found =>
    obtain ⟨_, s₃, h₃, h⟩ := bind_eq_ok.mp h
    cases h
    obtain ⟨rows₃, objects₃⟩ := requireFreshCache_eq_ok h₃
    have selected := List.find?_some hexisting.symm
    simp only [Bool.and_eq_true] at selected
    refine .kept serves ?_ (by simpa using selected.2) (by rw [objects₃, objects₁]; exact clean)
    exact List.mem_filter.mpr ⟨List.mem_of_find?_eq_some hexisting.symm, selected.1⟩
  | none =>
    obtain ⟨sequence, s₃, h₃, h⟩ := bind_eq_ok.mp h
    obtain ⟨hsequence, rows₃, objects₃⟩ := nextSequence_eq_ok h₃
    obtain ⟨_, s₄, h₄, h⟩ := bind_eq_ok.mp h
    obtain ⟨rows₄, objects₄⟩ := requireFreshCache_eq_ok h₄
    obtain ⟨_, s₅, h₅, h⟩ := bind_eq_ok.mp h
    have objects₅ : s₅.objects = if isNew then s.objects.addEntry entry else s.objects := by
      rw [← objects₁, ← objects₃, ← objects₄] at *
      cases isNew <;> cases h₅ <;> rfl
    obtain ⟨_, s₆, h₆, h⟩ := bind_eq_ok.mp h
    cases h₆
    obtain ⟨_, s₇, h₇, h⟩ := bind_eq_ok.mp h
    obtain ⟨unique, objects₇, -⟩ := flushObjects_eq_ok h₇
    obtain ⟨_, s₈, h₈, h⟩ := bind_eq_ok.mp h
    cases h₈
    obtain ⟨_, s₉, h₉, h⟩ := bind_eq_ok.mp h
    cases h₉
    obtain ⟨_, s₁₀, h₁₀, h⟩ := bind_eq_ok.mp h
    obtain ⟨-, objects₁₀, -⟩ := flushObjects_eq_ok h₁₀
    cases h
    simp only [objects₅] at unique objects₇
    refine .appended serves (fun other hother same => ?_) rfl rfl ?_ clean unique ?_
    · obtain ⟨hmem, howner⟩ := List.mem_filter.mp hother
      have := List.find?_eq_none.mp hexisting.symm other hmem
      simp [beq_iff_eq.mp howner, same] at this
    · rw [hsequence, rows₁]
    · simp only [objects₁₀, objects₇]
      rfl

theorem Recorded.of_agrees {c c' d : Catalogue} {call : ImportCall} {item : OfficialRegistryItem}
    {version : RegistryEntryVersion} (agrees : c.Agrees c') (h : Recorded c' call item version d) :
    Recorded c call item version d := by
  have serves {entry isNew} (h : c'.Serves call item entry isNew) :
      c.Serves call item entry isNew := by
    unfold Catalogue.Serves at *
    rwa [agrees.entries] at h
  have versions (id : Uuid) : c'.versionsOf id = c.versionsOf id := by
    rw [Catalogue.versionsOf, agrees.versions, Catalogue.versionsOf]
  cases h with
  | kept hserves hmem hdigest hsame =>
    exact .kept (serves hserves) (versions _ ▸ hmem) hdigest (agrees.trans hsame)
  | appended hserves hdistinct howner hdigest hsequence hsame hunique hd =>
    rw [versions] at hdistinct hsequence
    exact .appended (serves hserves) hdistinct howner hdigest hsequence (agrees.trans hsame)
      hunique hd

section outcome
variable (P : OfficialPlatform) (limits : OfficialRegistryLimits) (call : ImportCall)
  (c : Catalogue) (clock : Time) (readings : List Time) (verdicts : List Verdict)

/-- A call fails and writes nothing but the deletion of caches, or records the item it selected. -/
theorem importCached_cases :
    (∃ failure, (importCached P limits call (.begin c clock readings verdicts)).result =
        .error failure ∧
      c.Agrees (importCached P limits call (.begin c clock readings verdicts)).catalogue) ∨
    ∃ cache item s version,
      selectItem P limits call (.begin c clock readings verdicts) = .ok (cache, item) s ∧
      (importCached P limits call (.begin c clock readings verdicts)).result = .ok version ∧
      Recorded c call item version
        (importCached P limits call (.begin c clock readings verdicts)).catalogue := by
  unfold importCached
  split
  case h_1 version t ht =>
    split
    case isTrue =>
      obtain ⟨⟨cache, item⟩, s, hs, h⟩ := bind_eq_ok.mp ht
      obtain ⟨rows, objects⟩ := (Spares.selectItem P limits call).ok hs (.refl c)
      have clean : s.rows.Agrees s.objects :=
        ⟨objects.platform.trans rows.platform.symm, objects.entries.trans rows.entries.symm,
          objects.versions.trans rows.versions.symm⟩
      exact .inr ⟨cache, item, s, version, hs, rfl, (importItem_eq_ok clean h).of_agrees rows⟩
    case isFalse => exact .inl ⟨_, rfl, .cleanUp (.refl c) _ _⟩
  case h_2 => exact .inl ⟨_, rfl, .cleanUp (.refl c) _ _⟩

end outcome

/-! ## The chains -/

namespace Catalogue

/-- What identifies an entry outside of the table. -/
def identity (entry : RegistryEntry) : Uuid × RegistrySource × Option Text :=
  (entry.workspaceId, entry.source, entry.externalId)

/-- The versions of an entry are numbered from one, no digest comes twice, and the entry points at
the last. -/
structure Chain (c : Catalogue) (entry : RegistryEntry) : Prop where
  numbered : Numbered (·.sequence) (c.versionsOf entry.id)
  distinct : ((c.versionsOf entry.id).map (·.provenanceDigest)).Nodup
  current : ∃ version, (c.versionsOf entry.id).getLast? = some version ∧
    entry.currentVersionId = some version.id

structure Chained (c : Catalogue) : Prop where
  keys : c.KeysUnique
  identities : (c.entries.map identity).Nodup
  owned : ∀ version ∈ c.versions, ∃ entry ∈ c.entries, entry.id = version.registryEntryId
  chain : ∀ entry ∈ c.entries, c.Chain entry

theorem Chained.of_agrees {c d : Catalogue} (h : c.Chained) (entries : d.entries = c.entries)
    (versions : d.versions = c.versions) : d.Chained := by
  have same (id : Uuid) : d.versionsOf id = c.versionsOf id := by
    rw [versionsOf, versions, versionsOf]
  refine ⟨by rw [KeysUnique, entries, versions]; exact h.keys, by rw [entries]; exact h.identities,
    by rw [entries, versions]; exact h.owned, fun entry hentry => ?_⟩
  rw [entries] at hentry
  exact ⟨same _ ▸ (h.chain entry hentry).numbered, same _ ▸ (h.chain entry hentry).distinct,
    same _ ▸ (h.chain entry hentry).current⟩

theorem chained_nil {c : Catalogue} (entries : c.entries = []) (versions : c.versions = []) :
    c.Chained := by
  constructor <;> simp [KeysUnique, entries, versions]

/-- A new entry has no versions yet. -/
theorem Chained.versionsOf_eq_nil {c : Catalogue} (h : c.Chained) {id : Uuid}
    (fresh : ∀ entry ∈ c.entries, entry.id ≠ id) : c.versionsOf id = [] := by
  rw [versionsOf, List.filter_eq_nil_iff]
  intro version hversion same
  obtain ⟨entry, hentry, howner⟩ := h.owned version hversion
  exact fresh entry hentry (howner.trans (beq_iff_eq.mp same))

section extend
variable {c : Catalogue} {call : ImportCall} {item : OfficialRegistryItem} {entry : RegistryEntry}
  {isNew : Bool} {version : RegistryEntryVersion}

theorem versionsOf_extend (id : Uuid) :
    (c.extend entry isNew version).versionsOf id =
      c.versionsOf id ++ if version.registryEntryId = id then [version] else [] := by
  have versions : (c.extend entry isNew version).versions = c.versions ++ [version] := by
    cases isNew <;> rfl
  rw [versionsOf, versions, List.filter_append, versionsOf]
  by_cases h : version.registryEntryId = id <;> simp [h]

theorem mem_entries_extend {other : RegistryEntry} (serves : c.Serves call item entry isNew) :
    other ∈ (c.extend entry isNew version).entries ↔ other ∈ c.entries ∨ other = entry := by
  rcases serves with ⟨rfl, hmem, -⟩ | ⟨rfl, -, -⟩
  · change other ∈ c.entries ↔ _
    exact ⟨.inl, fun h => h.elim id fun h => h ▸ hmem⟩
  · change other ∈ c.entries ++ [entry] ↔ _
    simp

/-- The entry's versions so far, and the number the next one gets. -/
theorem Chained.next (h : c.Chained) (serves : c.Serves call item entry isNew)
    (unique : (c.extend entry isNew version).KeysUnique) :
    Numbered (·.sequence) (c.versionsOf entry.id) ∧
      ((c.versionsOf entry.id).map (·.provenanceDigest)).Nodup ∧
      (if isNew then 1 else maximum ((c.versionsOf entry.id).map (·.sequence)) + 1) =
        (c.versionsOf entry.id).length + 1 := by
  rcases serves with ⟨rfl, hmem, -⟩ | ⟨rfl, -, -⟩
  · have chain := h.chain entry hmem
    refine ⟨chain.numbered, chain.distinct, ?_⟩
    simp [chain.numbered.maximum_eq]
  · have ids : ((c.entries ++ [entry]).map (·.id)).Nodup := unique.1
    rw [List.map_append, List.map_singleton, List.nodup_append] at ids
    have none := h.versionsOf_eq_nil fun other hother same =>
      ids.2.2 other.id (List.mem_map_of_mem hother) entry.id (by simp) same
    rw [none]
    exact ⟨.nil, .nil, rfl⟩

theorem Chained.identities_extend (h : c.Chained) (serves : c.Serves call item entry isNew) :
    ((c.extend entry isNew version).entries.map identity).Nodup := by
  rcases serves with ⟨rfl, -, -⟩ | ⟨rfl, hentry, hother⟩
  · exact h.identities
  · change ((c.entries ++ [entry]).map identity).Nodup
    rw [List.map_append, List.map_singleton]
    refine List.nodup_append.mpr ⟨h.identities, List.nodup_singleton _, ?_⟩
    intro key hkey key' hkey' same
    obtain ⟨other, hmem, rfl⟩ := List.mem_map.mp hkey
    rw [List.mem_singleton] at hkey'
    subst hkey' hentry
    have missed := hother other hmem
    simp only [identity, Prod.mk.injEq] at same
    simp [isEntry, same] at missed

/-- Appending the next version under a digest the entry does not have keeps the chains. -/
theorem Chained.extend (h : c.Chained) (serves : c.Serves call item entry isNew)
    (other : ∀ old ∈ c.versionsOf entry.id, old.provenanceDigest ≠ version.provenanceDigest)
    (owner : version.registryEntryId = entry.id)
    (sequence : version.sequence =
      (if isNew then 1 else maximum ((c.versionsOf entry.id).map (·.sequence)) + 1))
    (unique : (c.extend entry isNew version).KeysUnique) :
    ((c.extend entry isNew version).setCurrent entry.id version.id).Chained := by
  obtain ⟨numbered, distinct, next⟩ := h.next serves unique
  have ids : ((c.extend entry isNew version).setCurrent entry.id version.id).entries.map (·.id) =
      (c.extend entry isNew version).entries.map (·.id) := map_updateWhere _ fun _ _ => rfl
  have identities :
      ((c.extend entry isNew version).setCurrent entry.id version.id).entries.map identity =
        (c.extend entry isNew version).entries.map identity := map_updateWhere _ fun _ _ => rfl
  refine ⟨⟨ids ▸ unique.1, unique.2⟩, identities ▸ h.identities_extend serves, ?_, ?_⟩
  · intro old hold
    have owned : old.registryEntryId ∈ (c.extend entry isNew version).entries.map (·.id) := by
      have hold' : old ∈ c.versions ++ [version] := by cases isNew <;> exact hold
      rcases List.mem_append.mp hold' with hold | hold
      · obtain ⟨its, hits, same⟩ := h.owned old hold
        exact List.mem_map.mpr ⟨its, (mem_entries_extend serves).mpr (.inl hits), same⟩
      · rw [List.mem_singleton.mp hold, owner]
        exact List.mem_map.mpr ⟨entry, (mem_entries_extend serves).mpr (.inr rfl), rfl⟩
    rw [← ids] at owned
    obtain ⟨its, hits, same⟩ := List.mem_map.mp owned
    exact ⟨its, hits, same⟩
  · intro row hrow
    obtain ⟨old, hold, rfl⟩ := mem_updateWhere.mp hrow
    have versions (id : Uuid) :
        ((c.extend entry isNew version).setCurrent entry.id version.id).versionsOf id =
          c.versionsOf id ++ if version.registryEntryId = id then [version] else [] :=
      versionsOf_extend id
    by_cases same : old.id = entry.id
    · rw [if_pos (beq_iff_eq.mpr same)]
      have grown := versions entry.id
      rw [if_pos owner] at grown
      change Chain _ { old with currentVersionId := some version.id }
      constructor
      · change Numbered _ (versionsOf _ old.id)
        rw [same, grown]
        exact numbered.append (sequence.trans next)
      · change ((versionsOf _ old.id).map _).Nodup
        rw [same, grown, List.map_append, List.map_singleton]
        refine List.nodup_append.mpr ⟨distinct, List.nodup_singleton _, ?_⟩
        intro digest hdigest digest' hdigest' equal
        obtain ⟨earlier, hearlier, rfl⟩ := List.mem_map.mp hdigest
        exact other earlier hearlier (equal.trans (List.mem_singleton.mp hdigest'))
      · refine ⟨version, ?_, rfl⟩
        change (versionsOf _ old.id).getLast? = _
        rw [same, grown, List.getLast?_concat]
    · rw [if_neg (by simpa using same)]
      have kept := versions old.id
      rw [if_neg fun h => same (h.symm.trans owner), List.append_nil] at kept
      have hmem : old ∈ c.entries :=
        ((mem_entries_extend serves).mp hold).resolve_right fun h => same (h ▸ rfl)
      have chain := h.chain old hmem
      exact ⟨kept ▸ chain.numbered, kept ▸ chain.distinct, kept ▸ chain.current⟩

end extend

end Catalogue

/-- A call that returns keeps the chains. -/
theorem Recorded.chained {c d : Catalogue} {call : ImportCall} {item : OfficialRegistryItem}
    {version : RegistryEntryVersion} (h : c.Chained) (recorded : Recorded c call item version d) :
    d.Chained := by
  cases recorded with
  | kept _ _ _ same => exact h.of_agrees same.entries same.versions
  | @appended entry isNew o serves other owner digest sequence same unique hd =>
    subst hd
    have serves' : o.Serves call item entry isNew := by
      unfold Catalogue.Serves at *
      rwa [same.entries]
    have versions : o.versionsOf entry.id = c.versionsOf entry.id := by
      rw [Catalogue.versionsOf, same.versions, Catalogue.versionsOf]
    have chained := (h.of_agrees same.entries same.versions).extend serves'
      (by rw [versions, digest]; exact other) owner (by rw [versions]; exact sequence) unique
    exact chained.of_agrees rfl rfl

/-- Versions are only ever appended. -/
theorem Recorded.versions_prefix {c d : Catalogue} {call : ImportCall}
    {item : OfficialRegistryItem} {version : RegistryEntryVersion}
    (recorded : Recorded c call item version d) : c.versions <+: d.versions := by
  cases recorded with
  | kept _ _ _ same => exact same.versions ▸ List.prefix_rfl
  | @appended entry isNew o _ _ _ _ _ same _ hd =>
    subst hd
    rw [← same.versions]
    cases isNew <;> exact List.prefix_append _ _

/-! ## Runs -/

/-- A call of `import_cached`, or anything that leaves entries and versions alone: searches, cache
clean-up and the other services. -/
inductive Step (P : OfficialPlatform) (c : Catalogue) : Catalogue → Prop where
  | imports (limits : OfficialRegistryLimits) (call : ImportCall) (clock : Time)
      (readings : List Time) (verdicts : List Verdict) :
      Step P c (importCached P limits call (.begin c clock readings verdicts)).catalogue
  | elsewhere {d : Catalogue} : d.entries = c.entries → d.versions = c.versions → Step P c d

/-- The catalogues that steps from empty tables lead to. -/
def Reached (P : OfficialPlatform) (c : Catalogue) : Prop :=
  ∃ initial : Catalogue, initial.entries = [] ∧ initial.versions = [] ∧
    Relation.ReflTransGen (Step P) initial c

theorem Step.chained {P : OfficialPlatform} {c d : Catalogue} (h : c.Chained) (step : Step P c d) :
    d.Chained := by
  cases step with
  | imports limits call clock readings verdicts =>
    rcases importCached_cases P limits call c clock readings verdicts with
      ⟨_, -, same⟩ | ⟨_, _, _, _, -, -, recorded⟩
    · exact h.of_agrees same.entries same.versions
    · exact recorded.chained h
  | elsewhere entries versions => exact h.of_agrees entries versions

theorem Reached.chained {P : OfficialPlatform} {c : Catalogue} (reached : Reached P c) :
    c.Chained := by
  obtain ⟨initial, entries, versions, steps⟩ := reached
  induction steps with
  | refl => exact Catalogue.chained_nil entries versions
  | tail _ step ih => exact step.chained ih

/-! ## Importing a digest again -/

/-- The cache passes `_require_fresh_cache` at the next reading of the clock. -/
def Fresh (limits : OfficialRegistryLimits) (cache : RegistrySearchCache) (s : ImportSession) :
    Prop :=
  s.readings.head?.getD s.clock < cache.expiresAt ∧
    s.readings.head?.getD s.clock - limits.cacheTtl < cache.fetchedAt

instance (limits : OfficialRegistryLimits) (cache : RegistrySearchCache) (s : ImportSession) :
    Decidable (Fresh limits cache s) := inferInstanceAs (Decidable (_ ∧ _))

theorem requireFreshCache_of_fresh {limits : OfficialRegistryLimits} {cache : RegistrySearchCache}
    {s : ImportSession} (fresh : Fresh limits cache s) :
    ∃ clock readings, requireFreshCache limits cache s =
      .ok () { s with clock := clock, readings := readings } := by
  unfold Fresh at fresh
  cases hs : s.readings with
  | nil =>
    have now : utcNow s = .ok s.clock s := by simp only [utcNow, hs]
    refine ⟨s.clock, s.readings, (bind_of_ok now).trans (raiseIf_eq_ok.mpr ⟨?_, rfl⟩)⟩
    simp only [hs, List.head?_nil, Option.getD_none] at fresh
    exact fun stale => stale.elim fresh.1.not_ge fresh.2.not_ge
  | cons next readings =>
    have now : utcNow s = .ok next { s with clock := next, readings := readings } := by
      simp only [utcNow, hs]
    refine ⟨next, readings, (bind_of_ok now).trans (raiseIf_eq_ok.mpr ⟨?_, rfl⟩)⟩
    simp only [hs, List.head?_cons, Option.getD_some] at fresh
    exact fun stale => stale.elim fresh.1.not_ge fresh.2.not_ge

theorem statement_of_answers {α : Type} {failure : ImportFailure} {x : Import α}
    {s : ImportSession} (answers : ∀ v ∈ s.verdicts, v = .answers) :
    statement failure x s = x { s with verdicts := s.verdicts.tail } := by
  cases hs : s.verdicts with
  | nil =>
    have answered : verdict s = .ok .answers s := by simp only [verdict, hs]
    have unchanged : { s with verdicts := [].tail } = s := by rw [List.tail_nil, ← hs]
    rw [unchanged]
    exact bind_of_ok answered
  | cons v verdicts =>
    obtain rfl := answers v (by simp [hs])
    have answered : verdict s = .ok .answers { s with verdicts := verdicts } := by
      simp only [verdict, hs]
    exact bind_of_ok answered

theorem statement_query_of_answers {α : Type} {failure : ImportFailure} {f : ImportSession → α}
    {s : ImportSession} {a : α} (answers : ∀ v ∈ s.verdicts, v = .answers)
    (h : f { s with verdicts := s.verdicts.tail } = a) :
    statement failure (query f) s = .ok a { s with verdicts := s.verdicts.tail } := by
  rw [statement_of_answers answers, query_apply, h]

/-- An item has one entry at most. -/
theorem Catalogue.Chained.entry_unique {c : Catalogue} (h : c.Chained) {workspaceId : Uuid}
    {externalId : Text} {entry other : RegistryEntry} (hentry : entry ∈ c.entries)
    (hother : other ∈ c.entries) (is : Catalogue.isEntry workspaceId externalId entry = true)
    (is' : Catalogue.isEntry workspaceId externalId other = true) : other = entry := by
  refine List.inj_on_of_nodup_map h.identities hother hentry ?_
  simp only [Catalogue.isEntry, Bool.and_eq_true, beq_iff_eq, decide_eq_true_eq] at is is'
  simp [Catalogue.identity, is, is']

/-- An entry has one version at most for a digest. -/
theorem Catalogue.Chained.version_unique {c : Catalogue} (h : c.Chained) {entry : RegistryEntry}
    (hentry : entry ∈ c.entries) {version other : RegistryEntryVersion}
    (hversion : version ∈ c.versionsOf entry.id) (hother : other ∈ c.versionsOf entry.id)
    (same : other.provenanceDigest = version.provenanceDigest) : other = version :=
  List.inj_on_of_nodup_map (h.chain entry hentry).distinct hother hversion same

/-- Nothing is in the way of the call's remaining statements. -/
def ImportSession.Undisturbed (s : ImportSession) : Prop := ∀ v ∈ s.verdicts, v = .answers

theorem ImportSession.Undisturbed.tail {s : ImportSession} (h : s.Undisturbed) :
    ({ s with verdicts := s.verdicts.tail } : ImportSession).Undisturbed :=
  fun v hv => h v (List.mem_of_mem_tail hv)

theorem selectItem_digest {P : OfficialPlatform} {limits : OfficialRegistryLimits}
    {call : ImportCall} {s t : ImportSession} {cache : RegistrySearchCache}
    {item : OfficialRegistryItem} (h : selectItem P limits call s = .ok (cache, item) t) :
    item.provenanceDigest = call.provenanceDigest := by
  obtain ⟨_, _, _, h⟩ := bind_eq_ok.mp h
  obtain ⟨_, _, _, h⟩ := bind_eq_ok.mp h
  obtain ⟨_, _, _, h⟩ := bind_eq_ok.mp h
  obtain ⟨_, _, _, h⟩ := bind_eq_ok.mp h
  obtain ⟨_, _, _, h⟩ := bind_eq_ok.mp h
  obtain ⟨_, _, _, h⟩ := bind_eq_ok.mp h
  obtain ⟨parsed, _, _, h⟩ := bind_eq_ok.mp h
  cases parsed with
  | error code =>
    obtain ⟨_, _, _, h⟩ := bind_eq_ok.mp h
    cases h
  | ok items =>
    obtain ⟨_, _, _, h⟩ := bind_eq_ok.mp h
    cases hfound : items.find? fun candidate =>
        candidate.provenanceDigest == call.provenanceDigest with
    | none =>
      simp only [hfound] at h
      cases h
    | some found =>
      simp only [hfound] at h
      cases h
      have matched := List.find?_some hfound
      exact beq_iff_eq.mp matched

/-- A digest the entry has is answered with the version it has. -/
theorem importItem_of_existing {limits : OfficialRegistryLimits} {call : ImportCall}
    {cache : RegistrySearchCache} {item : OfficialRegistryItem} {s : ImportSession}
    {entry : RegistryEntry} {version : RegistryEntryVersion} (chained : s.rows.Chained)
    (hentry : entry ∈ s.rows.entries)
    (is : Catalogue.isEntry call.context.workspaceId item.externalId entry = true)
    (hversion : version ∈ s.rows.versionsOf entry.id)
    (same : version.provenanceDigest = item.provenanceDigest)
    (undisturbed : s.Undisturbed) (fresh : Fresh limits cache s) :
    ∃ t, importItem limits call cache item s = .ok version t ∧ t.Undisturbed := by
  have found : s.rows.entries.find?
      (Catalogue.isEntry call.context.workspaceId item.externalId) = some entry :=
    find?_eq_some_of_only hentry is fun other hother is' =>
      chained.entry_unique hentry hother is is'
  have first : entryFor call item s =
      .ok (entry, false) { s with verdicts := s.verdicts.tail } := by
    refine bind_of_ok (?_ : statement _ (query fun s => s.rows.entries.find? _) s =
      .ok (some entry) { s with verdicts := s.verdicts.tail })
    rw [statement_of_answers undisturbed, query_apply]
    exact congrArg (EStateM.Result.ok · _) found
  obtain ⟨hmem, howner⟩ := List.mem_filter.mp hversion
  have existing : s.rows.versions.find? (fun version => version.registryEntryId == entry.id &&
      version.provenanceDigest == item.provenanceDigest) = some version := by
    refine find?_eq_some_of_only hmem (by simp [beq_iff_eq.mp howner, same]) ?_
    intro other hother matched
    simp only [Bool.and_eq_true, beq_iff_eq] at matched
    exact chained.version_unique hentry hversion
      (List.mem_filter.mpr ⟨hother, by simp [matched.1]⟩) (matched.2.trans same.symm)
  have fresh' : Fresh limits cache { s with verdicts := s.verdicts.tail.tail } := fresh
  obtain ⟨clock, readings, hfresh⟩ := requireFreshCache_of_fresh fresh'
  refine ⟨{ s with verdicts := s.verdicts.tail.tail, clock := clock, readings := readings },
    (bind_of_ok first).trans ?_, undisturbed.tail.tail⟩
  refine (bind_of_ok (statement_query_of_answers undisturbed.tail existing)).trans ?_
  exact bind_of_ok hfresh

section again
variable {P : OfficialPlatform} {limits : OfficialRegistryLimits} {call : ImportCall}
  {c : Catalogue} {clock : Time} {readings : List Time} {verdicts : List Verdict}
  {cache : RegistrySearchCache} {item : OfficialRegistryItem} {s : ImportSession}
  {entry : RegistryEntry} {version : RegistryEntryVersion}

/-- A call that returns on a digest its entry has returns that version and writes nothing. -/
theorem Recorded.again {d : Catalogue} {other : RegistryEntryVersion} (chained : c.Chained)
    (recorded : Recorded c call item other d) (hentry : entry ∈ c.entries)
    (is : Catalogue.isEntry call.context.workspaceId item.externalId entry = true)
    (hversion : version ∈ c.versionsOf entry.id)
    (same : version.provenanceDigest = item.provenanceDigest) :
    other = version ∧ c.Agrees d := by
  have served {entry' isNew} (serves : c.Serves call item entry' isNew) : entry' = entry := by
    rcases serves with ⟨-, hentry', is'⟩ | ⟨-, -, missing⟩
    · exact chained.entry_unique hentry hentry' is is'
    · rw [missing entry hentry] at is
      cases is
  cases recorded with
  | kept serves hother hdigest agrees =>
    rw [served serves] at hother
    exact ⟨chained.version_unique hentry hversion hother (hdigest.trans same.symm), agrees⟩
  | appended serves missing =>
    rw [served serves] at missing
    exact absurd same (missing version hversion)

theorem importCached_again (chained : c.Chained)
    (selected : selectItem P limits call (.begin c clock readings verdicts) = .ok (cache, item) s)
    (hentry : entry ∈ c.entries)
    (is : Catalogue.isEntry call.context.workspaceId item.externalId entry = true)
    (hversion : version ∈ c.versionsOf entry.id)
    (same : version.provenanceDigest = item.provenanceDigest) :
    c.Agrees (importCached P limits call (.begin c clock readings verdicts)).catalogue ∧
      ∀ other, (importCached P limits call (.begin c clock readings verdicts)).result = .ok other →
        other = version := by
  rcases importCached_cases P limits call c clock readings verdicts with
    ⟨failure, failed, agrees⟩ | ⟨cache', item', s', other', selected', returned, recorded⟩
  · refine ⟨agrees, fun other returned => ?_⟩
    rw [failed] at returned
    cases returned
  · rw [selected] at selected'
    cases selected'
    obtain ⟨rfl, agrees⟩ := recorded.again chained hentry is hversion same
    refine ⟨agrees, fun other returned' => ?_⟩
    rw [returned] at returned'
    cases returned'
    rfl

theorem importCached_of_existing (chained : c.Chained)
    (selected : selectItem P limits call (.begin c clock readings verdicts) = .ok (cache, item) s)
    (hentry : entry ∈ c.entries)
    (is : Catalogue.isEntry call.context.workspaceId item.externalId entry = true)
    (hversion : version ∈ c.versionsOf entry.id)
    (same : version.provenanceDigest = item.provenanceDigest)
    (undisturbed : s.Undisturbed) (fresh : Fresh limits cache s) :
    (importCached P limits call (.begin c clock readings verdicts)).result = .ok version := by
  have rows := ((Spares.selectItem P limits call).ok selected (.refl c)).1
  have chained' : s.rows.Chained := chained.of_agrees rows.entries rows.versions
  have hversion' : version ∈ s.rows.versionsOf entry.id := by
    rw [Catalogue.versionsOf, rows.versions]
    exact hversion
  obtain ⟨t, ht, calm⟩ := importItem_of_existing chained' (rows.entries ▸ hentry) is hversion' same
    undisturbed fresh
  have ran : importCachedAuthorized P limits call (.begin c clock readings verdicts) =
      .ok version t := (bind_of_ok selected).trans ht
  have commits : t.verdicts.head?.getD .answers = .answers := by
    cases ht : t.verdicts with
    | nil => rfl
    | cons v rest => exact calm v (by simp [ht])
  unfold importCached
  simp only [ran, commits, if_true]

end again

/-- Imports only ever append: in every state they lead to, the versions of an entry carry the
sequences from one on and distinct digests, the entry points at the highest of them, no two entries
share workspace, source and external id, and a digest the entry has is answered with the version it
has, without a change to entries, versions or audit trail. -/
theorem imports_form_version_chains (P : OfficialPlatform) (c : Catalogue) (reached : Reached P c) :
    (∀ entry ∈ c.entries,
      (c.versionsOf entry.id).map (·.sequence) =
        List.range' 1 (c.versionsOf entry.id).length ∧
      ((c.versionsOf entry.id).map (·.provenanceDigest)).Nodup ∧
      ∃ version ∈ c.versionsOf entry.id, entry.currentVersionId = some version.id ∧
        (∀ other ∈ c.versions, other.id = version.id → other = version) ∧
        ∀ other ∈ c.versionsOf entry.id, other.sequence ≤ version.sequence) ∧
    (c.entries.map fun entry => (entry.workspaceId, entry.source, entry.externalId)).Nodup ∧
    ∀ (limits : OfficialRegistryLimits) (call : ImportCall) (clock : Time) (readings : List Time)
      (verdicts : List Verdict),
      let session := ImportSession.begin c clock readings verdicts
      let outcome := importCached P limits call session
      c.versions <+: outcome.catalogue.versions ∧
      (∀ failure, outcome.result = .error failure → c.Agrees outcome.catalogue) ∧
      ∀ cache item s, selectItem P limits call session = .ok (cache, item) s →
        ∀ entry ∈ c.entries, entry.workspaceId = call.context.workspaceId →
        entry.source = .official → entry.externalId = some item.externalId →
        ∀ version ∈ c.versionsOf entry.id, version.provenanceDigest = call.provenanceDigest →
          c.Agrees outcome.catalogue ∧
          (∀ other, outcome.result = .ok other → other = version) ∧
          (s.Undisturbed → Fresh limits cache s → outcome.result = .ok version) := by
  have chained := reached.chained
  refine ⟨fun entry hentry => ?_, chained.identities, ?_⟩
  · have chain := chained.chain entry hentry
    obtain ⟨version, hlast, hcurrent⟩ := chain.current
    obtain ⟨before, hbefore⟩ := List.getLast?_eq_some_iff.mp hlast
    have hversion : version ∈ c.versionsOf entry.id := by simp [hbefore]
    refine ⟨chain.numbered, chain.distinct, version, hversion, hcurrent, ?_, ?_⟩
    · intro other hother same
      exact List.inj_on_of_nodup_map chained.keys.2 hother (List.mem_filter.mp hversion).1 same
    · intro other hother
      have last : version.sequence = (c.versionsOf entry.id).length := by
        have numbered := chain.numbered
        rw [hbefore] at numbered
        rw [numbered.last, hbefore, List.length_append, List.length_singleton]
      rw [last, ← chain.numbered.maximum_eq]
      exact le_maximum (List.mem_map_of_mem hother)
  · intro limits call clock readings verdicts
    refine ⟨?_, fun failure failed => ?_, ?_⟩
    · rcases importCached_cases P limits call c clock readings verdicts with
        ⟨_, -, agrees⟩ | ⟨_, _, _, _, -, -, recorded⟩
      · exact agrees.versions ▸ List.prefix_rfl
      · exact recorded.versions_prefix
    · rcases importCached_cases P limits call c clock readings verdicts with
        ⟨_, -, agrees⟩ | ⟨_, _, _, _, -, returned, -⟩
      · exact agrees
      · rw [returned] at failed
        cases failed
    · intro cache item s selected entry hentry workspace source external version hversion same
      have is : Catalogue.isEntry call.context.workspaceId item.externalId entry = true := by
        simp [Catalogue.isEntry, workspace, source, external]
      have same' := same.trans (selectItem_digest selected).symm
      obtain ⟨agrees, only⟩ := importCached_again chained selected hentry is hversion same'
      exact ⟨agrees, only, importCached_of_existing chained selected hentry is hversion same'⟩

/-! ### Two versions of one server -/

namespace Sample

def server (version : String) : Value :=
  .object [(text "server", .object [(text "name", .str (text "acme/search")),
    (text "version", .str (text version))])]

def firstDigest : Text := text "24a486ce74c915bf4c9627943f195924293aad9b8ca42104b2d63a671d95c3d6"
def secondDigest : Text := text "61c0012f3a4728695b9578fa4917a6b988237bf443ae794461f961e8f56c7c11"
def listDigest : Text := text "c1c4a1698503960acc2d5309fbb994c3ed2f12108bcacac30dfae25f00eceb50"

/-- SHA-256 on the three texts of the sample. -/
def platform : OfficialPlatform where
  floatText := id
  unwritable _ := false
  sha256 data :=
    if some data = encode (dump (server "1.0.0")) then firstDigest
    else if some data = encode (dump (server "1.1.0")) then secondDigest
    else listDigest

def limits : OfficialRegistryLimits where
  maxQueryCharacters := 256
  maxPages := 5
  maxItems := 100
  maxResponseBytes := 262144
  maxWorkspaceCacheRows := 100
  maxWorkspaceCacheBytes := 4194304
  maxCursorCharacters := 1024
  cacheTtl := 3600000000
  queryCharacters_pos := by decide
  pages_pos := by decide
  items_pos := by decide
  responseBytes_pos := by decide
  cacheRows_pos := by decide
  response_fits := by decide
  cursorCharacters_pos := by decide
  ttl_pos := by decide
  ttl_le_hour := by decide

def cache : RegistrySearchCache where
  id := 10
  workspaceId := 1
  queryDigest := []
  responseDigest := listDigest
  normalizedResults := .list [server "1.0.0", server "1.1.0"]
  resultCount := 2
  byteCount := 105
  fetchedAt := 0
  expiresAt := 3600000000

/-- One operator, one cached search and no imports yet. -/
def initial : Catalogue where
  platform :=
    ⟨⟨[1], [⟨1, 2, .operator⟩], [], [], [], [], [], [], [], [], [], [], []⟩, none, [], [], [], [], [],
      [], [], []⟩
  entries := []
  versions := []
  caches := [cache]

def call (digest : Text) (entryId versionId : Uuid) : ImportCall where
  context := ⟨1, 2, .operator⟩
  cacheId := 10
  provenanceDigest := digest
  correlationId := none
  entryId := entryId
  versionId := versionId
  newCorrelationId := 3
  scan _ := .ok false

def run (digest : Text) (entryId versionId : Uuid) (c : Catalogue) : ImportOutcome :=
  importCached platform limits (call digest entryId versionId) (.begin c 1 [] [])

/-- Both versions imported, the newer one last. -/
def imported : Catalogue :=
  (run secondDigest 22 23 (run firstDigest 20 21 initial).catalogue).catalogue

theorem imported_reached : Reached platform imported :=
  ⟨initial, rfl, rfl, .tail (.tail .refl (.imports limits (call firstDigest 20 21) 1 [] []))
    (.imports limits (call secondDigest 22 23) 1 [] [])⟩

/-- The call has picked the sample's item and can go on. -/
def picked : EStateM.Result ImportFailure ImportSession
    (RegistrySearchCache × OfficialRegistryItem) → Bool
  | .ok (cache, item) s => item.externalId == text "acme/search" && s.verdicts.isEmpty &&
      decide (Fresh limits cache s)
  | .error _ _ => false

end Sample

/-- The older digest again: the answer is the older version, and nothing is written. -/
theorem imports_form_version_chains_older :
    Sample.imported.versions.map (·.sequence) = [1, 2] ∧
    ∃ version ∈ Sample.imported.versionsOf 20, version.sequence = 1 ∧
      (Sample.run Sample.firstDigest 24 25 Sample.imported).result = .ok version ∧
      Sample.imported.Agrees (Sample.run Sample.firstDigest 24 25 Sample.imported).catalogue := by
  refine ⟨by decide +kernel, ?_⟩
  obtain ⟨version, hversion, same, first⟩ : ∃ version ∈ Sample.imported.versionsOf 20,
      version.provenanceDigest = Sample.firstDigest ∧ version.sequence = 1 := by decide +kernel
  have entries : Sample.imported.entries =
      [⟨20, 1, .official, some (text "acme/search"), some 23⟩] := by decide +kernel
  have picks : Sample.picked (selectItem Sample.platform Sample.limits
      (Sample.call Sample.firstDigest 24 25) (.begin Sample.imported 1 [] [])) = true := by
    decide +kernel
  cases selected : selectItem Sample.platform Sample.limits
      (Sample.call Sample.firstDigest 24 25) (.begin Sample.imported 1 [] []) with
  | error failure s =>
    rw [selected] at picks
    cases picks
  | ok chosen s =>
    obtain ⟨cache, item⟩ := chosen
    rw [selected] at picks
    simp only [Sample.picked, Bool.and_eq_true, beq_iff_eq, List.isEmpty_iff,
      decide_eq_true_eq] at picks
    obtain ⟨⟨external, calm⟩, fresh⟩ := picks
    obtain ⟨agrees, -, returns⟩ :=
      ((imports_form_version_chains Sample.platform Sample.imported Sample.imported_reached).2.2
        Sample.limits (Sample.call Sample.firstDigest 24 25) 1 [] []).2.2 cache item s selected
        ⟨20, 1, .official, some (text "acme/search"), some 23⟩ (by simp [entries]) rfl rfl
        (by rw [external]) version hversion same
    exact ⟨version, hversion, first, returns (by simp [ImportSession.Undisturbed, calm]) fresh,
      agrees⟩

end Modall.Registry.Official
