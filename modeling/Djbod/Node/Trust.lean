import Djbod.Node.Lookup

/-!
# What the checks on record copies establish

* `Genuine` : copies that agree version by version and are on devices their record lists;
* `trustedVersions_genuine` : genuine copies pass, and each version is described by how many there are;
* `versionsOf_ok` : what acceptance says of any copies;
* `newestReadable_genuine`, `newestReadable_tooFew` : reads of genuine copies.
-/

namespace Djbod

section Except

variable {ε α β : Type}

theorem mapM_eq_ok {f : α → Except ε β} {xs : List α} {ys : List β} :
    xs.mapM f = .ok ys ↔ List.Forall₂ (fun x y => f x = .ok y) xs ys := by
  induction xs generalizing ys with
  | nil =>
    simp only [List.mapM_nil, List.forall₂_nil_left_iff]
    constructor
    · intro h; cases h; rfl
    · rintro rfl; rfl
  | cons x xs ih =>
    rw [List.mapM_cons, List.forall₂_cons_left_iff]
    cases hx : f x with
    | error e =>
      constructor
      · intro h; cases h
      · rintro ⟨y, ys', h, _⟩; cases h
    | ok y =>
      cases hxs : xs.mapM f with
      | error e =>
        constructor
        · intro h; cases h
        · rintro ⟨y', ys', _, h, _⟩
          rw [← ih, hxs] at h
          cases h
      | ok zs =>
        constructor
        · intro h; cases h
          exact ⟨y, zs, rfl, ih.mp hxs, rfl⟩
        · rintro ⟨y', ys', h, h', rfl⟩
          cases h
          rw [← ih, hxs] at h'
          cases h'
          rfl

theorem mapM_map_ok {f : α → Except ε β} {g : α → β} {xs : List α} (h : ∀ x ∈ xs, f x = .ok (g x)) :
    xs.mapM f = .ok (xs.map g) := by
  rw [mapM_eq_ok, List.forall₂_map_right_iff]
  exact List.forall₂_same.mpr h

theorem mapM_error_source {f : α → Except ε β} {xs : List α} {e : ε} (h : xs.mapM f = .error e) :
    ∃ x ∈ xs, f x = .error e := by
  induction xs with
  | nil => cases h
  | cons x xs ih =>
    rw [List.mapM_cons] at h
    cases hx : f x with
    | error e' =>
      rw [hx] at h
      cases h
      exact ⟨x, List.mem_cons_self, hx⟩
    | ok y =>
      rw [hx] at h
      cases hxs : xs.mapM f with
      | error e' =>
        rw [hxs] at h
        cases h
        obtain ⟨x', hx', he⟩ := ih hxs
        exact ⟨x', List.mem_cons_of_mem _ hx', he⟩
      | ok ys =>
        rw [hxs] at h
        cases h

end Except

theorem forall₂_comp {α β γ : Type} {R : α → β → Prop} {S : β → γ → Prop} {xs : List α} {ys : List β} {zs : List γ}
    (h : List.Forall₂ R xs ys) (h' : List.Forall₂ S ys zs) : List.Forall₂ (fun x z => ∃ y, R x y ∧ S y z) xs zs := by
  induction h generalizing zs with
  | nil => cases h'; exact .nil
  | cons hr _ ih =>
    cases h' with
    | cons hs ht => exact .cons ⟨_, hr, hs⟩ (ih ht)

theorem flatMap_sublist {α β γ : Type} {f : α → List γ} {g : β → List γ} {xs : List α} {ys : List β}
    (h : List.Forall₂ (fun x y => (g y).Sublist (f x)) xs ys) : (ys.flatMap g).Sublist (xs.flatMap f) := by
  induction h with
  | nil => exact .slnil
  | cons hr _ ih =>
    rw [List.flatMap_cons, List.flatMap_cons]
    exact hr.append ih

theorem forall₂_left_of_mem {α β : Type} {R : α → β → Prop} {xs : List α} {ys : List β} (h : List.Forall₂ R xs ys)
    {y : β} (hy : y ∈ ys) : ∃ x ∈ xs, R x y := by
  induction h with
  | nil => cases hy
  | cons hr _ ih =>
    rcases List.mem_cons.mp hy with rfl | hy
    · exact ⟨_, List.mem_cons_self, hr⟩
    · obtain ⟨x, hx, hxy⟩ := ih hy
      exact ⟨x, List.mem_cons_of_mem _ hx, hxy⟩

/-! ## The versions among copies -/

theorem mem_versionsDescending {located : List LocatedRecord} {v : VersionId} :
    v ∈ versionsDescending located ↔ ∃ c ∈ located, c.record.version = v := by
  rw [versionsDescending, List.mem_insertionSort, List.mem_dedup, List.mem_map]

theorem versionsDescending_sorted (located : List LocatedRecord) :
    (versionsDescending located).Pairwise (· > ·) := by
  have hs : (versionsDescending located).Pairwise (· ≥ ·) := List.pairwise_insertionSort _ _
  have hn : (versionsDescending located).Nodup :=
    (List.perm_insertionSort _ _).nodup_iff.mpr (List.nodup_dedup _)
  exact (hs.and hn).imp fun h => lt_of_le_of_ne h.1 h.2.symm

theorem versionsDescending_eq_nil {located : List LocatedRecord} :
    versionsDescending located = [] ↔ located = [] := by
  constructor
  · intro h
    rw [List.eq_nil_iff_forall_not_mem] at h ⊢
    exact fun c hc => h _ (mem_versionsDescending.mpr ⟨c, hc, rfl⟩)
  · rintro rfl; rfl

theorem le_of_versionsDescending {located : List LocatedRecord} {v : VersionId} {rest : List VersionId}
    (h : versionsDescending located = v :: rest) {c : LocatedRecord} (hc : c ∈ located) : c.record.version ≤ v := by
  have hmem : c.record.version ∈ versionsDescending located := mem_versionsDescending.mpr ⟨c, hc, rfl⟩
  have hs := versionsDescending_sorted located
  rw [h] at hmem hs
  rcases List.mem_cons.mp hmem with he | he
  · exact he.le
  · exact ((List.pairwise_cons.mp hs).1 _ he).le

theorem checkCurrent_eq_ok {key : String} {first : MetadataRecord} {current : List LocatedRecord} :
    checkCurrent key first current = .ok () ↔
      ∀ c ∈ current, c.record = first ∧ c.device ∈ first.shards.map ShardLocation.device := by
  induction current with
  | nil => simp [checkCurrent]
  | cons c rest ih =>
    rw [List.forall_mem_cons, checkCurrent]
    by_cases h₁ : c.record = first
    · by_cases h₂ : (first.shardOn c.device).isSome
      · rw [if_neg (not_not.mpr h₁), if_neg (by simpa using Option.isSome_iff_ne_none.mp h₂), ih]
        exact ⟨fun h => ⟨⟨h₁, MetadataRecord.shardOn_isSome.mp h₂⟩, h⟩, fun h => h.2⟩
      · rw [if_neg (not_not.mpr h₁), if_pos (by simpa using h₂)]
        constructor
        · intro h; cases h
        · intro h; exact absurd (MetadataRecord.shardOn_isSome.mpr h.1.2) h₂
    · rw [if_pos h₁]
      constructor
      · intro h; cases h
      · intro h; exact absurd h.1.1 h₁

theorem le_maxRevision {copies : List LocatedRecord} {c : LocatedRecord} (hc : c ∈ copies) :
    c.record.revision ≤ maxRevision copies := by
  induction copies with
  | nil => cases hc
  | cons x rest ih =>
    simp only [maxRevision, List.map_cons, List.foldr_cons]
    rcases List.mem_cons.mp hc with rfl | hc
    · exact le_max_left _ _
    · exact (ih hc).trans (le_max_right _ _)

theorem exists_maxRevision {copies : List LocatedRecord} (hne : copies ≠ []) :
    ∃ c ∈ copies, c.record.revision = maxRevision copies := by
  induction copies with
  | nil => exact absurd rfl hne
  | cons x rest ih =>
    have hcons : maxRevision (x :: rest) = max x.record.revision (maxRevision rest) := rfl
    by_cases hrest : rest = []
    · subst hrest
      exact ⟨x, List.mem_cons_self, by rw [hcons]; simp [maxRevision]⟩
    · obtain ⟨c, hc, he⟩ := ih hrest
      rcases le_total x.record.revision (maxRevision rest) with h | h
      · exact ⟨c, List.mem_cons_of_mem _ hc, by rw [hcons, max_eq_right h, he]⟩
      · exact ⟨x, List.mem_cons_self, by rw [hcons, max_eq_left h]⟩

/-! ## Genuine copies -/

/-- Copies that agree: the record of each is the one of its version, names the key, and lists the device
the copy is on. -/
structure Genuine (key : String) (recordOf : VersionId → MetadataRecord) (located : List LocatedRecord) : Prop where
  record : ∀ c ∈ located, c.record = recordOf c.record.version
  key : ∀ c ∈ located, c.record.key = key
  listed : ∀ c ∈ located, c.device ∈ c.record.shards.map ShardLocation.device

def copiesOf (located : List LocatedRecord) (v : VersionId) : List LocatedRecord :=
  located.filter fun c => c.record.version == v

theorem mem_copiesOf {located : List LocatedRecord} {v : VersionId} {c : LocatedRecord} :
    c ∈ copiesOf located v ↔ c ∈ located ∧ c.record.version = v := by
  simp [copiesOf]

/-- The listed devices of a record without a copy, all reported missing. -/
def lacking (r : MetadataRecord) (located : List LocatedRecord) : List MissingRecordCopy :=
  (r.shards.filter fun shard => !(copiesOf located r.version).any fun c => c.device == shard.device).map fun shard =>
    ⟨shard.device, .missing⟩

variable {X : Crates} {key : String} {recordOf : VersionId → MetadataRecord} {located : List LocatedRecord}

theorem trustVersion_genuine (h : Genuine key recordOf located) {v : VersionId}
    (hv : v ∈ versionsDescending located) :
    trustVersion X key v (copiesOf located v) =
      .ok ⟨recordOf v, lacking (recordOf v) located, (copiesOf located v).length⟩ := by
  obtain ⟨c₀, hc₀, hcv⟩ := mem_versionsDescending.mp hv
  have hmem : c₀ ∈ copiesOf located v := mem_copiesOf.mpr ⟨hc₀, hcv⟩
  have hsame : ∀ c ∈ copiesOf located v, c.record = recordOf v := by
    intro c hc
    obtain ⟨hc, hcv⟩ := mem_copiesOf.mp hc
    rw [← hcv]
    exact h.record c hc
  have hver : (recordOf v).version = v := by rw [← hsame c₀ hmem, hcv]
  have hkey : (copiesOf located v).find? (fun c => c.record.key != key) = none := by
    rw [List.find?_eq_none]
    intro c hc
    simp [h.key c (mem_copiesOf.mp hc).1]
  have hrev : ∀ c ∈ copiesOf located v, c.record.revision = maxRevision (copiesOf located v) := by
    intro c hc
    obtain ⟨c', hc', he⟩ := exists_maxRevision (List.ne_nil_of_mem hmem)
    rw [← he, hsame c hc, hsame c' hc']
  have hcurrent : (copiesOf located v).filter (fun c => c.record.revision == maxRevision (copiesOf located v)) =
      copiesOf located v := by
    rw [List.filter_eq_self]
    intro c hc
    simpa using hrev c hc
  have hcheck : checkCurrent key (recordOf v) (copiesOf located v) = .ok () := by
    rw [checkCurrent_eq_ok]
    intro c hc
    refine ⟨hsame c hc, ?_⟩
    rw [← hsame c hc]
    exact h.listed c (mem_copiesOf.mp hc).1
  have hvouch : (copiesOf located v).countP (fun c => c.record.revision == maxRevision (copiesOf located v) ||
      (recordOf v).sameBody c.record) = (copiesOf located v).length := by
    rw [List.countP_eq_length]
    intro c hc
    simp [hrev c hc]
  have hmiss : missingCopies (recordOf v) (copiesOf located v) (copiesOf located v) = lacking (recordOf v) located := by
    unfold missingCopies lacking
    rw [hver]
    refine List.map_congr_left fun shard hs => ?_
    have hno : (copiesOf located v).filter (fun c => c.device == shard.device) = [] := by
      rw [List.filter_eq_nil_iff]
      simpa using (List.mem_filter.mp hs).2
    simp [hno]
  obtain ⟨first, rest, hlist⟩ := List.exists_cons_of_ne_nil (List.ne_nil_of_mem hmem)
  have hfirst : first.record = recordOf v := hsame first (hlist ▸ List.mem_cons_self)
  unfold trustVersion
  rw [hkey]
  simp only [hcurrent]
  rw [hlist]
  simp only [hfirst]
  rw [← hlist, hcheck]
  simp only [hmiss, hvouch]

theorem trustedVersions_genuine (h : Genuine key recordOf located) :
    trustedVersions X key located = .ok ((versionsDescending located).map fun v =>
      ⟨recordOf v, lacking (recordOf v) located, (copiesOf located v).length⟩) :=
  mapM_map_ok fun _ hv => trustVersion_genuine h hv

theorem completeVersion_eq (key : String) (r : MetadataRecord) (missing : List MissingRecordCopy) (n : ℕ) :
    (missing = [] → completeVersion key [] ⟨r, missing, n⟩ = .ok r) ∧
      (missing ≠ [] → ∃ e, completeVersion key [] ⟨r, missing, n⟩ = .error e ∧ e.code = .recordsInconsistent) := by
  constructor
  · rintro rfl
    rfl
  · intro hne
    have hlt : (missing.countP fun m => decide (m.device ∈ ([] : List DeviceId))) < missing.length := by
      simpa using List.length_pos_iff.mpr hne
    exact ⟨_, by rw [completeVersion]; exact if_pos hlt, rfl⟩

/-! ## What acceptance says of any copies -/

theorem trustVersion_eq_ok {v : VersionId} {copies : List LocatedRecord} {trusted : TrustedVersion}
    (h : trustVersion X key v copies = .ok trusted) :
    (∀ c ∈ copies, c.record.key = key) ∧ (∃ c ∈ copies, c.record = trusted.record) ∧
      (∀ c ∈ copies, c.record.revision ≤ trusted.record.revision) ∧
      ∀ shard ∈ trusted.record.shards, (∀ m ∈ trusted.missing, m.device ≠ shard.device) →
        ∃ c ∈ copies, c.record = trusted.record ∧ c.device = shard.device := by
  unfold trustVersion at h
  split at h
  · cases h
  · next hkey =>
      dsimp only at h
      split at h
      · cases h
      · next first rest hcur =>
          cases hcheck : checkCurrent key first.record
              (copies.filter fun c => c.record.revision == maxRevision copies) with
          | error e => rw [hcheck] at h; cases h
          | ok _ =>
            rw [hcheck] at h
            cases h
            rw [checkCurrent_eq_ok] at hcheck
            have hfirst : first ∈ copies.filter fun c => c.record.revision == maxRevision copies :=
              hcur ▸ List.mem_cons_self
            have hrev : first.record.revision = maxRevision copies := by simpa using (List.mem_filter.mp hfirst).2
            refine ⟨?_, ⟨first, (List.mem_filter.mp hfirst).1, rfl⟩, ?_, ?_⟩
            · intro c hc
              simpa using List.find?_eq_none.mp hkey c hc
            · intro c hc
              rw [hrev]
              exact le_maxRevision hc
            · intro shard hs hm
              by_contra hno
              push Not at hno
              refine hm _ (List.mem_map_of_mem (List.mem_filter.mpr ⟨hs, ?_⟩)) rfl
              simp only [Bool.not_eq_true', List.any_eq_false, beq_iff_eq]
              intro c hc hd
              exact hno c (List.mem_filter.mp hc).1 (hcheck c hc).1 hd

/-- **What acceptance means.** The accepted records are those of the versions present, newest first, each at
the highest revision found, and a copy of it arrived from every device it lists. -/
theorem versionsOf_ok {records : List MetadataRecord} (h : versionsOf X key located = .ok records) :
    List.Forall₂ (fun v r => r.version = v ∧ r.key = key ∧ (∃ d, ⟨d, r⟩ ∈ located) ∧
      (∀ c ∈ located, c.record.version = v → c.record.revision ≤ r.revision) ∧
      ∀ shard ∈ r.shards, ⟨shard.device, r⟩ ∈ located) (versionsDescending located) records := by
  unfold versionsOf versionsOfExcluding at h
  cases ht : trustedVersions X key located with
  | error e => rw [ht] at h; cases h
  | ok trusted =>
    rw [ht] at h
    refine (forall₂_comp (mapM_eq_ok.mp ht) (mapM_eq_ok.mp h)).imp ?_
    rintro v r ⟨trusted, hv, hr⟩
    obtain ⟨hkey, ⟨c, hc, hcr⟩, hrev, hall⟩ := trustVersion_eq_ok hv
    have hmiss : trusted.missing = [] := by
      by_contra hne
      obtain ⟨e, he, _⟩ := (completeVersion_eq key trusted.record trusted.missing trusted.vouching).2 hne
      rw [hr] at he
      cases he
    obtain rfl : trusted.record = r := by
      have := (completeVersion_eq key trusted.record trusted.missing trusted.vouching).1 hmiss
      rw [hr] at this
      exact (Except.ok.inj this).symm
    obtain ⟨hc', hcv⟩ := mem_copiesOf.mp hc
    refine ⟨hcr ▸ hcv, hcr ▸ hkey c hc, ⟨c.device, hcr ▸ hc'⟩, ?_, ?_⟩
    · exact fun c' hmem hver => hrev c' (mem_copiesOf.mpr ⟨hmem, hver⟩)
    · intro shard hs
      obtain ⟨c', hc'', hrec, hdev⟩ := hall shard hs (by simp [hmiss])
      rw [← hrec, ← hdev]
      exact (mem_copiesOf.mp hc'').1

/-! ## Reads -/

variable {C : Cluster}

/-- A read of genuine copies returns the record of the newest version when at least `k` copies are there. -/
theorem newestReadable_genuine (found : Lookup) (h : Genuine key recordOf found.records) {v : VersionId}
    {rest : List VersionId} (hv : versionsDescending found.records = v :: rest)
    (hk : (recordOf v).k ≤ (copiesOf found.records v).length) :
    ∃ missing, newestReadable X C key found = .ok (recordOf v, missing) := by
  refine ⟨(lacking (recordOf v) found.records).map (classifyMissing X C found.unread), ?_⟩
  simp only [newestReadable, trustedVersions_genuine h, hv, List.map_cons]
  rw [if_neg (Nat.not_lt.mpr hk)]

theorem newestReadable_tooFew (found : Lookup) (h : Genuine key recordOf found.records) {v : VersionId}
    {rest : List VersionId} (hv : versionsDescending found.records = v :: rest)
    (hk : (copiesOf found.records v).length < (recordOf v).k) :
    ∃ e, newestReadable X C key found = .error e := by
  simp only [newestReadable, trustedVersions_genuine h, hv, List.map_cons]
  rw [if_pos hk]
  exact ⟨_, rfl⟩

end Djbod
