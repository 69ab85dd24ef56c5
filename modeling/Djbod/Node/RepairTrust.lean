import Djbod.Node.Repair
import Djbod.Node.Trust

/-!
# What a read and a repair trust

Both group the copies by version and take the highest revision of the newest. A read checks every version and lets
lower revisions vouch; a repair checks the newest only, and that its lower revisions describe the same body.

* `Agreeing`, `Vouched`, `OneBody` : the checks, as facts about the copies of a version;
* `trustVersion_agreeing`, `repairVersion_agreeing` : which of them each of the two makes;
* `SameTrust`, `sameResult_iff` : when the two come to the same result.
-/

namespace Djbod

/-- The copies name the key; those at the highest revision are equal, and each is on a device it lists. -/
structure Agreeing (key : String) (copies : List LocatedRecord) : Prop where
  key : ∀ c ∈ copies, c.record.key = key
  current : ∀ c ∈ copies, c.record.revision = maxRevision copies → ∀ c' ∈ copies,
    c'.record.revision = maxRevision copies → c'.record = c.record
  listed : ∀ c ∈ copies, c.record.revision = maxRevision copies → c.device ∈ c.record.shards.map ShardLocation.device

def vouchers (first : MetadataRecord) (copies : List LocatedRecord) : ℕ :=
  copies.countP fun c => c.record.revision == maxRevision copies || first.sameBody c.record

/-- At least `k` copies vouch for the body of the copies at the highest revision. -/
def Vouched (copies : List LocatedRecord) : Prop :=
  ∀ c ∈ copies, c.record.revision = maxRevision copies → c.record.k ≤ vouchers c.record copies

/-- The copies at lower revisions describe the body of those at the highest. -/
def OneBody (copies : List LocatedRecord) : Prop :=
  ∀ c ∈ copies, c.record.revision = maxRevision copies → ∀ c' ∈ copies, c'.record.revision < maxRevision copies →
    c'.record.sameBody c.record = true

def currentCopies (copies : List LocatedRecord) : List LocatedRecord :=
  copies.filter fun c => c.record.revision == maxRevision copies

theorem mem_currentCopies {copies : List LocatedRecord} {c : LocatedRecord} :
    c ∈ currentCopies copies ↔ c ∈ copies ∧ c.record.revision = maxRevision copies := by
  simp [currentCopies]

theorem currentCopies_cons {copies : List LocatedRecord} (hne : copies ≠ []) :
    ∃ first rest, currentCopies copies = first :: rest ∧ first ∈ copies ∧
    first.record.revision = maxRevision copies := by
  obtain ⟨c, hc, hrev⟩ := exists_maxRevision hne
  obtain ⟨first, rest, hcons⟩ := List.exists_cons_of_ne_nil (List.ne_nil_of_mem (mem_currentCopies.mpr ⟨hc, hrev⟩))
  exact ⟨first, rest, hcons, mem_currentCopies.mp (hcons ▸ List.mem_cons_self)⟩

theorem checkRepairable_eq_ok {key : String} {first : MetadataRecord} {current : List LocatedRecord} :
    checkRepairable key first current = .ok () ↔ checkCurrent key first current = .ok () := by
  induction current with
  | nil => exact Iff.rfl
  | cons c rest ih =>
    rw [checkRepairable, checkCurrent]
    by_cases hrec : c.record ≠ first
    · rw [if_pos hrec, if_pos hrec]
      simp
    · rw [if_neg hrec, if_neg hrec]
      by_cases hlist : (first.shardOn c.device).isNone = true
      · rw [if_pos hlist, if_pos hlist]
      · rw [if_neg hlist, if_neg hlist]
        exact ih

section Version

variable {X : Crates} {key : String} {v : VersionId} {copies : List LocatedRecord} {first : LocatedRecord}
  {rest : List LocatedRecord}

theorem checkCurrent_agreeing (hcur : currentCopies copies = first :: rest) (hkey : ∀ c ∈ copies, c.record.key = key) :
    checkCurrent key first.record (currentCopies copies) = .ok () ↔ Agreeing key copies := by
  have hfirst := mem_currentCopies.mp (hcur ▸ List.mem_cons_self : first ∈ currentCopies copies)
  rw [checkCurrent_eq_ok]
  constructor
  · intro h
    refine ⟨hkey, fun c hc hrev c' hc' hrev' => ?_, fun c hc hrev => ?_⟩
    · rw [(h c (mem_currentCopies.mpr ⟨hc, hrev⟩)).1, (h c' (mem_currentCopies.mpr ⟨hc', hrev'⟩)).1]
    · rw [(h c (mem_currentCopies.mpr ⟨hc, hrev⟩)).1]
      exact (h c (mem_currentCopies.mpr ⟨hc, hrev⟩)).2
  · intro h c hc
    obtain ⟨hmem, hrev⟩ := mem_currentCopies.mp hc
    have hsame := h.current first hfirst.1 hfirst.2 c hmem hrev
    exact ⟨hsame, hsame ▸ h.listed c hmem hrev⟩

theorem Agreeing.vouched_iff (h : Agreeing key copies) (hcur : currentCopies copies = first :: rest) :
    Vouched copies ↔ ¬ vouchers first.record copies < first.record.k := by
  have hfirst := mem_currentCopies.mp (hcur ▸ List.mem_cons_self : first ∈ currentCopies copies)
  rw [Nat.not_lt]
  constructor
  · intro hvouch
    exact hvouch first hfirst.1 hfirst.2
  · intro hle c hc hrev
    rwa [h.current first hfirst.1 hfirst.2 c hc hrev]

/-- The copies do not agree where one has another key; where none has, the current ones decide. -/
theorem agreeing_cases (hcur : currentCopies copies = first :: rest) :
    ((∃ c, (copies.find? fun c => c.record.key != key) = some c) ∧ ¬ Agreeing key copies) ∨
      (copies.find? fun c => c.record.key != key) = none ∧
      (copies.filter fun c => c.record.revision == maxRevision copies) = first :: rest ∧
        (checkCurrent key first.record (first :: rest) = .ok () ↔ Agreeing key copies) := by
  cases hk : copies.find? fun c => c.record.key != key with
  | some c =>
    have hne : c.record.key ≠ key := by simpa using List.find?_some hk
    exact .inl ⟨⟨c, rfl⟩, fun h => hne (h.key c (List.mem_of_find?_eq_some hk))⟩
  | none =>
    have hkey : ∀ c ∈ copies, c.record.key = key := fun c hc => by simpa using List.find?_eq_none.mp hk c hc
    exact .inr ⟨rfl, hcur, hcur ▸ checkCurrent_agreeing hcur hkey⟩

/-- A read accepts a version exactly when its copies agree. -/
theorem trustVersion_agreeing (hcur : currentCopies copies = first :: rest) :
    (Agreeing key copies → trustVersion X key v copies =
      .ok ⟨first.record, missingCopies first.record (currentCopies copies) copies, vouchers first.record copies⟩) ∧
    (¬ Agreeing key copies → ∃ e, trustVersion X key v copies = .error e) := by
  unfold trustVersion
  rcases agreeing_cases hcur with ⟨⟨c, hk⟩, hno⟩ | ⟨hk, hcurrent, hiff⟩
  · exact ⟨fun h => absurd h hno, fun _ => ⟨_, by rw [hk]⟩⟩
  · rw [hk]
    dsimp only
    rw [hcurrent, hcur]
    dsimp only
    rw [← hiff]
    cases hcheck : checkCurrent key first.record (first :: rest) with
    | error e => exact ⟨nofun, fun _ => ⟨e, rfl⟩⟩
    | ok u => exact ⟨fun _ => rfl, fun h => absurd rfl h⟩

/-- A repair accepts it exactly when its lower revisions describe the same body, too, and enough copies vouch for it. -/
theorem repairVersion_agreeing (hcur : currentCopies copies = first :: rest) :
    (Agreeing key copies → OneBody copies → Vouched copies → repairVersion X key v copies =
      .ok ⟨first.record, (first.record.shards.map ShardLocation.device).filter fun d =>
        !(currentCopies copies).any fun c => c.device == d, staleCopies first.record copies⟩) ∧
    (¬ (Agreeing key copies ∧ OneBody copies ∧ Vouched copies) → ∃ e, repairVersion X key v copies = .error e) := by
  have hfirst := mem_currentCopies.mp (hcur ▸ List.mem_cons_self : first ∈ currentCopies copies)
  unfold repairVersion
  rcases agreeing_cases hcur with ⟨⟨c, hk⟩, hno⟩ | ⟨hk, hcurrent, hiff⟩
  · exact ⟨fun h => absurd h hno, fun _ => ⟨_, by rw [hk]⟩⟩
  · rw [hk]
    dsimp only
    rw [hcurrent, hcur]
    dsimp only
    cases hcheck : checkRepairable key first.record (first :: rest) with
    | error e =>
      refine ⟨fun h => ?_, fun _ => ⟨e, rfl⟩⟩
      rw [checkRepairable_eq_ok.mpr (hiff.mpr h)] at hcheck
      cases hcheck
    | ok u =>
      have hag := hiff.mp (checkRepairable_eq_ok.mp hcheck)
      dsimp only
      cases hb : copies.find? fun c => c.record.revision < maxRevision copies && !c.record.sameBody first.record with
      | some c =>
        have hlow : c.record.revision < maxRevision copies ∧ c.record.sameBody first.record = false := by
          simpa using List.find?_some hb
        refine ⟨fun _ h => ?_, fun _ => ⟨_, rfl⟩⟩
        have hsame := h first hfirst.1 hfirst.2 c (List.mem_of_find?_eq_some hb) hlow.1
        rw [hlow.2] at hsame
        cases hsame
      | none =>
        have hbody : OneBody copies := by
          intro c hc hrev c' hc' hlow
          have hnone := List.find?_eq_none.mp hb c' hc'
          rw [hag.current first hfirst.1 hfirst.2 c hc hrev]
          simpa [hlow] using hnone
        have hvouch := hag.vouched_iff hcur
        dsimp only
        by_cases hlt : vouchers first.record copies < first.record.k
        · refine ⟨fun _ _ h => absurd hlt (hvouch.mp h), fun _ => ⟨_, if_pos hlt⟩⟩
        · exact ⟨fun _ _ _ => if_neg hlt, fun h => absurd ⟨hag, hbody, hvouch.mpr hlt⟩ h⟩

end Version

/-! ## The two of them -/

section Both

variable {X : Crates} {C : Cluster} {key : String} {located : List LocatedRecord}

theorem copiesOf_ne_nil {v : VersionId} (hv : v ∈ versionsDescending located) : copiesOf located v ≠ [] := by
  obtain ⟨c, hc, hcv⟩ := mem_versionsDescending.mp hv
  exact List.ne_nil_of_mem (mem_copiesOf.mpr ⟨hc, hcv⟩)

theorem trustVersions_isOk {vs : List VersionId} (hvs : ∀ v ∈ vs, v ∈ versionsDescending located) :
    (∃ ts, vs.mapM (fun v => trustVersion X key v (copiesOf located v)) = .ok ts) ↔
      ∀ v ∈ vs, Agreeing key (copiesOf located v) := by
  induction vs with
  | nil => exact ⟨fun _ _ h => absurd h List.not_mem_nil, fun _ => ⟨[], rfl⟩⟩
  | cons v vs ih =>
    obtain ⟨first, rest, hcur, _, _⟩ := currentCopies_cons (copiesOf_ne_nil (hvs v List.mem_cons_self))
    obtain ⟨hok, herr⟩ := @trustVersion_agreeing X key v _ _ _ hcur
    rw [List.forall_mem_cons, ← ih fun w hw => hvs w (List.mem_cons_of_mem _ hw), List.mapM_cons]
    constructor
    · rintro ⟨ts, h⟩
      by_cases hag : Agreeing key (copiesOf located v)
      · rw [hok hag] at h
        cases hrest : vs.mapM (fun v => trustVersion X key v (copiesOf located v)) with
        | error e => rw [hrest] at h; cases h
        | ok ts' => exact ⟨hag, ts', rfl⟩
      · obtain ⟨e, he⟩ := herr hag
        rw [he] at h
        cases h
    · rintro ⟨hag, ts, h⟩
      rw [hok hag, h]
      exact ⟨_, rfl⟩

theorem newestReadable_cons {found : Lookup} {v : VersionId} {vs : List VersionId}
    (hv : versionsDescending found.records = v :: vs) {first : LocatedRecord} {rest : List LocatedRecord}
    (hcur : currentCopies (copiesOf found.records v) = first :: rest) :
    (Agreeing key (copiesOf found.records v) → Vouched (copiesOf found.records v) →
      (∀ w ∈ vs, Agreeing key (copiesOf found.records w)) → newestReadable X C key found =
        .ok (first.record, (missingCopies first.record (currentCopies (copiesOf found.records v))
          (copiesOf found.records v)).map (classifyMissing X C found.unread))) ∧
    (¬ (Agreeing key (copiesOf found.records v) ∧ Vouched (copiesOf found.records v) ∧
      ∀ w ∈ vs, Agreeing key (copiesOf found.records w)) → ∃ e, newestReadable X C key found = .error e) := by
  obtain ⟨hok, herr⟩ := @trustVersion_agreeing X key v _ _ _ hcur
  have holder := @trustVersions_isOk X key found.records vs
    fun w hw => hv ▸ List.mem_cons_of_mem _ hw
  have htrust : trustedVersions X key found.records =
      (do let t ← trustVersion X key v (copiesOf found.records v)
          let ts ← vs.mapM (fun v => trustVersion X key v (copiesOf found.records v))
          pure (t :: ts)) := by
    rw [trustedVersions, hv, List.mapM_cons]
    rfl
  unfold newestReadable
  rw [htrust]
  by_cases hag : Agreeing key (copiesOf found.records v)
  · rw [hok hag]
    by_cases hold : ∀ w ∈ vs, Agreeing key (copiesOf found.records w)
    · obtain ⟨ts, hts⟩ := holder.mpr hold
      rw [hts]
      have hvouch := hag.vouched_iff hcur
      by_cases hlt : vouchers first.record (copiesOf found.records v) < first.record.k
      · exact ⟨fun _ h _ => absurd hlt (hvouch.mp h), fun _ => ⟨_, if_pos hlt⟩⟩
      · exact ⟨fun _ _ _ => if_neg hlt, fun h => absurd ⟨hag, hvouch.mpr hlt, hold⟩ h⟩
    · refine ⟨fun _ _ h => absurd h hold, fun _ => ?_⟩
      cases hts : vs.mapM (fun v => trustVersion X key v (copiesOf found.records v)) with
      | error e => exact ⟨e, rfl⟩
      | ok ts => exact absurd (holder.mp ⟨ts, hts⟩) hold
  · obtain ⟨e, he⟩ := herr hag
    rw [he]
    exact ⟨fun h => absurd h hag, fun _ => ⟨e, rfl⟩⟩

/-- The two decide alike: a newest version that both would accept has lower revisions of one body exactly when the older
versions agree, each in itself. -/
def SameTrust (key : String) (located : List LocatedRecord) : Prop :=
  ∀ v vs, versionsDescending located = v :: vs → Agreeing key (copiesOf located v) → Vouched (copiesOf located v) →
    (OneBody (copiesOf located v) ↔ ∀ w ∈ vs, Agreeing key (copiesOf located w))

/-- A read and a repair come to the same result: both fail, or both trust one record that lacks copies on the same
devices. -/
def SameResult : Except ErrorDetail (MetadataRecord × List MissingRecordCopy) → Except ErrorDetail Repairable → Prop
  | .ok (record, missing), .ok found => found.record = record ∧ found.missing = missing.map MissingRecordCopy.device
  | .error _, .error _ => True
  | _, _ => False

instance : ∀ a b, Decidable (SameResult a b)
  | .ok _, .ok _ => inferInstanceAs (Decidable (_ ∧ _))
  | .error _, .error _ => .isTrue trivial
  | .ok _, .error _ => .isFalse not_false
  | .error _, .ok _ => .isFalse not_false

theorem missingCopies_devices (first : MetadataRecord) (current copies : List LocatedRecord)
    (unread : List (DeviceId × ErrorCode × String)) :
    ((missingCopies first current copies).map (classifyMissing X C unread)).map MissingRecordCopy.device =
      (first.shards.map ShardLocation.device).filter fun d => !current.any fun c => c.device == d := by
  have hclass : ∀ m, (classifyMissing X C unread m).device = m.device := by
    intro m
    unfold classifyMissing
    by_cases hm : m.fault ≠ .missing
    · rw [if_pos hm]
    · rw [if_neg hm]
      split
      · rfl
      · by_cases hdoc : (C.document.device m.device).isNone = true
        · rw [if_pos hdoc]
        · rw [if_neg hdoc]
  rw [List.map_map, missingCopies, List.map_map, List.filter_map]
  exact List.map_congr_left fun shard _ => hclass _

theorem sameResult_iff (found : Lookup) :
    SameResult (newestReadable X C key found) (repairable X key found.records) ↔ SameTrust key found.records := by
  cases hv : versionsDescending found.records with
  | nil =>
    have hnil := versionsDescending_eq_nil.mp hv
    have hread : ∃ e, newestReadable X C key found = .error e := by
      have ht : trustedVersions X key found.records = .ok [] := by rw [hnil]; rfl
      unfold newestReadable
      rw [ht]
      dsimp only
      split
      · exact ⟨_, rfl⟩
      · split_ifs <;> exact ⟨_, rfl⟩
    obtain ⟨e, he⟩ := hread
    have hrep : repairable X key found.records = .error (notFound X key) := by rw [repairable, hv]
    rw [he, hrep]
    refine ⟨fun _ v vs hcons => ?_, fun _ => trivial⟩
    rw [hv] at hcons
    cases hcons
  | cons v vs =>
    obtain ⟨first, rest, hcur, _, _⟩ := currentCopies_cons
      (@copiesOf_ne_nil found.records v (hv ▸ List.mem_cons_self))
    obtain ⟨hread, hnoread⟩ := @newestReadable_cons X C key found v vs hv _ _ hcur
    obtain ⟨hrep, hnorep⟩ := @repairVersion_agreeing X key v _ _ _ hcur
    have heq : repairable X key found.records = repairVersion X key v (copiesOf found.records v) := by
      rw [repairable, hv]
      rfl
    have hsame : SameTrust key found.records ↔ (Agreeing key (copiesOf found.records v) →
      Vouched (copiesOf found.records v) →
        (OneBody (copiesOf found.records v) ↔ ∀ w ∈ vs, Agreeing key (copiesOf found.records w))) := by
      constructor
      · intro h
        exact h v vs hv
      · intro h v' vs' hv'
        rw [hv] at hv'
        cases hv'
        exact h
    rw [heq, hsame]
    by_cases hag : Agreeing key (copiesOf found.records v) ∧ Vouched (copiesOf found.records v)
    · by_cases hold : ∀ w ∈ vs, Agreeing key (copiesOf found.records w)
      · rw [hread hag.1 hag.2 hold]
        by_cases hbody : OneBody (copiesOf found.records v)
        · rw [hrep hag.1 hbody hag.2]
          exact ⟨fun _ _ _ => iff_of_true hbody hold, fun _ => ⟨rfl, (missingCopies_devices _ _ _ _).symm⟩⟩
        · obtain ⟨e, he⟩ := hnorep fun h => hbody h.2.1
          rw [he]
          exact ⟨fun h => absurd h not_false, fun h => absurd ((h hag.1 hag.2).mpr hold) hbody⟩
      · obtain ⟨e, he⟩ := hnoread fun h => hold h.2.2
        rw [he]
        by_cases hbody : OneBody (copiesOf found.records v)
        · rw [hrep hag.1 hbody hag.2]
          exact ⟨fun h => absurd h not_false, fun h => absurd ((h hag.1 hag.2).mp hbody) hold⟩
        · obtain ⟨e', he'⟩ := hnorep fun h => hbody h.2.1
          rw [he']
          exact ⟨fun _ _ _ => iff_of_false hbody hold, fun _ => trivial⟩
    · obtain ⟨e, he⟩ := hnoread fun h => hag ⟨h.1, h.2.1⟩
      obtain ⟨e', he'⟩ := hnorep fun h => hag ⟨h.1, h.2.2⟩
      rw [he, he']
      exact ⟨fun _ h₁ h₂ => absurd ⟨h₁, h₂⟩ hag, fun _ => trivial⟩

end Both

end Djbod
