import Djbod.Node.Outage
import Djbod.Node.RepairTrust

/-!
# The record that is trusted, over the files

What a read and a repair make of the copies they find, as facts about the files of the attached devices.

* `copyAt` : the copy of a version that can be read on a device;
* `Heads`, `vouchersAt`, `AgreeingOn` : the copies of the newest version agree on a record, so many vouch for it, and
  the copies of another version agree, each in itself;
* `Trusted`, `newestReadable_trusted` : the record a read trusts;
* `Restorable`, `repairable_restorable` : the record a repair completes towards, what lacks it and what is stale.
-/

namespace Djbod

def copyAt (s : Store) (kh : KeyHash) (v : VersionId) (d : DeviceId) : Option MetadataRecord :=
  (s.getRecord d kh v).bind Except.toOption

variable {c : LocatedRecord}

section Copies

variable {s : Store} {kh : KeyHash} {v : VersionId} {d : DeviceId} {r : MetadataRecord} {ds : List DeviceId}
  {located : List LocatedRecord}

theorem copyAt_eq_some : copyAt s kh v d = some r ↔ s.getRecord d kh v = some (.ok r) := by
  unfold copyAt
  cases s.getRecord d kh v with
  | none => simp
  | some file =>
    cases file with
    | error e => simp [Except.toOption]
    | ok r' => simp [Except.toOption]

theorem CopiesOn.mem_copiesOf (hc : CopiesOn ds kh s located) :
    c ∈ copiesOf located v ↔ c.device ∈ ds ∧ copyAt s kh v c.device = some c.record := by
  rw [Djbod.mem_copiesOf, hc.mem, copyAt_eq_some]
  constructor
  · rintro ⟨⟨hd, hget⟩, rfl⟩
    exact ⟨hd, hget⟩
  · rintro ⟨hd, hget⟩
    have hv := (Store.getRecord_filed hget).2
    exact ⟨⟨hd, hv ▸ hget⟩, hv⟩

theorem CopiesOn.mem_versions (hc : CopiesOn ds kh s located) :
    v ∈ versionsDescending located ↔ ∃ d ∈ ds, ∃ r, copyAt s kh v d = some r := by
  rw [mem_versionsDescending]
  constructor
  · rintro ⟨c, hmem, hv⟩
    obtain ⟨hd, hget⟩ := hc.mem_copiesOf.mp (Djbod.mem_copiesOf.mpr ⟨hmem, hv⟩)
    exact ⟨_, hd, _, hget⟩
  · rintro ⟨d, hd, r, hget⟩
    exact ⟨⟨d, r⟩, Djbod.mem_copiesOf.mp (hc.mem_copiesOf.mpr ⟨hd, hget⟩)⟩

theorem CopiesOn.countP_copiesOf (hc : CopiesOn ds kh s located) (hds : ds.Nodup) (p : MetadataRecord → Bool) :
    (copiesOf located v).countP (fun c => p c.record) = ds.countP fun d => (copyAt s kh v d).any p := by
  have hperm : (copiesOf located v).Perm (ds.filterMap fun d => (copyAt s kh v d).map (LocatedRecord.mk d)) := by
    refine (List.perm_ext_iff_of_nodup ((List.Nodup.of_map _ hc.places).filter _) ?_).mpr fun c => ?_
    · refine List.Nodup.filterMap ?_ hds
      intro d d' c hd hd'
      obtain ⟨r, _, rfl⟩ := Option.map_eq_some_iff.mp (Option.mem_def.mp hd)
      obtain ⟨r', _, heq⟩ := Option.map_eq_some_iff.mp (Option.mem_def.mp hd')
      exact (congrArg LocatedRecord.device heq).symm
    · show c ∈ copiesOf located v ↔ _
      rw [hc.mem_copiesOf, List.mem_filterMap]
      constructor
      · rintro ⟨hd, hget⟩
        exact ⟨c.device, hd, by rw [hget]; rfl⟩
      · rintro ⟨d, hd, hmap⟩
        obtain ⟨r, hget, rfl⟩ := Option.map_eq_some_iff.mp hmap
        exact ⟨hd, hget⟩
  rw [hperm.countP_eq, List.countP_filterMap]
  refine List.countP_congr fun d _ => ?_
  cases copyAt s kh v d <;> rfl

end Copies

/-! ## Agreement -/

/-- The copies of a version on some devices name the key; those at the highest revision are equal and on devices they
list. -/
def AgreeingOn (ds : List DeviceId) (key : String) (s : Store) (kh : KeyHash) (v : VersionId) : Prop :=
  ∀ d ∈ ds, ∀ r, copyAt s kh v d = some r → r.key = key ∧
    ((∀ d' ∈ ds, ∀ r', copyAt s kh v d' = some r' → r'.revision ≤ r.revision) →
      d ∈ r.shards.map ShardLocation.device ∧
        ∀ d' ∈ ds, ∀ r', copyAt s kh v d' = some r' → r'.revision = r.revision → r' = r)

/-- The copies of the newest version agree on a record. -/
structure Heads (C : Cluster) (key : String) (s : Store) (kh : KeyHash) (r : MetadataRecord) : Prop where
  held : ∃ d ∈ C.attached, copyAt s kh r.version d = some r
  newest : ∀ d ∈ C.attached, ∀ v r', copyAt s kh v d = some r' → v ≤ r.version
  copy : ∀ d ∈ C.attached, ∀ r', copyAt s kh r.version d = some r' → r'.key = key ∧
    (r'.revision < r.revision ∨ r' = r ∧ d ∈ r.shards.map ShardLocation.device)

/-- How many copies vouch for the body of the record. -/
def vouchersAt (C : Cluster) (s : Store) (kh : KeyHash) (r : MetadataRecord) : ℕ :=
  C.attached.countP fun d => (copyAt s kh r.version d).any fun r' => r'.revision == r.revision || r.sameBody r'

variable {vs : List VersionId}

section Agree

variable {C : Cluster} {key : String} {s : Store} {kh : KeyHash} {r : MetadataRecord} {located : List LocatedRecord}
  {ds : List DeviceId} {v : VersionId}

variable {copies : List LocatedRecord}

theorem maxRevision_eq (hc : c ∈ copies) (hle : ∀ c' ∈ copies, c'.record.revision ≤ c.record.revision) :
    maxRevision copies = c.record.revision := by
  obtain ⟨c', hc', hmax⟩ := exists_maxRevision (List.ne_nil_of_mem hc)
  exact le_antisymm (hmax ▸ hle c' hc') (le_maxRevision hc)

theorem agreeingOn_iff (hc : CopiesOn ds kh s located) : Agreeing key (copiesOf located v) ↔
    AgreeingOn ds key s kh v := by
  have htop : ∀ {d r}, d ∈ ds → copyAt s kh v d = some r →
      ((∀ d' ∈ ds, ∀ r', copyAt s kh v d' = some r' → r'.revision ≤ r.revision) ↔
        r.revision = maxRevision (copiesOf located v)) := by
    intro d r hd hget
    constructor
    · intro hle
      exact (maxRevision_eq (c := ⟨d, r⟩) (hc.mem_copiesOf.mpr ⟨hd, hget⟩) fun c' hc' =>
        hle _ (hc.mem_copiesOf.mp hc').1 _ (hc.mem_copiesOf.mp hc').2).symm
    · intro hmax d' hd' r' hget'
      rw [hmax]
      exact le_maxRevision (c := ⟨d', r'⟩) (hc.mem_copiesOf.mpr ⟨hd', hget'⟩)
  constructor
  · intro h d hd r hget
    have hmem : (⟨d, r⟩ : LocatedRecord) ∈ copiesOf located v := hc.mem_copiesOf.mpr ⟨hd, hget⟩
    refine ⟨h.key _ hmem, fun hle => ?_⟩
    have hmax := (htop hd hget).mp hle
    exact ⟨h.listed _ hmem hmax, fun d' hd' r' hget' hrev =>
      h.current _ hmem hmax ⟨d', r'⟩ (hc.mem_copiesOf.mpr ⟨hd', hget'⟩) (hrev.trans hmax)⟩
  · intro h
    refine ⟨fun c hmem => ?_, fun c hmem hmax c' hmem' hmax' => ?_, fun c hmem hmax => ?_⟩
    · obtain ⟨hd, hget⟩ := hc.mem_copiesOf.mp hmem
      exact (h _ hd _ hget).1
    · obtain ⟨hd, hget⟩ := hc.mem_copiesOf.mp hmem
      obtain ⟨hd', hget'⟩ := hc.mem_copiesOf.mp hmem'
      exact ((h _ hd _ hget).2 ((htop hd hget).mpr hmax)).2 _ hd' _ hget' (hmax'.trans hmax.symm)
    · obtain ⟨hd, hget⟩ := hc.mem_copiesOf.mp hmem
      exact ((h _ hd _ hget).2 ((htop hd hget).mpr hmax)).1

/-- What it takes for a record to head the copies that a lookup found. -/
structure HeadOf (key : String) (located : List LocatedRecord) (r : MetadataRecord) (vs : List VersionId) : Prop where
  versions : versionsDescending located = r.version :: vs
  agreeing : Agreeing key (copiesOf located r.version)
  max : maxRevision (copiesOf located r.version) = r.revision
  current : ∀ c ∈ currentCopies (copiesOf located r.version), c.record = r

theorem Heads.headOf (h : Heads C key s kh r) (hc : CopiesOn C.attached kh s located) :
    ∃ vs, HeadOf key located r vs := by
  obtain ⟨d, hd, hget⟩ := h.held
  have hmem : (⟨d, r⟩ : LocatedRecord) ∈ copiesOf located r.version := hc.mem_copiesOf.mpr ⟨hd, hget⟩
  have hle : ∀ c ∈ copiesOf located r.version, c.record.revision ≤ r.revision := by
    intro c hcm
    obtain ⟨hcd, hcget⟩ := hc.mem_copiesOf.mp hcm
    rcases (h.copy _ hcd _ hcget).2 with hlt | ⟨heq, _⟩
    · exact hlt.le
    · rw [heq]
  have hmax : maxRevision (copiesOf located r.version) = r.revision := maxRevision_eq hmem hle
  have hcurrent : ∀ c ∈ copiesOf located r.version, c.record.revision = maxRevision (copiesOf located r.version) →
      c.record = r ∧ c.device ∈ r.shards.map ShardLocation.device := by
    intro c hcm hrev
    obtain ⟨hcd, hcget⟩ := hc.mem_copiesOf.mp hcm
    exact (h.copy _ hcd _ hcget).2.resolve_left (by rw [hrev, hmax]; exact lt_irrefl _)
  have hv : r.version ∈ versionsDescending located := hc.mem_versions.mpr ⟨d, hd, r, hget⟩
  obtain ⟨v, vs, hvs⟩ := List.exists_cons_of_ne_nil (List.ne_nil_of_mem hv)
  have hv' : v ∈ versionsDescending located := by rw [hvs]; exact List.mem_cons_self
  obtain ⟨d', hd', r', hget'⟩ := hc.mem_versions.mp hv'
  have hfirst : v = r.version := le_antisymm (h.newest d' hd' v r' hget')
    (le_of_versionsDescending hvs (mem_copiesOf.mp hmem).1)
  subst hfirst
  refine ⟨vs, hvs, ⟨fun c hcm => ?_, fun c hcm hrev c' hcm' hrev' => ?_, fun c hcm hrev => ?_⟩, hmax, fun c hcm => ?_⟩
  · obtain ⟨hcd, hcget⟩ := hc.mem_copiesOf.mp hcm
    exact (h.copy _ hcd _ hcget).1
  · rw [(hcurrent c hcm hrev).1, (hcurrent c' hcm' hrev').1]
  · rw [(hcurrent c hcm hrev).1]
    exact (hcurrent c hcm hrev).2
  · obtain ⟨hmem', hrev⟩ := mem_currentCopies.mp hcm
    exact (hcurrent c hmem' hrev).1

theorem Agreeing.heads (hc : CopiesOn C.attached kh s located) (hvs : versionsDescending located = v :: vs)
    (h : Agreeing key (copiesOf located v)) {first : LocatedRecord} {rest : List LocatedRecord}
    (hcur : currentCopies (copiesOf located v) = first :: rest) : first.record.version = v ∧
    Heads C key s kh first.record := by
  obtain ⟨hmem, hmax⟩ := mem_currentCopies.mp (hcur ▸ List.mem_cons_self : first ∈ currentCopies (copiesOf located v))
  have hver := (mem_copiesOf.mp hmem).2
  obtain ⟨hd, hget⟩ := hc.mem_copiesOf.mp hmem
  refine ⟨hver, ⟨first.device, hd, hver.symm ▸ hget⟩, ?_, ?_⟩
  · intro d hd' w r' hget'
    rw [hver]
    obtain ⟨c, hcm, rfl⟩ := mem_versionsDescending.mp (hc.mem_versions.mpr ⟨d, hd', r', hget'⟩)
    exact le_of_versionsDescending hvs hcm
  · intro d hd' r' hget'
    rw [hver] at hget'
    have hmem' : (⟨d, r'⟩ : LocatedRecord) ∈ copiesOf located v := hc.mem_copiesOf.mpr ⟨hd', hget'⟩
    refine ⟨h.key _ hmem', ?_⟩
    rcases Nat.lt_or_eq_of_le (le_maxRevision hmem') with hlt | heq
    · exact .inl (hmax ▸ hlt)
    · have hsame := h.current _ hmem hmax _ hmem' heq
      exact .inr ⟨hsame, hsame ▸ h.listed _ hmem' heq⟩

theorem vouchers_eq (hc : CopiesOn C.attached kh s located) (hcopies : copies = copiesOf located r.version)
    (hmax : maxRevision copies = r.revision) : vouchers r copies = vouchersAt C s kh r := by
  unfold vouchers vouchersAt
  rw [hmax, hcopies]
  exact hc.countP_copiesOf C.opened_nodup fun r' => r'.revision == r.revision || r.sameBody r'

theorem vouched_iff (hc : CopiesOn C.attached kh s located) (h : HeadOf key located r vs) :
    Vouched (copiesOf located r.version) ↔ r.k ≤ vouchersAt C s kh r := by
  have hcount := vouchers_eq hc rfl h.max
  constructor
  · intro hv
    obtain ⟨c, hcm, hrev⟩ := exists_maxRevision (copiesOf_ne_nil (by rw [h.versions]; exact List.mem_cons_self) :
      copiesOf located r.version ≠ [])
    have hle := hv c hcm hrev
    rw [h.current c (mem_currentCopies.mpr ⟨hcm, hrev⟩), hcount] at hle
    exact hle
  · intro hle c hcm hrev
    rw [h.current c (mem_currentCopies.mpr ⟨hcm, hrev⟩), hcount]
    exact hle

end Agree

/-! ## Reads -/

/-- A read trusts the record: it heads the copies, enough of them vouch for it, and no other version is in
disagreement. -/
structure Trusted (C : Cluster) (key : String) (s : Store) (kh : KeyHash) (r : MetadataRecord) : Prop extends
    Heads C key s kh r where
  vouched : r.k ≤ vouchersAt C s kh r
  others : ∀ w, w ≠ r.version → AgreeingOn C.attached key s kh w

section Both

variable {X : Crates} {C : Cluster} {key : String} {s : Store} {kh : KeyHash} {r : MetadataRecord}

theorem newestReadable_none (X : Crates) (C : Cluster) (key : String) (found : Lookup) (h : found.records = []) :
    ∃ e, newestReadable X C key found = .error e := by
  have ht : trustedVersions X key found.records = .ok [] := by rw [h]; rfl
  simp only [newestReadable, ht]
  split
  · exact ⟨_, rfl⟩
  · split_ifs
    · exact ⟨_, rfl⟩
    · exact ⟨_, rfl⟩

variable {located : List LocatedRecord}

theorem HeadOf.first (h : HeadOf key located r vs) :
    ∃ first rest, currentCopies (copiesOf located r.version) = first :: rest ∧ first.record = r := by
  obtain ⟨first, rest, hcur, _⟩ := currentCopies_cons (copiesOf_ne_nil (by rw [h.versions]; exact List.mem_cons_self) :
    copiesOf located r.version ≠ [])
  exact ⟨first, rest, hcur, h.current first (hcur ▸ List.mem_cons_self)⟩

theorem HeadOf.others (h : HeadOf key located r vs) (hc : CopiesOn C.attached kh s located) :
    (∀ w ∈ vs, Agreeing key (copiesOf located w)) ↔ ∀ w, w ≠ r.version → AgreeingOn C.attached key s kh w := by
  constructor
  · intro hall w hw
    by_cases hmem : w ∈ versionsDescending located
    · rw [h.versions] at hmem
      exact (agreeingOn_iff hc).mp (hall w ((List.mem_cons.mp hmem).resolve_left hw))
    · intro d hd r' hget
      exact absurd (hc.mem_versions.mpr ⟨d, hd, r', hget⟩) hmem
  · intro hall w hw
    refine (agreeingOn_iff hc).mpr (hall w ?_)
    have hsorted := versionsDescending_sorted located
    rw [h.versions, List.pairwise_cons] at hsorted
    exact (hsorted.1 w hw).ne

/-- **What a read trusts.** -/
theorem newestReadable_trusted {found : Lookup} (hc : CopiesOn C.attached kh s found.records) :
    (∃ missing, newestReadable X C key found = .ok (r, missing)) ↔ Trusted C key s kh r := by
  constructor
  · rintro ⟨missing, hok⟩
    cases hv : versionsDescending found.records with
    | nil =>
      obtain ⟨e, he⟩ := newestReadable_none X C key found (versionsDescending_eq_nil.mp hv)
      rw [he] at hok
      cases hok
    | cons v vs =>
      obtain ⟨first, rest, hcur, _, _⟩ := currentCopies_cons
        (copiesOf_ne_nil (by rw [hv]; exact List.mem_cons_self) : copiesOf found.records v ≠ [])
      obtain ⟨hread, hnoread⟩ := @newestReadable_cons X C key found v vs hv _ _ hcur
      by_cases hall : Agreeing key (copiesOf found.records v) ∧ Vouched (copiesOf found.records v) ∧
          ∀ w ∈ vs, Agreeing key (copiesOf found.records w)
      · obtain ⟨hag, hvouch, hothers⟩ := hall
        rw [hread hag hvouch hothers] at hok
        obtain rfl : first.record = r := congrArg Prod.fst (Except.ok.inj hok)
        obtain ⟨hver, hheads⟩ := hag.heads hc hv hcur
        obtain ⟨vs', hhead⟩ := hheads.headOf hc
        obtain rfl : vs = vs' := by
          have := hv.symm.trans hhead.versions
          exact (List.cons.inj this).2
        subst hver
        exact ⟨hheads, (vouched_iff hc hhead).mp hvouch, (hhead.others hc).mp hothers⟩
      · obtain ⟨e, he⟩ := hnoread hall
        rw [he] at hok
        cases hok
  · intro h
    obtain ⟨vs, hhead⟩ := h.toHeads.headOf hc
    obtain ⟨first, rest, hcur, rfl⟩ := hhead.first
    exact ⟨_, (@newestReadable_cons X C key found _ vs hhead.versions _ _ hcur).1 hhead.agreeing
      ((vouched_iff hc hhead).mpr h.vouched) ((hhead.others hc).mpr h.others)⟩

/-! ## Repairs -/

/-- A repair completes towards the record: it heads the copies, enough of them vouch for it, and the others have its
body. -/
structure Restorable (C : Cluster) (key : String) (s : Store) (kh : KeyHash) (r : MetadataRecord) : Prop extends
    Heads C key s kh r where
  vouched : r.k ≤ vouchersAt C s kh r
  body : ∀ d ∈ C.attached, ∀ r', copyAt s kh r.version d = some r' → r'.revision < r.revision → r'.sameBody r = true

/-- A device in reach with a copy at a lower revision that the record does not list. -/
def StaleOn (C : Cluster) (s : Store) (kh : KeyHash) (r : MetadataRecord) (d : DeviceId) : Prop :=
  d ∈ C.attached ∧ (∃ r', copyAt s kh r.version d = some r' ∧ r'.revision < r.revision) ∧
    d ∉ r.shards.map ShardLocation.device

structure RepairFound (C : Cluster) (s : Store) (kh : KeyHash) (found : Repairable) : Prop where
  sub : found.missing.Sublist (found.record.shards.map ShardLocation.device)
  missing : ∀ d, d ∈ found.missing ↔ d ∈ found.record.shards.map ShardLocation.device ∧
    ¬ (d ∈ C.attached ∧ copyAt s kh found.record.version d = some found.record)
  stale : ∀ d, d ∈ found.stale.map Prod.fst ↔ StaleOn C s kh found.record d

theorem oneBody_iff (h : HeadOf key located r vs) (hc : CopiesOn C.attached kh s located) :
    OneBody (copiesOf located r.version) ↔
      ∀ d ∈ C.attached, ∀ r', copyAt s kh r.version d = some r' → r'.revision < r.revision → r'.sameBody r = true := by
  obtain ⟨first, rest, hcur, hfirst⟩ := h.first
  obtain ⟨hmem, hmax⟩ := mem_currentCopies.mp
    (hcur ▸ List.mem_cons_self : first ∈ currentCopies (copiesOf located r.version))
  constructor
  · intro hone d hd r' hget hlt
    have := hone first hmem hmax ⟨d, r'⟩ (hc.mem_copiesOf.mpr ⟨hd, hget⟩) (by rw [h.max]; exact hlt)
    rwa [hfirst] at this
  · intro hall c hcm hrev c' hcm' hlt
    rw [h.current c (mem_currentCopies.mpr ⟨hcm, hrev⟩)]
    rw [h.max] at hlt
    obtain ⟨hd, hget⟩ := hc.mem_copiesOf.mp hcm'
    exact hall _ hd _ hget hlt

theorem shardOn_isNone {r : MetadataRecord} {d : DeviceId} :
    (r.shardOn d).isNone = true ↔ d ∉ r.shards.map ShardLocation.device := by
  rw [← MetadataRecord.shardOn_isSome]
  simp

theorem HeadOf.found (h : HeadOf key located r vs) (hc : CopiesOn C.attached kh s located) : RepairFound C s kh
      ⟨r, (r.shards.map ShardLocation.device).filter fun d => !(currentCopies (copiesOf located r.version)).any fun c =>
      c.device == d,
        staleCopies r (copiesOf located r.version)⟩ := by
  refine ⟨List.filter_sublist, fun d => ?_, fun d => ?_⟩
  · rw [List.mem_filter, Bool.not_eq_true', List.any_eq_false]
    refine and_congr_right fun _ => ?_
    constructor
    · rintro hno ⟨hd, hget⟩
      refine hno ⟨d, r⟩ (mem_currentCopies.mpr ⟨hc.mem_copiesOf.mpr ⟨hd, hget⟩, h.max.symm⟩) ?_
      exact beq_self_eq_true d
    · intro hno c hcm hdev
      obtain rfl : c.device = d := by simpa using hdev
      obtain ⟨hd, hget⟩ := hc.mem_copiesOf.mp (mem_currentCopies.mp hcm).1
      rw [h.current c hcm] at hget
      exact hno ⟨hd, hget⟩
  · simp only [staleCopies, List.map_map, List.mem_map, List.mem_filter, Bool.and_eq_true, beq_iff_eq,
      decide_eq_true_eq, shardOn_isNone, StaleOn, Function.comp_apply]
    constructor
    · rintro ⟨c, ⟨hcm, ⟨_, hlt⟩, hout⟩, rfl⟩
      obtain ⟨hd, hget⟩ := hc.mem_copiesOf.mp hcm
      exact ⟨hd, ⟨_, hget, hlt⟩, by simpa using hout⟩
    · rintro ⟨hd, ⟨r', hget, hlt⟩, hout⟩
      refine ⟨⟨d, r'⟩, ⟨hc.mem_copiesOf.mpr ⟨hd, hget⟩, ⟨?_, hlt⟩, by simpa using hout⟩, rfl⟩
      exact (Store.getRecord_filed (copyAt_eq_some.mp hget)).2

/-- **What a repair completes towards.** -/
theorem repairable_restorable (hc : CopiesOn C.attached kh s located) :
    (∀ found, repairable X key located = .ok found → Restorable C key s kh found.record ∧ RepairFound C s kh found) ∧
      (Restorable C key s kh r → ∃ found, repairable X key located = .ok found ∧ found.record = r) := by
  constructor
  · intro found hok
    cases hv : versionsDescending located with
    | nil => rw [repairable, hv] at hok; cases hok
    | cons v vs =>
      obtain ⟨first, rest, hcur, _, _⟩ := currentCopies_cons
        (copiesOf_ne_nil (by rw [hv]; exact List.mem_cons_self) : copiesOf located v ≠ [])
      obtain ⟨hrep, hnorep⟩ := @repairVersion_agreeing X key v _ _ _ hcur
      have heq : repairable X key located = repairVersion X key v (copiesOf located v) := by
        rw [repairable, hv]
        rfl
      rw [heq] at hok
      by_cases hall : Agreeing key (copiesOf located v) ∧ OneBody (copiesOf located v) ∧ Vouched (copiesOf located v)
      · obtain ⟨hag, hone, hvouch⟩ := hall
        rw [hrep hag hone hvouch] at hok
        obtain rfl := Except.ok.inj hok
        obtain ⟨hver, hheads⟩ := hag.heads hc hv hcur
        obtain ⟨vs', hhead⟩ := hheads.headOf hc
        subst hver
        exact ⟨⟨hheads, (vouched_iff hc hhead).mp hvouch, (oneBody_iff hhead hc).mp hone⟩, hhead.found hc⟩
      · obtain ⟨e, he⟩ := hnorep hall
        rw [he] at hok
        cases hok
  · intro h
    obtain ⟨vs, hhead⟩ := h.toHeads.headOf hc
    obtain ⟨first, rest, hcur, rfl⟩ := hhead.first
    have heq : repairable X key located =
        repairVersion X key first.record.version (copiesOf located first.record.version) := by
      rw [repairable, hhead.versions]
      rfl
    refine ⟨_, heq.trans ((@repairVersion_agreeing X key _ _ _ _ hcur).1 hhead.agreeing
      ((oneBody_iff hhead hc).mpr h.body) ((vouched_iff hc hhead).mpr h.vouched)), rfl⟩

end Both

end Djbod
