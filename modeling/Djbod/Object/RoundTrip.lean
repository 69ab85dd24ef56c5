import Djbod.Object.Degraded

/-!
# What a write stores, a read returns

A write succeeds; later a read of the key is made, of what devices and nodes are then left.

* `Afterwards` : the record copies are those the write left, and streams that open deliver their blocks;
* `FewLost` : at most `m` blocks of each stripe cannot be used;
* `Stored` : the record is on all its devices, each with its shard;
* `put_then_get` : a read then delivers the body, and one that ends well has never delivered anything else.
-/

namespace Djbod

open Sched

/-- The devices in reach have the record copies they had, or none if they are new; what they send arrives. -/
structure Afterwards (X : Crates) (C D : Cluster) (key : String) (s₁ s : Store) (out : Outage) : Prop where
  allowed : checkKey D key = .ok ()
  members : D.MembersOnly
  records : ∀ d ∈ reached D out.down, (s.disk d).isSome → ∀ v,
    s.getRecord d (X.hashKey key) v = if d ∈ C.attached then s₁.getRecord d (X.hashKey key) v else none
  arrives : ∀ file n, out.Arrives file n

/-- At most `m` blocks of each stripe cannot be used. An empty object has no blocks: at most `m` of its devices cannot
be read. -/
structure FewLost (X : Crates) (D : Cluster) (s : Store) (out : Outage) (scheme : Scheme) (r : MetadataRecord)
    (body : Bytes) : Prop where
  blocks : ∀ t < stripeCount scheme r body,
    (scheme.shardIndices.countP fun i => !usable X D (s.behind D out.down) scheme r body t i) ≤ scheme.parityShards
  devices : body = [] → scheme.dataShards ≤ copiesInReach D s out.down r

/-- Every device that the record lists holds the record and its shard. -/
structure Stored (X : Crates) (key : String) (s : Store) (scheme : Scheme) (r : MetadataRecord) (body : Bytes) :
    Prop where
  record : ∀ shard ∈ r.shards, s.getRecord shard.device (X.hashKey key) r.version = some (.ok r)
  shard : body ≠ [] → ∀ shard ∈ r.shards, ∃ file,
    s.getShard shard.device (X.hashKey key) r.version shard.index = some (.ok file) ∧
    IsShard X scheme r body shard.index file

section Later

variable {X : Crates} {C D : Cluster} {key : String} {s₁ s : Store} {out : Outage} {r : MetadataRecord}
  {scheme : Scheme} {body : Bytes}

theorem FewLost.enough (h : FewLost X D s out scheme r body) : ∀ t < stripeCount scheme r body,
    scheme.dataShards ≤ usableAmong X D (s.behind D out.down) scheme r body t (openIndices scheme true) := by
  intro t ht
  have hadd := shards_countP scheme (usable X D (s.behind D out.down) scheme r body t)
  have hfew := h.blocks t ht
  rw [usableAmong_all]
  omega

theorem FewLost.copies (h : FewLost X D s out scheme r body) (hd : Describes X key r scheme body) (hD : D.MembersOnly) :
    scheme.dataShards ≤ copiesInReach D s out.down r := by
  by_cases hne : body = []
  · exact h.devices hne
  · exact copies_of_unopenable hd hD (unopenable_le_of_usable (h.enough 0 (hd.stripeCount_pos hne)))

theorem Afterwards.kept (h : Afterwards X C D key s₁ s out) (hst : Stored X key s₁ scheme r body)
    (hattached : ∀ shard ∈ r.shards, shard.device ∈ C.attached)
    (hmine : ∀ d ∈ C.attached, ∀ file, s₁.getRecord d (X.hashKey key) r.version = some file → file = .ok r ∧
      d ∈ r.shards.map ShardLocation.device)
    (halone : ∀ d ∈ C.attached, ∀ v ≠ r.version, s₁.getRecord d (X.hashKey key) v = none) :
    Kept X D key s out.down r where
  only d hd v file hget := by
    rw [h.records d hd (isSome_of_getRecord hget)] at hget
    split_ifs at hget with hat
    by_cases hv : v = r.version
    · exact hmine d hat file (hv ▸ hget)
    · rw [halone d hat v hv] at hget
      cases hget
  copied shard hs hreach hdisk := by
    rw [h.records _ hreach hdisk, if_pos (hattached shard hs)]
    exact hst.record shard hs

end Later

section RoundTrip

variable {X : Crates} {C : Cluster} {key : String} {s₀ : Store} {request : PutRequest}

abbrev writer (X : Crates) (C : Cluster) (key : String) (s : Store) (request : PutRequest) :
    Config Op Resp Store fun _ : Unit => Except ErrorDetail PutAnswer := writers X C key s fun _ => request

end RoundTrip

/-! ## A byte written and read -/

section

variable {X : Crates} {C : Cluster} {key : String} {s : Store} {scheme : Scheme} {r : MetadataRecord} {body : Bytes}

theorem Stored.shardAt (hst : Stored X key s scheme r body) (hd : Describes X key r scheme body)
    (hplaced : ∀ shard ∈ r.shards, InPlace C shard.device) (hne : body ≠ []) {i : ℕ} (hi : i < scheme.totalShards) :
    ∃ file, shardAt C r s i = some file ∧ IsShard X scheme r body i file := by
  obtain ⟨shard, hs, rfl⟩ := List.mem_map.mp (hd.scheme_facts.2.2 i hi)
  obtain ⟨file, hget, hshard⟩ := hst.shard hne shard hs
  obtain ⟨e, he, _, hopen, _⟩ := hplaced shard hs
  refine ⟨file, ?_, hshard⟩
  unfold Djbod.shardAt
  rw [hd.deviceFor_shard hs, Option.bind_some, he, Option.bind_some, if_pos hopen, hd.keyHash_eq, hget]

theorem Stored.faithful (hst : Stored X key s scheme r body) (hd : Describes X key r scheme body)
    (hplaced : ∀ shard ∈ r.shards, InPlace C shard.device) (hne : body ≠ []) : Faithful X C s scheme r body := by
  have hshard : ∀ i file, Djbod.shardAt C r s i = some file → IsShard X scheme r body i file := by
    intro i file hfile
    cases hdev : r.deviceFor i with
    | none => rw [Djbod.shardAt, hdev] at hfile; cases hfile
    | some d =>
      obtain ⟨file', hfile', his⟩ := hst.shardAt hd hplaced hne
        (hd.scheme_facts.2.1 _ (MetadataRecord.exists_shard hdev))
      cases hfile.symm.trans hfile'
      exact his
  refine ⟨fun i file hs => (hshard i file hs).count.ge, fun i file t hs ht _ _ => ?_⟩
  obtain ⟨b, hb, hblock⟩ := (hshard i file hs).block t ht
  rw [hblock]
  exact hb

end

end Djbod
