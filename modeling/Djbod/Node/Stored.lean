import Djbod.Node.ReadStream

/-!
# Stored objects

What the devices hold of a key, in terms of whole objects.

* `InPlace`, `Cluster.Whole` : a device in service is opened where the document says;
* `StoredObject` : a record, the body it describes, and devices in place to hold both;
* `Known`, `Sound` : every record copy is of a known object; has its shard beside it;
* `newestReadableVersion_eval` : what a read trusts is the newest version with any copy, if `k` copies are there;
* `getObject_eval` : a read of that version, in terms of the shards that can be opened and the blocks that can be used;
* `Sound.serves` : a read of sound copies.
-/

namespace Djbod

open Sched Pieces

/-- A device in service, opened by the active node the document gives it. -/
def InPlace (C : Cluster) (d : DeviceId) : Prop :=
  ∃ e, C.document.device d = some e ∧ e.state ≠ .removed ∧ d ∈ C.opened e.node ∧
    ∃ n ∈ C.document.activeNodes, n.id = e.node

/-- Every device in service is opened by its node, which is active. -/
def Cluster.Whole (C : Cluster) : Prop :=
  ∀ e ∈ C.document.devices, e.state ≠ .removed → e.id ∈ C.opened e.node ∧ ∃ n ∈ C.document.activeNodes, n.id = e.node

variable {C : Cluster} {d : DeviceId}

theorem Cluster.Whole.inPlace (hC : C.Whole) {e : DeviceEntry} (he : C.document.device d = some e)
    (hs : e.state ≠ .removed) : InPlace C d := by
  have hid : e.id = d := by simpa using List.find?_some he
  obtain ⟨hopen, hn⟩ := hC e (List.mem_of_find?_eq_some he) hs
  exact ⟨e, he, hs, hid ▸ hopen, hn⟩

theorem InPlace.attached (h : InPlace C d) : d ∈ C.attached := by
  obtain ⟨e, _, _, hopen, n, hn, hid⟩ := h
  exact List.mem_flatMap.mpr ⟨n, hn, hid ▸ hopen⟩

theorem InPlace.inService (h : InPlace C d) : (ownerInService C d).isSome := by
  obtain ⟨e, he, hs, _⟩ := h
  simp [ownerInService, he, hs]

/-- A valid record of the key that describes the body. -/
structure Describes (X : Crates) (key : String) (r : MetadataRecord) (scheme : Scheme) (body : Bytes) : Prop where
  valid : r.Valid X.hashKey
  key_eq : r.key = key
  scheme_eq : r.scheme = .ok scheme
  size_eq : r.size = body.length
  checksum_eq : r.objectChecksum = X.xxh3 body

variable {i : ℕ} {shard : ShardLocation}

namespace Describes

variable {X : Crates} {key : String} {r : MetadataRecord} {scheme : Scheme} {body : Bytes}

variable (h : Describes X key r scheme body)

include h

theorem keyHash_eq : r.keyHash = X.hashKey key :=
  h.valid.keyHash.trans (congrArg X.hashKey h.key_eq)

theorem scheme_facts : r.shards.length = scheme.totalShards ∧ (∀ shard ∈ r.shards, shard.index < scheme.totalShards) ∧
    ∀ index < scheme.totalShards, index ∈ r.shards.map ShardLocation.index := by
  obtain ⟨scheme', hs, hfacts⟩ := h.valid.scheme
  cases h.scheme_eq.symm.trans hs
  exact hfacts

theorem k_eq : r.k = scheme.dataShards ∧ r.m = scheme.parityShards := by
  have hs := h.scheme_eq
  unfold MetadataRecord.scheme at hs
  obtain ⟨h₁, h₂⟩ := Scheme.new_eq_ok hs
  exact ⟨h₁.symm, h₂.symm⟩

theorem deviceFor_isSome (hi : i < scheme.totalShards) : (r.deviceFor i).isSome := by
  obtain ⟨shard, hs, rfl⟩ := List.mem_map.mp (h.scheme_facts.2.2 i hi)
  rw [MetadataRecord.deviceFor, Option.isSome_map, List.find?_isSome]
  exact ⟨shard, hs, by simp⟩

theorem deviceFor_shard (hs : shard ∈ r.shards) : r.deviceFor shard.index = some shard.device := by
  rw [MetadataRecord.deviceFor, Option.map_eq_some_iff]
  refine ⟨shard, ?_, rfl⟩
  cases hf : r.shards.find? fun sh => sh.index == shard.index with
  | none => simpa using List.find?_eq_none.mp hf shard hs
  | some found =>
    have hidx : found.index = shard.index := by simpa using List.find?_some hf
    rw [List.inj_on_of_nodup_map h.valid.indices (List.mem_of_find?_eq_some hf) hs hidx]

theorem countP_indices (p : ℕ → Bool) : scheme.shardIndices.countP p = r.shards.countP fun sh => p sh.index := by
  have hperm : scheme.shardIndices.Perm (r.shards.map ShardLocation.index) := by
    refine (List.perm_ext_iff_of_nodup List.nodup_range h.valid.indices).mpr fun i => ?_
    refine List.mem_range.trans ⟨h.scheme_facts.2.2 i, fun hi => ?_⟩
    obtain ⟨shard, hs, rfl⟩ := List.mem_map.mp hi
    exact h.scheme_facts.2.1 shard hs
  rw [hperm.countP_eq, List.countP_map]
  rfl

theorem geometry_eq : ∃ g, shardGeometry scheme r.blockSize (max r.size 1) = some g ∧
      (r.size ≠ 0 → g.blockCount = stripeCount scheme r body) := by
  have hB := h.valid.blockSize.1
  unfold shardGeometry
  rw [if_neg (by omega)]
  refine ⟨_, rfl, fun hsize => ?_⟩
  dsimp only
  rw [Nat.max_eq_left (Nat.pos_of_ne_zero hsize), stripeCount, ← h.size_eq]

theorem stripeCount_nil (hnil : body = []) : stripeCount scheme r body = 0 := by
  rw [stripeCount, hnil]
  exact Nat.le_zero.mp (divCeil_le (Nat.mul_pos scheme.data_pos h.valid.blockSize.1) (Nat.zero_le _))

end Describes

variable {r : MetadataRecord}

theorem MetadataRecord.exists_shard (h : r.deviceFor i = some d) : ⟨i, d⟩ ∈ r.shards := by
  obtain ⟨shard, hf, rfl⟩ := Option.map_eq_some_iff.mp h
  have hidx : shard.index = i := by simpa using List.find?_some hf
  rw [← hidx]
  exact List.mem_of_find?_eq_some hf

/-- One version of a key: its record, the body the record describes, and devices in place to hold them. -/
structure StoredObject (X : Crates) (C : Cluster) (key : String) where
  record : MetadataRecord
  scheme : Scheme
  body : Bytes
  valid : record.Valid X.hashKey
  key_eq : record.key = key
  scheme_eq : record.scheme = .ok scheme
  size_eq : record.size = body.length
  checksum_eq : record.objectChecksum = X.xxh3 body
  placed : ∀ d ∈ record.shards.map ShardLocation.device, InPlace C d

/-- The file is shard `i` of the body: all its blocks, each with its checksum. -/
structure IsShard (X : Crates) (scheme : Scheme) (r : MetadataRecord) (body : Bytes) (i : ℕ) (file : ShardFile) :
    Prop where
  count : file.footer.blockCount = stripeCount scheme r body
  block : ∀ t < stripeCount scheme r body, ∃ b,
    (stripeBlocks (.new X.reedSolomon scheme) (stripeOf scheme r body t))[i]? = some b ∧
    blockAt i file t = ⟨i, b, X.xxh3 b⟩

variable {body : Bytes} {file : ShardFile} {scheme : Scheme} {t : ℕ}

theorem IsShard.usable {X : Crates} {s : Store} (h : IsShard X scheme r body i file)
    (hlib : ReedSolomonCode.Lawful X.reedSolomon scheme) (hfile : shardAt C r s i = some file)
    (ht : t < stripeCount scheme r body) : usable X C s scheme r body t i = true := by
  obtain ⟨b, hb, hblock⟩ := h.block t ht
  have hlen := length_of_mem_stripeBlocks hlib (List.mem_of_getElem? hb)
  simp [Djbod.usable, hfile, hblock, hlen]

namespace StoredObject

variable {X : Crates} {C : Cluster} {key : String} (o : StoredObject X C key)

theorem describes : Describes X key o.record o.scheme o.body :=
    ⟨o.valid, o.key_eq, o.scheme_eq, o.size_eq, o.checksum_eq⟩

theorem keyHash_eq : o.record.keyHash = X.hashKey key := o.describes.keyHash_eq

def devices : List DeviceId := o.record.shards.map ShardLocation.device

theorem mem_devices (h : shard ∈ o.record.shards) : shard.device ∈ o.devices :=
  List.mem_map_of_mem h

def Copied (s : Store) (d : DeviceId) : Prop :=
  s.getRecord d (X.hashKey key) o.record.version = some (.ok o.record)

instance (s : Store) (d : DeviceId) : Decidable (o.Copied s d) := inferInstanceAs (Decidable (_ = _))

def ShardIn (s : Store) (shard : ShardLocation) : Prop :=
  o.body ≠ [] → ∃ file, s.getShard shard.device (X.hashKey key) o.record.version shard.index = some (.ok file) ∧
    IsShard X o.scheme o.record o.body shard.index file

def copies (s : Store) : ℕ := o.devices.countP fun d => o.Copied s d

theorem exists_device : ∃ d, d ∈ o.devices := by
  have hpos : 0 < o.devices.length := by
    rw [devices, List.length_map, o.describes.scheme_facts.1]
    exact Nat.add_pos_left o.scheme.data_pos _
  exact List.exists_mem_of_length_pos hpos

end StoredObject

/-! ## What the devices hold of a key -/

/-- No file of the version is on an attached device. -/
def Fresh (C : Cluster) (kh : KeyHash) (s : Store) (v : VersionId) : Prop :=
  ∀ d ∈ C.attached, s.getRecord d kh v = none ∧ ∀ i, s.getShard d kh v i = none

section Key

variable {X : Crates} {C : Cluster} {key : String}

/-- Every record copy of the key is the record of the known object of its version, on a device it lists. -/
structure Known (objs : VersionId → Option (StoredObject X C key)) (s : Store) : Prop where
  version : ∀ v o, objs v = some o → o.record.version = v
  found : ∀ d ∈ C.attached, ∀ v file, s.getRecord d (X.hashKey key) v = some file →
    ∃ o, objs v = some o ∧ file = .ok o.record ∧ d ∈ o.devices

/-- Beside every record copy is its shard, and what is in a shard's place is the shard. -/
structure Sound (objs : VersionId → Option (StoredObject X C key)) (s : Store) : Prop extends Known objs s where
  shard : ∀ v o, objs v = some o → ∀ shard ∈ o.record.shards, o.Copied s shard.device → o.ShardIn s shard
  genuine : ∀ v o, objs v = some o → ∀ shard ∈ o.record.shards, ∀ content,
    s.getShard shard.device (X.hashKey key) v shard.index = some content →
      o.body ≠ [] → ∃ file, content = .ok file ∧ IsShard X o.scheme o.record o.body shard.index file

variable {objs : VersionId → Option (StoredObject X C key)} {s : Store} {located : List LocatedRecord}

def recordOf (objs : VersionId → Option (StoredObject X C key)) (v : VersionId) : MetadataRecord :=
  ((objs v).map StoredObject.record).getD default

theorem Known.readable (h : Known objs s) : Readable C (X.hashKey key) s := by
  intro d hd v e hr
  obtain ⟨o, _, hfile, _⟩ := h.found d hd v _ hr
  cases hfile

theorem Known.copy (h : Known objs s) (hc : Copies C (X.hashKey key) s located) {c : LocatedRecord}
    (hmem : c ∈ located) : ∃ o, objs c.record.version = some o ∧ c.record = o.record ∧ c.device ∈ o.devices := by
  obtain ⟨hd, hr⟩ := (hc.mem c).mp hmem
  obtain ⟨o, ho, hfile, hdev⟩ := h.found c.device hd _ _ hr
  exact ⟨o, ho, Except.ok.inj hfile, hdev⟩

theorem Known.copies_genuine (h : Known objs s) (hc : Copies C (X.hashKey key) s located) :
    Genuine key (recordOf objs) located where
  record c hmem := by
    obtain ⟨o, ho, hrec, _⟩ := h.copy hc hmem
    rw [recordOf, ho]
    exact hrec
  key c hmem := by
    obtain ⟨o, _, hrec, _⟩ := h.copy hc hmem
    rw [hrec]
    exact o.key_eq
  listed c hmem := by
    obtain ⟨o, _, hrec, hdev⟩ := h.copy hc hmem
    rw [hrec]
    exact hdev

variable {o : StoredObject X C key}

theorem Copies.mem_copied (hc : Copies C (X.hashKey key) s located) (hd : d ∈ o.devices) : ⟨d, o.record⟩ ∈ located ↔
    o.Copied s d := by
  rw [hc.mem]
  exact and_iff_right (o.placed d hd).attached

variable {v : VersionId}

theorem Known.copiesOf_length (h : Known objs s) (hc : Copies C (X.hashKey key) s located) (ho : objs v = some o) :
    (copiesOf located v).length = o.copies s := by
  have hrec : ∀ c ∈ copiesOf located v, c.record = o.record ∧ c.device ∈ o.devices := by
    intro c hmem
    obtain ⟨hmem, hv⟩ := mem_copiesOf.mp hmem
    obtain ⟨o', ho', hrec, hdev⟩ := h.copy hc hmem
    rw [hv, ho] at ho'
    cases ho'
    exact ⟨hrec, hdev⟩
  have hnodup : ((copiesOf located v).map LocatedRecord.device).Nodup := by
    refine List.Nodup.map_on ?_ (List.Nodup.filter _ (List.Nodup.of_map _ hc.places))
    rintro ⟨d, r⟩ ha ⟨d', r'⟩ hb hab
    obtain rfl : d = d' := hab
    obtain rfl : r = r' := (hrec _ ha).1.trans (hrec _ hb).1.symm
    rfl
  have hperm : ((copiesOf located v).map LocatedRecord.device).Perm (o.devices.filter fun d => o.Copied s d) := by
    refine (List.perm_ext_iff_of_nodup hnodup (o.valid.devices.filter _)).mpr fun d => ?_
    rw [List.mem_map, List.mem_filter, decide_eq_true_eq]
    constructor
    · rintro ⟨c, hmem, rfl⟩
      obtain ⟨hr, hdev⟩ := hrec c hmem
      refine ⟨hdev, (hc.mem_copied hdev).mp ?_⟩
      rw [← hr]
      exact (mem_copiesOf.mp hmem).1
    · rintro ⟨hdev, hcopy⟩
      exact ⟨⟨d, o.record⟩, mem_copiesOf.mpr ⟨(hc.mem_copied hdev).mpr hcopy, h.version v o ho⟩, rfl⟩
  rw [← List.length_map LocatedRecord.device, hperm.length_eq, StoredObject.copies, List.countP_eq_length_filter]

/-- The object is the newest of which any copy is there. -/
def Newest (objs : VersionId → Option (StoredObject X C key)) (s : Store) (v : VersionId) (o : StoredObject X C key) :
    Prop :=
  objs v = some o ∧ 0 < o.copies s ∧ ∀ v' o', objs v' = some o' → 0 < o'.copies s → v' ≤ v

theorem Known.mem_versions (h : Known objs s) (hc : Copies C (X.hashKey key) s located) :
    v ∈ versionsDescending located ↔ ∃ o, objs v = some o ∧ 0 < o.copies s := by
  rw [mem_versionsDescending]
  constructor
  · rintro ⟨c, hmem, rfl⟩
    obtain ⟨o, ho, _, _⟩ := h.copy hc hmem
    refine ⟨o, ho, ?_⟩
    rw [← h.copiesOf_length hc ho]
    exact List.length_pos_of_mem (mem_copiesOf.mpr ⟨hmem, rfl⟩)
  · rintro ⟨o, ho, hpos⟩
    rw [← h.copiesOf_length hc ho] at hpos
    obtain ⟨c, hmem⟩ := List.exists_mem_of_length_pos hpos
    exact ⟨c, mem_copiesOf.mp hmem⟩

theorem Known.versions_newest (h : Known objs s) (hc : Copies C (X.hashKey key) s located) (hn : Newest objs s v o) :
    ∃ rest, versionsDescending located = v :: rest := by
  obtain ⟨ho, hpos, hmax⟩ := hn
  have hv := (h.mem_versions hc).mpr ⟨o, ho, hpos⟩
  cases hvs : versionsDescending located with
  | nil => rw [hvs] at hv; cases hv
  | cons w rest =>
    have hw : w ∈ versionsDescending located := hvs ▸ List.mem_cons_self
    obtain ⟨o', ho', hpos'⟩ := (h.mem_versions hc).mp hw
    obtain ⟨c, hmem, hcv⟩ := mem_versionsDescending.mp hv
    have hle : v ≤ w := hcv ▸ le_of_versionsDescending hvs hmem
    exact ⟨rest, by rw [le_antisymm (hmax w o' ho' hpos') hle]⟩

/-! ## What a read trusts -/

variable {fuel : ℕ}

theorem lookupReachable_eval {kh : KeyHash} (hup : Up C s) (hread : Readable C kh s) (hfuel : copyCount C kh s < fuel) :
    ∃ located, Copies C kh s located ∧
      (lookupReachable X C fuel kh).run.eval exec s = (.ok ⟨located, unreadDevices X C, []⟩, s) := by
  obtain ⟨hs, located, hc, hres⟩ := Prog.Wp.eval (p := (lookupReachable X C fuel kh).run) (I := fun _ => True)
    (Q := fun res s' => s' = s ∧ ∃ located, Copies C kh s located ∧ res = .ok ⟨located, unreadDevices X C, []⟩)
    (lookupReachable_wp hup trivial (fun located hc => ⟨rfl, located, hc, rfl⟩)
      fun e hfew => absurd (hfew hread) (Nat.not_le.mpr hfuel))
  exact ⟨located, hc, Prod.ext hres hs⟩

theorem newestReadableVersion_eval (hup : Up C s) (hread : Readable C (X.hashKey key) s)
    (hkey : checkKey C key = .ok ()) (hfuel : copyCount C (X.hashKey key) s < fuel) :
    ∃ located, Copies C (X.hashKey key) s located ∧ (newestReadableVersion X C fuel key).run.eval exec s =
      (newestReadable X C key ⟨located, unreadDevices X C, []⟩, s) := by
  obtain ⟨located, hc, hlook⟩ := lookupReachable_eval (X := X) hup hread hfuel
  refine ⟨located, hc, ?_⟩
  unfold newestReadableVersion
  rw [hkey]
  dsimp only
  rw [Prog.eval_try_ok hlook]
  cases newestReadable X C key ⟨located, unreadDevices X C, []⟩ <;> rfl

section Newest

variable {v : VersionId} {o : StoredObject X C key} {fuel : ℕ}

/-- The newest version is trusted when at least `k` of its copies are there. -/
theorem Known.trusted (h : Known objs s) (hup : Up C s) (hkey : checkKey C key = .ok ()) (hn : Newest objs s v o)
    (hk : o.scheme.dataShards ≤ o.copies s) (hfuel : copyCount C (X.hashKey key) s < fuel) :
    ∃ missing, (newestReadableVersion X C fuel key).run.eval exec s = (.ok (o.record, missing), s) := by
  obtain ⟨located, hc, heval⟩ := newestReadableVersion_eval hup h.readable hkey hfuel
  obtain ⟨rest, hrest⟩ := h.versions_newest hc hn
  have hrec : recordOf objs v = o.record := by rw [recordOf, hn.1]; rfl
  have hlen := h.copiesOf_length hc hn.1
  obtain ⟨missing, hok⟩ := newestReadable_genuine (X := X) (C := C) ⟨located, unreadDevices X C, []⟩
    (h.copies_genuine hc) hrest (by rw [hrec, o.describes.k_eq.1, hlen]; exact hk)
  exact ⟨missing, by rw [heval, hok, hrec]⟩

end Newest

/-! ## Reading the object -/

namespace StoredObject

variable (o : StoredObject X C key)

theorem shardAt_eq (hs : shard ∈ o.record.shards) : shardAt C o.record s shard.index =
    match s.getShard shard.device (X.hashKey key) o.record.version shard.index with
    | some (.ok file) => some file
    | _ => none := by
  obtain ⟨e, he, _, hopen, _⟩ := o.placed _ (o.mem_devices hs)
  unfold shardAt
  rewrite [o.describes.deviceFor_shard hs, Option.bind_some, he, Option.bind_some, if_pos hopen, o.keyHash_eq]
  rfl

end StoredObject

section Answer

variable {σ : Type} {ex : (o : Op) → σ → Resp o × σ} {w w' : σ}

theorem streamObject_record (scheme : Scheme) (r : MetadataRecord) (key : String) (missing : List MissingRecordCopy)
    (blockCount : ℕ) (opened : Download) (w : σ) :
    ((streamObject X C scheme r key missing blockCount opened).eval ex w).1.record = r := by
  unfold streamObject
  dsimp only
  rw [Task.eval_bind]
  split
  · rfl
  · rw [Task.eval_bind]
    rfl

theorem getObject_record {answer : GetAnswer} (h : (getObject X C fuel key).run.eval ex w = (.ok answer, w')) :
    ∃ missing w₁, (newestReadableVersion X C fuel key).run.eval ex w = (.ok (answer.record, missing), w₁) := by
  obtain ⟨⟨r, missing⟩, w₁, hnew, h⟩ := Prog.eval_try_inv h
  obtain ⟨scheme, w₂, _, h⟩ := Prog.eval_try_inv h
  obtain ⟨g, w₃, _, h⟩ := Prog.eval_try_inv h
  obtain ⟨opened, w₄, _, h⟩ := Prog.eval_try_inv h
  rw [Prog.eval_lift, Prog.eval_call] at h
  have hrec : answer.record = r := by
    rw [← Except.ok.inj (congrArg Prod.fst h)]
    exact streamObject_record ..
  exact ⟨missing, w₁, by rw [hrec]; exact hnew⟩

end Answer

variable {missing : List MissingRecordCopy}

/-- **A read of a trusted version** answers with its record, unless more than `m` shards cannot be opened or one it
opens is short. -/
theorem getObject_shows {σ : Type} {ex : (o : Op) → σ → Resp o × σ} {w : σ} {arrives : ShardFile → ℕ → Prop}
    (hd : Describes X key r scheme body) (hlib : ReedSolomonCode.Lawful X.reedSolomon scheme)
    (hw : Shows ex w X C s r arrives) (hnew : (newestReadableVersion X C fuel key).run.eval ex w = (.ok (r, missing),
    w)) (hf : Detected X C s scheme r body) : (∃ answer, (getObject X C fuel key).run.eval ex w = (.ok answer, w) ∧
      AnswersIn X C s scheme r body arrives missing answer ∧
      (∀ done, answer.ended = .ok done → Reports X C s scheme r body done.reconstructed) ∧
      (body ≠ [] → unopenable C s scheme r ≤ scheme.parityShards)) ∨
    ∃ e, (getObject X C fuel key).run.eval ex w = (.error e, w) ∧ body ≠ [] ∧
      (scheme.parityShards < unopenable C s scheme r ∨
        ¬ Long C r s (stripeCount scheme r body) (openIndices scheme (parityBefore X C s scheme r body 0))) := by
  have hB := hd.valid.blockSize.1
  obtain ⟨g, hg, hcount⟩ := hd.geometry_eq
  have hscheme : (require (r.scheme.mapError fun e => ErrorDetail.new .recordsInconsistent e.message)).run.eval
      ex w = (.ok scheme, w) := by rw [hd.scheme_eq]; rfl
  have hgeo : (require (.ok g)).run.eval ex w = (.ok g, w) := rfl
  unfold getObject
  rw [Prog.eval_try_ok hnew]
  dsimp only
  rw [Prog.eval_try_ok hscheme, hg]
  dsimp only
  rw [Prog.eval_try_ok hgeo]
  by_cases hsize : r.size = 0
  · have hbody : body = [] := List.length_eq_zero_iff.mp (hd.size_eq ▸ hsize)
    have hopen : (callNode (openForRead X C scheme r key g.blockCount)).run.eval ex w =
        (.ok ⟨[], [], false, [], [], 0, []⟩, w) := by
      unfold openForRead
      rw [if_pos hsize]
      rfl
    obtain ⟨answer, hans, hok, hreport⟩ := @streamObject_empty X C s r _ ex w arrives scheme hsize
      (by rw [hd.checksum_eq, hbody]) key missing g.blockCount hB
    rw [Prog.eval_try_ok hopen, Prog.eval_lift, Prog.eval_call, hans]
    exact .inl ⟨answer, rfl, hbody ▸ hok, hbody ▸ hreport, absurd hbody⟩
  · rw [hcount hsize]
    rcases openForRead_eval body hw (fun i hi => hd.deviceFor_isSome hi) hsize key with ⟨opened, hopen, hr,
      hle⟩ | ⟨e, hopen, hwhy⟩
    · have hopen' : (callNode (openForRead X C scheme r key (stripeCount scheme r body))).run.eval ex w =
          (.ok opened, w) := (Prog.eval_call _ _).trans hopen
      have hpos : 0 < stripeCount scheme r body :=
        divCeil_pos (Nat.pos_of_ne_zero fun hnil => hsize (hd.size_eq.trans hnil)) (Nat.mul_pos scheme.data_pos hB)
      obtain ⟨answer, hans, hok, hreport⟩ := streamObject_eval hw hlib hf hB (fun i hi =>
        hd.deviceFor_isSome hi) hd.size_eq hd.checksum_eq key missing hr.toFollowing hr.noted hpos
      rw [Prog.eval_try_ok hopen', Prog.eval_lift, Prog.eval_call, hans]
      exact .inl ⟨answer, rfl, hok, hreport, fun _ => hle⟩
    · have hopen' : (callNode (openForRead X C scheme r key (stripeCount scheme r body))).run.eval ex w =
          (.error e, w) := (Prog.eval_call _ _).trans hopen
      refine .inr ⟨e, Prog.eval_try_error hopen', fun hnil => hsize ?_, hwhy⟩
      rw [hd.size_eq, hnil]
      rfl

theorem getObject_eval (hlib : ReedSolomonCode.Lawful X.reedSolomon o.scheme)
    (hnew : (newestReadableVersion X C fuel key).run.eval exec s = (.ok (o.record, missing), s))
    (hf : Faithful X C s o.scheme o.record o.body) :
    (∃ answer, (getObject X C fuel key).run.eval exec s = (.ok answer, s) ∧
      Answers X C s o.scheme o.record o.body answer) ∨
    ∃ e, (getObject X C fuel key).run.eval exec s = (.error e, s) ∧ o.body ≠ [] ∧
      o.scheme.parityShards < unopenable C s o.scheme o.record := by
  rcases getObject_shows o.describes hlib (exec_shows X C s o.record) hnew hf.sound with
    ⟨answer, heval, hans, _⟩ | ⟨e, heval, hne, hmany | hshort⟩
  · exact .inl ⟨answer, heval, hans.record, hans.exact, fun henough =>
      hans.clean henough fun _ _ i _ file hs => ⟨hf.count i file hs, trivial⟩⟩
  · exact .inr ⟨e, heval, hne, hmany⟩
  · exact absurd (fun i _ file hs => hf.count i file hs) hshort

/-- Every allowance of pages from some number on is enough for a read to deliver the object. -/
def Serves (X : Crates) (C : Cluster) (s : Store) (key : String) (r : MetadataRecord) (body : Bytes) : Prop :=
  ∃ F, ∀ fuel ≥ F, ∃ answer, (getObject X C fuel key).run.eval exec s = (.ok answer, s) ∧ answer.record = r ∧
    answer.frames.flatMap DataFrame.bytes = body ∧ answer.ended.isOk

section Serve

variable {v : VersionId} {o : StoredObject X C key}

theorem Sound.shardAt_some (h : Sound objs s) (ho : objs v = some o) (hne : o.body ≠ [])
    (hs : shardAt C o.record s i = some file) : IsShard X o.scheme o.record o.body i file := by
  cases hd : o.record.deviceFor i with
  | none => rw [shardAt, hd] at hs; cases hs
  | some d =>
    have hmem := MetadataRecord.exists_shard hd
    rw [o.shardAt_eq hmem] at hs
    split at hs
    · next file' hget =>
        cases hs
        rw [h.version v o ho] at hget
        obtain ⟨file', hfile, hshard⟩ := h.genuine v o ho _ hmem _ hget hne
        cases hfile
        exact hshard
    · cases hs

theorem Sound.faithful (h : Sound objs s) (ho : objs v = some o) : Faithful X C s o.scheme o.record o.body := by
  by_cases hne : o.body = []
  · have hzero := o.describes.stripeCount_nil hne
    exact ⟨fun _ _ _ => hzero ▸ Nat.zero_le _, fun _ _ t _ ht => absurd ht (hzero ▸ Nat.not_lt_zero t)⟩
  · refine ⟨fun i file hs => (h.shardAt_some ho hne hs).count.ge, fun i file t hs ht _ _ => ?_⟩
    obtain ⟨b, hb, hblock⟩ := (h.shardAt_some ho hne hs).block t ht
    rw [hblock]
    exact hb

theorem Sound.shardAt_copied (h : Sound objs s) (ho : objs v = some o) (hne : o.body ≠ [])
    (hs : shard ∈ o.record.shards) (hc : o.Copied s shard.device) :
    ∃ file, shardAt C o.record s shard.index = some file := by
  obtain ⟨file, hget, _⟩ := h.shard v o ho shard hs hc hne
  exact ⟨file, by rw [o.shardAt_eq hs, hget]⟩

theorem StoredObject.copies_eq (o : StoredObject X C key) (s : Store) :
    o.copies s = o.record.shards.countP fun sh => o.Copied s sh.device := by
  rw [StoredObject.copies, StoredObject.devices, List.countP_map]
  rfl

theorem Sound.unopenable_le (h : Sound objs s) (ho : objs v = some o) (hne : o.body ≠ [])
    (hk : o.scheme.dataShards ≤ o.copies s) : unopenable C s o.scheme o.record ≤ o.scheme.parityShards := by
  have hle : unopenable C s o.scheme o.record ≤ o.record.shards.countP fun sh => !decide (o.Copied s sh.device) := by
    rw [unopenable, o.describes.countP_indices]
    refine List.countP_mono_left fun shard hs hnone => ?_
    by_contra hc
    obtain ⟨file, hfile⟩ := h.shardAt_copied ho hne hs (by simpa using hc)
    rw [hfile] at hnone
    cases hnone
  have hsplit : o.record.shards.length = (o.record.shards.countP fun sh => decide (o.Copied s sh.device)) +
      o.record.shards.countP fun sh => !decide (o.Copied s sh.device) := by
    rw [List.length_eq_countP_add_countP fun sh : ShardLocation => decide (o.Copied s sh.device)]
    simp
  rw [o.copies_eq] at hk
  have htotal : o.record.shards.length = o.scheme.dataShards + o.scheme.parityShards := o.describes.scheme_facts.1
  omega

theorem Sound.usable (h : Sound objs s) (hlib : ReedSolomonCode.Lawful X.reedSolomon o.scheme) (ho : objs v = some o)
    (hne : o.body ≠ []) (hk : o.scheme.dataShards ≤ o.copies s) (ht : t < stripeCount o.scheme o.record o.body) :
    o.scheme.dataShards ≤ usableAmong X C s o.scheme o.record o.body t (openIndices o.scheme true) := by
  rw [usableAmong, o.describes.countP_indices]
  rw [o.copies_eq] at hk
  refine hk.trans (List.countP_mono_left fun shard hs hc => ?_)
  obtain ⟨file, hfile⟩ := h.shardAt_copied ho hne hs (by simpa using hc)
  have hidx := mem_openIndices_true.mpr (o.describes.scheme_facts.2.1 shard hs)
  rw [(h.shardAt_some ho hne hfile).usable hlib hfile ht, Bool.and_true, decide_eq_true hidx]

/-- **Served.** A read of sound copies delivers the newest version when at least `k` of its copies are there. -/
theorem Sound.serves (h : Sound objs s) (hlib : ReedSolomonCode.Lawful X.reedSolomon o.scheme) (hup : Up C s)
    (hkey : checkKey C key = .ok ()) (hn : Newest objs s v o) (hk : o.scheme.dataShards ≤ o.copies s) :
    Serves X C s key o.record o.body := by
  refine ⟨copyCount C (X.hashKey key) s + 1, fun fuel hfuel => ?_⟩
  obtain ⟨missing, hnew⟩ := h.trusted hup hkey hn hk hfuel
  have henough : ∀ t < stripeCount o.scheme o.record o.body,
      o.scheme.dataShards ≤ usableAmong X C s o.scheme o.record o.body t (openIndices o.scheme true) := by
    intro t ht
    refine h.usable hlib hn.1 (fun hnil => ?_) hk ht
    rw [o.describes.stripeCount_nil hnil] at ht
    cases ht
  rcases getObject_eval hlib hnew (h.faithful hn.1) with ⟨answer, heval, hans⟩ | ⟨_, _, hne, hmany⟩
  · have hok := hans.clean henough
    exact ⟨answer, heval, hans.record, hans.exact hok, hok⟩
  · exact absurd hmany (Nat.not_lt.mpr (h.unopenable_le hn.1 hne hk))

end Serve

end Key

end Djbod
