import Djbod.Node.History
import Djbod.Node.PutTrace

/-!
# Writes of one key in a run

* `PutRequest` : what a write is asked to do;
* `Race` : a run in which some programs are writes that succeed, and the others change nothing;
* `Race.write`, `Race.finish`, `Race.remove` : what a write stores and removes, and in which phase;
* `Race.known`, `Race.shard_genuine` : every record and shard file is from before, or of one of the writes;
* `Race.wrote`, `Race.replaced` : each write stores all its records, then removes what a lookup sees of the others.
-/

namespace Djbod

open Sched

structure PutRequest where
  fuel : ℕ
  version : VersionId
  created : ℤ
  size : ℕ
  contentType : Option String
  userMetadata : List (String × String)
  messages : List BodyMessage

def PutRequest.params (request : PutRequest) (key : String) : PutParams :=
  ⟨key, request.size, request.contentType, request.userMetadata⟩

def PutRequest.program (X : Crates) (C : Cluster) (key : String) (request : PutRequest) :
    Prog Op Resp (Except ErrorDetail PutAnswer) :=
  (putObject X C request.fuel request.version request.created (request.params key) request.messages).run

variable {d : DeviceId} {e e' : Ev Op Resp} {r : MetadataRecord}

theorem written_unique {es : List (Ev Op Resp)} (h : (written es).Nodup) (he : e ∈ es) (he' : e' ∈ es)
    {r' : MetadataRecord} (hop : e.op = .writeRecord d r) (hop' : e'.op = .writeRecord d r') : e = e' := by
  induction es with
  | nil => cases he
  | cons x es ih =>
    have hcons : written (x :: es) = written [x] ++ written es := written_append [x] es
    rw [hcons, List.nodup_append] at h
    obtain ⟨_, htail, hdisj⟩ := h
    have hone : ∀ {y : Ev Op Resp} {r₁}, y.op = .writeRecord d r₁ → d ∈ written [y] := fun {y r₁} hy =>
      mem_written.mpr ⟨y, List.mem_singleton_self _, r₁, hy⟩
    have hmem : ∀ {y : Ev Op Resp} {r₁}, y ∈ es → y.op = .writeRecord d r₁ → d ∈ written es := fun {y r₁} hy hr =>
      mem_written.mpr ⟨y, hy, r₁, hr⟩
    rcases List.mem_cons.mp he with rfl | hmem₁
    · rcases List.mem_cons.mp he' with rfl | hmem₂
      · rfl
      · exact absurd rfl (hdisj d (hone hop) d (hmem hmem₂ hop'))
    · rcases List.mem_cons.mp he' with rfl | hmem₂
      · exact absurd rfl (hdisj d (hone hop') d (hmem hmem₁ hop))
      · exact ih htail hmem₁ hmem₂

section Race

variable {ι : Type} [DecidableEq ι] {α : ι → Type} {c₀ : Config Op Resp Store α} {κ : Type} {X : Crates}
  {C : Cluster} {key : String}

/-- Some of the programs of a run are writes of one key, and each went through its phases: shards `es₁`, records `es₂`,
the removal of the others `es₃`. The other programs change nothing. -/
structure Race (R : Run healthy c₀) (thread : κ → ι) (requests : κ → PutRequest) (o : κ → StoredObject X C key)
    (es₁ es₂ es₃ : κ → List (Ev Op Resp)) : Prop where
  up : Up C c₀.store
  distinct : Function.Injective fun i => (requests i).version
  fresh : ∀ i, Fresh C (X.hashKey key) c₀.store (requests i).version
  written : ∀ i, (o i).Written (requests i).version (requests i).messages
  done : ∀ i, Succeeded (o i) (requests i).fuel (R.events (thread i) R.len) (es₁ i) (es₂ i) (es₃ i)
  others : ∀ j, (∀ i, thread i ≠ j) → ∀ e ∈ R.events j R.len, e.op.Quiet

variable {R : Run healthy c₀} {thread : κ → ι} {requests : κ → PutRequest} {o : κ → StoredObject X C key}
  {es₁ es₂ es₃ : κ → List (Ev Op Resp)}

variable {i : κ} {n : ℕ}

namespace Race

variable (h : Race R thread requests o es₁ es₂ es₃)

include h

theorem mem_split : e ∈ R.events (thread i) R.len ↔ e ∈ es₁ i ∨ e ∈ es₂ i ∨ e ∈ es₃ i := by
  rw [(h.done i).split, List.mem_append, List.mem_append]

theorem order (he : e ∈ es₂ i) (he' : e' ∈ es₃ i) : e.time < e'.time := by
  have hp := R.events_pairwise (thread i) R.len
  rw [(h.done i).split, List.pairwise_append, List.pairwise_append] at hp
  exact hp.2.1.2.2 e he e' he'

variable {j : ι} {op : Op} {resp : Resp op}

theorem actor (hn : n < R.len) (hl : R.label n = .act j op resp) (hq : ¬ op.Quiet) :
    ∃ i, thread i = j ∧ ((⟨n, op, resp⟩ : Ev Op Resp) ∈ es₁ i ∨ (⟨n, op, resp⟩ : Ev Op Resp) ∈ es₂ i ∨
      (⟨n, op, resp⟩ : Ev Op Resp) ∈ es₃ i) := by
  have hmem : (⟨n, op, resp⟩ : Ev Op Resp) ∈ R.events j R.len := R.mem_events.mpr ⟨hn, hl⟩
  by_cases hj : ∃ i, thread i = j
  · obtain ⟨i, rfl⟩ := hj
    exact ⟨i, rfl, h.mem_split.mp hmem⟩
  · exact absurd (h.others j (not_exists.mp hj) _ hmem) hq

theorem removing (i : κ) : Removing (fun _ v => v ≠ (requests i).version) (es₃ i) := by
  rw [← (h.written i).version]
  exact replaceOthers_tr (h.done i).replaced

/-- A record that is written is a writer's own, on a device of its own, in its second phase. -/
theorem write (hn : n < R.len) {resp : Resp (.writeRecord d r)} (hl : R.label n = .act j (.writeRecord d r) resp) :
    ∃ i, (⟨n, .writeRecord d r, resp⟩ : Ev Op Resp) ∈ es₂ i ∧ d ∈ (o i).devices ∧ r = (o i).record := by
  obtain ⟨i, _, he | he | he⟩ := h.actor hn hl not_false
  · rcases (h.done i).shards _ he with hq | hq <;> exact absurd hq not_false
  · rcases (h.done i).records _ he with hq | hq
    · exact absurd hq not_false
    · exact ⟨i, he, hq⟩
  · rcases (h.removing i).only _ he with hq | ⟨_, _, _, hq⟩ <;> exact absurd hq not_false

theorem finish (hn : n < R.len) {file : ShardFile} {resp : Resp (.finishShard d file)}
    (hl : R.label n = .act j (.finishShard d file) resp) : ∃ i, (o i).StoresShard (.finishShard d file) := by
  obtain ⟨i, _, he | he | he⟩ := h.actor hn hl not_false
  · rcases (h.done i).shards _ he with hq | hq
    · exact absurd hq not_false
    · exact ⟨i, hq⟩
  · rcases (h.done i).records _ he with hq | hq <;> exact absurd hq not_false
  · rcases (h.removing i).only _ he with hq | ⟨_, _, _, hq⟩ <;> exact absurd hq not_false

variable {v : VersionId}

theorem remove (hn : n < R.len) (hl : R.label n = .act j op resp) {kh : KeyHash} (hr : RemovesVersion kh v op) :
    ∃ i, (⟨n, op, resp⟩ : Ev Op Resp) ∈ es₃ i := by
  obtain ⟨i, _, he | he | he⟩ := h.actor hn hl hr.not_quiet
  · rcases (h.done i).shards _ he with hq | hq <;> cases op <;>
      first | exact absurd hq not_false | exact absurd hr not_false
  · rcases (h.done i).records _ he with hq | hq <;> cases op <;>
      first | exact absurd hq not_false | exact absurd hr not_false
  · exact ⟨i, he⟩

theorem written_by {a b : ℕ} (hab : a ≤ b) (hb : b ≤ R.len) {file : RecordFile}
    (hno : (R.store a).getRecord d (X.hashKey key) v ≠ some file)
    (hyes : (R.store b).getRecord d (X.hashKey key) v = some file) :
    ∃ j, (requests j).version = v ∧ file = .ok (o j).record ∧ d ∈ (o j).devices ∧
      ∃ e ∈ es₂ j, e.op = .writeRecord d (o j).record ∧ a ≤ e.time ∧ e.time < b := by
  obtain ⟨n, han, hnb, _, ⟨_, _, hnone⟩ | ⟨r, resp, hl, _, rfl, hfile⟩⟩ :=
    record_changed R (P := (· = some file)) hab hb hno hyes
  · cases hnone
  · obtain ⟨j, hmem, hdev, rfl⟩ := h.write (Nat.lt_of_lt_of_le hnb hb) hl
    exact ⟨j, (h.written j).version.symm, (Option.some.inj hfile).symm, hdev, _, hmem, rfl, han, hnb⟩

end Race

/-- The objects there may be: those from before, and those of the writes. -/
noncomputable def raceObjects (objs₀ : VersionId → Option (StoredObject X C key)) (requests : κ → PutRequest)
    (o : κ → StoredObject X C key) (v : VersionId) : Option (StoredObject X C key) :=
  open Classical in if h : ∃ i, (requests i).version = v then some (o h.choose) else objs₀ v

namespace Race

variable (h : Race R thread requests o es₁ es₂ es₃) {objs₀ : VersionId → Option (StoredObject X C key)}

include h

theorem objects_self (i : κ) : raceObjects objs₀ requests o (requests i).version = some (o i) := by
  have hex : ∃ j, (requests j).version = (requests i).version := ⟨i, rfl⟩
  rw [raceObjects, dif_pos hex, h.distinct hex.choose_spec]

theorem known (hk : Known objs₀ c₀.store) (hn : n ≤ R.len) : Known (raceObjects objs₀ requests o) (R.store n) where
  version v obj ho := by
    by_cases hex : ∃ i, (requests i).version = v
    · obtain ⟨i, rfl⟩ := hex
      rw [h.objects_self] at ho
      cases ho
      exact (h.written i).version
    · rw [raceObjects, dif_neg hex] at ho
      exact hk.version v obj ho
  found d hd v file hr := by
    by_cases hbefore : c₀.store.getRecord d (X.hashKey key) v = some file
    · obtain ⟨obj, ho, hfile, hdev⟩ := hk.found d hd v file hbefore
      refine ⟨obj, ?_, hfile, hdev⟩
      rw [raceObjects, dif_neg ?_]
      · exact ho
      · rintro ⟨i, rfl⟩
        rw [(h.fresh i d hd).1] at hbefore
        cases hbefore
    · have hzero : R.store 0 = c₀.store := R.store_zero
      obtain ⟨j, rfl, hfile, hdev, _⟩ := h.written_by (Nat.zero_le n) hn (hzero.symm ▸ hbefore) hr
      exact ⟨o j, h.objects_self j, hfile, hdev⟩

omit objs₀ in
theorem wrote (hd : d ∈ (o i).devices) : ∃ e ∈ es₂ i, e.op = .writeRecord d (o i).record := by
  obtain ⟨n, hw | hr⟩ := (h.done i).allRecords d hd
  · exact ⟨_, hw, rfl⟩
  · have hmem := h.mem_split.mpr (.inr (.inl hr))
    obtain ⟨e, he, hat⟩ := (events_executed R (thread i)).readOk ⟨n, hmem⟩
    have hzero : R.store 0 = c₀.store := R.store_zero
    have hno : (R.store 0).getRecord d (X.hashKey key) (o i).record.version ≠ some (.ok (o i).record) := by
      rw [hzero, (h.written i).version, (h.fresh i d ((o i).placed d hd).attached).1]
      exact fun hcontra => by cases hcontra
    have htime := (R.mem_events.mp he).1
    obtain ⟨j, hj, hrec, _, e', he', hop, _⟩ := h.written_by (Nat.zero_le _) htime.le hno hat
    obtain rfl : j = i := h.distinct (hj.trans (h.written i).version)
    exact ⟨e', he', hop⟩

omit objs₀ in
theorem shard_genuine (hn : n ≤ R.len) (hd : d ∈ C.attached) {j : ℕ} {content : ShardContent}
    (hs : (R.store n).getShard d (X.hashKey key) (requests i).version j = some content) :
    ∃ file, content = .ok file ∧ IsShard X (o i).scheme (o i).record (o i).body j file := by
  have hno : (R.store 0).getShard d (X.hashKey key) (requests i).version j ≠ some content := by
    have hzero : R.store 0 = c₀.store := R.store_zero
    rw [hzero, (h.fresh i d hd).2]
    exact fun hcontra => by cases hcontra
  obtain ⟨t, _, ht, _, ⟨_, _, hnone⟩ | ⟨file, resp, hl, _, hver, hidx, hfile⟩⟩ :=
    shard_changed R (P := (· = some content)) (Nat.zero_le n) hn hno hs
  · cases hnone
  · obtain ⟨i', shard, _, _, _, hver', hidx', hshard⟩ := h.finish (Nat.lt_of_lt_of_le ht hn) hl
    obtain rfl : i' = i := h.distinct ((h.written i').version.symm.trans (hver'.symm.trans hver))
    exact ⟨file, (Option.some.inj hfile).symm, hidx.symm.trans hidx' ▸ hshard⟩

omit objs₀ in
theorem replaced (i : κ) : ∃ looked removed located older, es₃ i = looked ++ removed ∧
    (∀ e ∈ looked, e.op.Quiet) ∧ Seen looked (X.hashKey key) C.attached located ∧ versionsOf X key located = .ok older ∧
    Task.Tr (deleteVersions X C (older.filter fun r => r.version ≠ (requests i).version)).run removed
    (.ret (.ok ())) := by
  obtain ⟨looked, removed, located, older, hsplit, hlook, hver, hdel⟩ := replaceOthers_done (h.done i).replaced
  rw [(o i).keyHash_eq] at hlook
  rw [(o i).key_eq] at hver
  rw [(h.written i).version] at hdel
  have hsub : looked ⊆ R.events (thread i) R.len := fun e he =>
    h.mem_split.mpr (.inr (.inr (hsplit ▸ List.mem_append_left _ he)))
  have hx : Executed R.store looked := (events_executed R (thread i)).mono hsub
  have hcalm : Calm C (X.hashKey key) looked := hx.calm fun e he => up_always R h.up (R.mem_events.mp (hsub he)).1.le
  rcases lookup_done hcalm hlook with ⟨located', hres, hseen⟩ | ⟨e, hres, _⟩
  · cases hres
    have hquiet : (lookup X C (requests i).fuel (X.hashKey key)).run.Uses Op.Quiet := lookup_uses (fun _ hq => hq) _
    exact ⟨looked, removed, located, older, hsplit, (hlook.uses hquiet).1, hseen, hver, hdel⟩
  · cases hres

end Race

end Race

end Djbod
