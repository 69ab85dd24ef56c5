import Djbod.Object.Race
import Djbod.Object.Small

/-!
# Writes of one key that overlap

Any number of writes of one key run side by side, and all succeed.

* `writers` : the writes as programs over one store;
* `NewerUnread` : no write, its own records stored, finds a record of a newer one;
* `Race.unremoved`, `Race.copied`, `Race.gone` : then the newest version is kept, and the others are gone;
* `overwrite_newest` : the newest is left alone, whole and readable;
* `overwrite_both_lost` : two writes that read each other's records remove each other.
-/

namespace Djbod

open Sched

def writers {ι : Type} (X : Crates) (C : Cluster) (key : String) (s : Store) (requests : ι → PutRequest) :
    Config Op Resp Store fun _ : ι => Except ErrorDetail PutAnswer :=
  ⟨s, fun i => (requests i).program X C key⟩

section Overwrite

variable {ι : Type} [DecidableEq ι] {X : Crates} {C : Cluster} {key : String} {s₀ : Store} {requests : ι → PutRequest}

/-- When a write that has stored a record of its own reads one of a newer version, that record is not there. -/
def NewerUnread (R : Run healthy (writers X C key s₀ requests)) : Prop :=
  ∀ i j, (requests i).version < (requests j).version → ∀ e₀ ∈ R.events i R.len, ∀ e ∈ R.events i R.len,
    e₀.time < e.time → (∃ d r, e₀.op = .writeRecord d r) →
    ∀ d, e.op = .readRecord d (X.hashKey key) (requests j).version →
      (R.store e.time).getRecord d (X.hashKey key) (requests j).version = none

section Newest

variable {R : Run healthy (writers X C key s₀ requests)} {o : ι → StoredObject X C key}
  {es₁ es₂ es₃ : ι → List (Ev Op Resp)} (h : Race R id requests o es₁ es₂ es₃) (hunread : NewerUnread R) {m : ι}
  (hmax : ∀ i, (requests i).version ≤ (requests m).version) {objs₀ : VersionId → Option (StoredObject X C key)}

include h hunread hmax

theorem Race.unread {i : ι} (hi : i ≠ m) {es : List (Ev Op Resp)} (hsub : es ⊆ es₃ i) (d : DeviceId)
    (r : MetadataRecord) : ¬ ReadOk es d (X.hashKey key) (requests m).version r := by
  rintro ⟨n, hr⟩
  obtain ⟨d', hd'⟩ := (o i).exists_device
  obtain ⟨e₀, he₀, hop⟩ := h.wrote hd'
  have hlt : (requests i).version < (requests m).version := lt_of_le_of_ne (hmax i) fun heq => hi (h.distinct heq)
  have hmem := h.mem_split.mpr (.inr (.inr (hsub hr)))
  have hnone := hunread i m hlt e₀ (h.mem_split.mpr (.inr (.inl he₀))) _ hmem (h.order he₀ (hsub hr)) ⟨d', _, hop⟩ d rfl
  have hx := congrArg Prod.fst (R.exec_of_mem le_rfl hmem)
  simp only [exec] at hx
  rw [hnone] at hx
  cases hx

theorem Race.unremoved {n : ℕ} (hn : n < R.len) {j : ι} {op : Op} {resp : Resp op} (hl : R.label n = .act j op resp) :
    ¬ RemovesVersion (X.hashKey key) (requests m).version op := by
  intro hr
  obtain ⟨i, hmem⟩ := h.remove hn hl hr
  obtain ⟨looked, removed, located, older, hsplit, hquiet, hseen, hver, hdel⟩ := h.replaced i
  have hrem : Removing (fun _ v => ∃ r ∈ older, r.version = v ∧ v ≠ (requests i).version) removed := by
    refine deleteVersions_tr (fun r hr => ?_) hdel
    obtain ⟨hold, hne⟩ := List.mem_filter.mp hr
    exact ⟨r, hold, rfl, by simpa using hne⟩
  rw [hsplit] at hmem
  rcases List.mem_append.mp hmem with hmem | hmem
  · exact RemovesVersion.not_quiet hr (hquiet _ hmem)
  · rcases hrem.only _ hmem with hq | ⟨kh, v, ⟨r, hold, rfl, hne⟩, hr'⟩
    · exact RemovesVersion.not_quiet hr hq
    · -- What is removed was read before.
      have hv : r.version = (requests m).version := RemovesVersion.version_eq hr' hr
      obtain ⟨_, _, _, _, ⟨d, hloc⟩, _⟩ := forall₂_left_of_mem (versionsOf_ok hver) hold
      have hread := (hseen.read _ hloc).2
      rw [hv] at hread hne
      refine h.unread hunread hmax (fun him => hne (him ▸ rfl)) (fun e he => ?_) d r hread
      rw [hsplit]
      exact List.mem_append_left _ he

theorem Race.copied {n : ℕ} (hn : n ≤ R.len) (hafter : ∀ e ∈ es₂ m, e.time < n) {d : DeviceId}
    (hd : d ∈ (o m).devices) : (o m).Copied (R.store n) d := by
  obtain ⟨e, he, hop⟩ := h.wrote hd
  have hmem := h.mem_split.mpr (.inr (.inl he))
  have hstored : (o m).Copied (R.store (e.time + 1)) d := by
    obtain ⟨t, op, resp⟩ := e
    obtain rfl : op = .writeRecord d (o m).record := hop
    have hup := up_always R h.up (R.mem_events.mp hmem).1.le d ((o m).placed d hd).attached
    rw [StoredObject.Copied, Exec.store (R.exec_of_mem le_rfl hmem), ← (o m).keyHash_eq]
    exact exec_writeRecord hup (o m).record
  by_contra hlost
  obtain ⟨t, _, ht, _, ⟨resp, hl, _⟩ | ⟨r, resp, hl, _, hver, hne⟩⟩ :=
    record_changed R (P := (· ≠ some (.ok (o m).record))) (hafter e he) hn (not_not.mpr hstored) hlost
  · exact h.unremoved hunread hmax (Nat.lt_of_lt_of_le ht hn) hl ⟨rfl, (h.written m).version⟩
  · obtain ⟨i, _, _, rfl⟩ := h.write (Nat.lt_of_lt_of_le ht hn) hl
    obtain rfl : i = m := h.distinct ((h.written i).version.symm.trans (hver.trans (h.written m).version))
    exact hne rfl

theorem Race.shardIn {shard : ShardLocation} (hs : shard ∈ (o m).record.shards) : (o m).ShardIn R.final shard := by
  intro hne
  obtain ⟨n, file, hmem, hkh, hver, hidx, hshard⟩ := (h.done m).allShards hne shard hs
  have hev := h.mem_split.mpr (.inl hmem)
  have hd := ((o m).placed _ ((o m).mem_devices hs)).attached
  have hn : n < R.len := (R.mem_events.mp hev).1
  have hput : (R.store (n + 1)).getShard shard.device (X.hashKey key) (o m).record.version shard.index =
      some (.ok file) := by
    rw [Exec.store (R.exec_of_mem le_rfl hev), ← hkh, ← hver, ← hidx]
    exact exec_finishShard (up_always R h.up hn.le _ hd) file
  cases hfin : (R.store R.len).getShard shard.device (X.hashKey key) (o m).record.version shard.index with
  | none =>
    obtain ⟨t, _, ht, i, ⟨resp, hl, _⟩ | ⟨_, _, _, _, _, _, hnone⟩⟩ :=
      shard_changed R (P := (· = none)) hn le_rfl (by rw [hput]; exact Option.some_ne_none _) hfin
    · exact absurd ⟨rfl, (h.written m).version⟩ (h.unremoved hunread hmax ht hl)
    · cases hnone
  | some content =>
    have hfin' := hfin
    rw [(h.written m).version] at hfin'
    obtain ⟨file', rfl, hshard'⟩ := h.shard_genuine le_rfl hd hfin'
    exact ⟨file', hfin, hshard'⟩

omit hunread hmax in
/-- A record that the write of the newest version saw is gone in the end: it was removed, and a record is written
once. -/
theorem Race.gone_seen (hk : Known objs₀ s₀) {looked removed : List (Ev Op Resp)} {located : List LocatedRecord}
    {older : List MetadataRecord} (hsplit : es₃ m = looked ++ removed)
    (hseen : Seen looked (X.hashKey key) C.attached located) (hver : versionsOf X key located = .ok older)
    (hdel : Task.Tr (deleteVersions X C (older.filter fun r => r.version ≠ (requests m).version)).run removed
    (.ret (.ok ()))) {c : LocatedRecord} (hc : c ∈ located) (hv : c.record.version ≠ (requests m).version) :
    R.final.getRecord c.device (X.hashKey key) c.record.version = none := by
  have hin : ∀ {e}, e ∈ es₃ m → e ∈ R.events m R.len := fun he => h.mem_split.mpr (.inr (.inr he))
  have hlooked : ∀ {e}, e ∈ looked → e ∈ es₃ m := fun he => hsplit ▸ List.mem_append_left _ he
  have hremoved : ∀ {e}, e ∈ removed → e ∈ es₃ m := fun he => hsplit ▸ List.mem_append_right _ he
  have hxl : Executed R.store looked := (events_executed R m).mono fun _ he => hin (hlooked he)
  have hxr : Executed R.store removed := (events_executed R m).mono fun _ he => hin (hremoved he)
  -- What was seen is the record of a known object.
  have hrecord : ∀ {c'}, c' ∈ located → ∃ e ∈ looked, ∃ obj : StoredObject X C key,
      raceObjects objs₀ requests o c'.record.version = some obj ∧ c'.record = obj.record ∧ c'.device ∈ obj.devices ∧
        (R.store e.time).getRecord c'.device (X.hashKey key) c'.record.version = some (.ok c'.record) := by
    intro c' hc'
    obtain ⟨hd, hread⟩ := hseen.read c' hc'
    obtain ⟨e, he, hat⟩ := hxl.readOk hread
    have hn := (R.mem_events.mp (hin (hlooked he))).1.le
    obtain ⟨obj, hobj, hfile, hdev⟩ := (h.known hk hn).found _ hd _ _ hat
    exact ⟨e, he, obj, hobj, Except.ok.inj hfile, hdev, hat⟩
  obtain ⟨e, he, obj, hobj, hcrec, hdev, hat⟩ := hrecord hc
  obtain ⟨r, hold, hrv, _, ⟨d', hloc⟩, _⟩ := forall₂_left_of_mem (versionsOf_ok hver).flip
    (mem_versionsDescending.mpr ⟨c, hc, rfl⟩)
  obtain ⟨_, _, obj', hobj', hrrec, _, _⟩ := hrecord hloc
  have hsame : r = obj.record := by
    rw [show (⟨d', r⟩ : LocatedRecord).record.version = c.record.version from hrv, hobj] at hobj'
    cases hobj'
    exact hrrec
  obtain ⟨shard, hshard, hdevice⟩ := List.mem_map.mp hdev
  have hcleared := deleteVersions_done hdel r (List.mem_filter.mpr ⟨hold, by simpa [hrv] using hv⟩)
    shard (hsame ▸ hshard) (hdevice ▸ (obj.placed _ hdev).inService)
  rw [hsame, obj.keyHash_eq, ← hcrec, hdevice] at hcleared
  obtain ⟨e₁, he₁, hnone⟩ := hxr.cleared hcleared
  by_contra hback
  obtain ⟨file, hfile⟩ := Option.ne_none_iff_exists'.mp hback
  have hlt₁ := (R.mem_events.mp (hin (hremoved he₁))).1
  obtain ⟨j, hj, _, _, e', he', hop', hle', _⟩ := h.written_by (Nat.succ_le_of_lt hlt₁) le_rfl
    (by rw [hnone]; exact fun hcontra => by cases hcontra) hfile
  -- It was written before it was seen, too.
  have hfresh : (R.store 0).getRecord c.device (X.hashKey key) c.record.version ≠ some (.ok c.record) := by
    rw [R.store_zero, ← hj, (h.fresh j _ (hseen.read c hc).1).1]
    exact fun hcontra => by cases hcontra
  obtain ⟨j', hj', _, _, e'', he'', hop'', _, hlt''⟩ := h.written_by (Nat.zero_le _)
    (R.mem_events.mp (hin (hlooked he))).1.le hfresh hat
  obtain rfl : j' = j := h.distinct (hj'.trans hj.symm)
  obtain rfl := written_unique (h.done j').once he' he'' hop' hop''
  have hpair := R.events_pairwise (id m) R.len
  rw [(h.done m).split, hsplit, List.pairwise_append, List.pairwise_append, List.pairwise_append] at hpair
  have hord := hpair.2.1.2.1.2.2 e he e₁ he₁
  omega

theorem Race.gone (hk : Known objs₀ s₀) {d : DeviceId} (hd : d ∈ C.attached) {v : VersionId}
    (hv : v ≠ (requests m).version) : R.final.getRecord d (X.hashKey key) v = none := by
  obtain ⟨looked, removed, located, older, hsplit, _, hseen, hver, hdel⟩ := h.replaced m
  rcases hseen.complete d hd v with ⟨c, hc, rfl, rfl⟩ | ⟨vs, hl, hno⟩
  · exact h.gone_seen hk hsplit hseen hver hdel hc hv
  · have hlooked : ∀ {e}, e ∈ looked → e ∈ es₃ m := fun he => hsplit ▸ List.mem_append_left _ he
    have hx : Executed R.store looked := (events_executed R m).mono fun _ he =>
      h.mem_split.mpr (.inr (.inr (hlooked he)))
    obtain ⟨e, he, hnone⟩ := hx.notListed hl hno
    by_contra hback
    obtain ⟨file, hfile⟩ := Option.ne_none_iff_exists'.mp hback
    have hlt := (R.mem_events.mp (h.mem_split.mpr (.inr (.inr (hlooked he))))).1
    obtain ⟨j, hj, _, _, e', he', _, hle, _⟩ := h.written_by hlt.le le_rfl
      (by rw [hnone]; exact fun hcontra => by cases hcontra) hfile
    -- The write of this version looks for others only later, when the newest version has all its records.
    have hjm : j ≠ m := fun hjm => hv (hjm ▸ hj.symm)
    obtain ⟨looked', removed', located', older', hsplit', _, hseen', _, _⟩ := h.replaced j
    have hlooked' : ∀ {e}, e ∈ looked' → e ∈ es₃ j := fun he => hsplit' ▸ List.mem_append_left _ he
    obtain ⟨d', hd'⟩ := (o m).exists_device
    rcases hseen'.complete d' ((o m).placed d' hd').attached (requests m).version with ⟨c, hc, rfl,
      hcv⟩ | ⟨vs', hl', hno'⟩
    · have hread := (hseen'.read c hc).2
      rw [hcv] at hread
      exact h.unread hunread hmax hjm (fun _ he => hlooked' he) _ _ hread
    · have hx' : Executed R.store looked' :=
        (events_executed R j).mono fun _ he => h.mem_split.mpr (.inr (.inr (hlooked' he)))
      obtain ⟨e₂, he₂, hnone₂⟩ := hx'.notListed hl' hno'
      have hcopied := h.copied hunread hmax (n := e₂.time)
        (R.mem_events.mp (h.mem_split.mpr (.inr (.inr (hlooked' he₂))))).1.le (fun e₀ he₀ => by
          have h₁ := h.order he₀ (hlooked he)
          have h₂ := h.order he' (hlooked' he₂)
          omega) hd'
      rw [StoredObject.Copied, (h.written m).version, hnone₂] at hcopied
      cases hcopied

theorem Race.sound (hk : Known objs₀ s₀) :
    Sound (fun v => if v = (requests m).version then some (o m) else none) R.final where
  version v obj ho := by
    split_ifs at ho with hv
    cases ho
    exact hv ▸ (h.written m).version
  found d hd v file hr := by
    by_cases hv : v = (requests m).version
    · subst hv
      obtain ⟨obj, ho, hfile, hdev⟩ := (h.known hk le_rfl).found d hd _ file hr
      rw [h.objects_self] at ho
      cases ho
      exact ⟨o m, if_pos rfl, hfile, hdev⟩
    · rw [h.gone hunread hmax hk hd hv] at hr
      cases hr
  shard v obj ho shard hs _ := by
    split_ifs at ho with hv
    cases ho
    exact h.shardIn hunread hmax hs
  genuine v obj ho shard hs content hget _ := by
    split_ifs at ho with hv
    cases ho
    exact h.shard_genuine le_rfl ((o m).placed _ ((o m).mem_devices hs)).attached (hv ▸ hget)

end Newest

theorem race_of_done (hC : C.Whole) (hlib : Codes X C) (hup : Up C s₀) (hdistinct : Function.Injective fun i =>
    (requests i).version) (hfresh : ∀ i, Fresh C (X.hashKey key) s₀ (requests i).version)
    (R : Run healthy (writers X C key s₀ requests)) (hdone : ∀ i, ∃ answer, (R.cfg R.len).pc i = .ret (.ok answer)) :
    ∃ (o : ι → StoredObject X C key) (es₁ es₂ es₃ : ι → List (Ev Op Resp)), Race R id requests o es₁ es₂ es₃ := by
  have hone : ∀ i, ∃ (o : StoredObject X C key) (es₁ es₂ es₃ : List (Ev Op Resp)),
      o.Written (requests i).version (requests i).messages ∧ Succeeded o (requests i).fuel (R.events i R.len)
      es₁ es₂ es₃ := by
    intro i
    obtain ⟨answer, hans⟩ := hdone i
    have htr := R.tr i le_rfl
    rw [hans] at htr
    obtain ⟨o, hw, es₁, es₂, es₃, hs⟩ := putObject_done hC hlib htr
    exact ⟨o, es₁, es₂, es₃, hw, hs⟩
  choose o es₁ es₂ es₃ hw hs using hone
  exact ⟨o, es₁, es₂, es₃, ⟨hup, hdistinct, hfresh, hw, hs, fun j hj => absurd rfl (hj j)⟩⟩

/-- **Overlapping writes.** When all have succeeded, the newest is left alone, whole and readable, provided that no
write that has stored a record of its own reads one of a newer version. -/
theorem overwrite_newest [Finite ι] [Nonempty ι] (hC : C.Whole) (hlib : Codes X C) (hup : Up C s₀)
    {objs₀ : VersionId → Option (StoredObject X C key)} (hk : Known objs₀ s₀)
    (hdistinct : Function.Injective fun i => (requests i).version)
    (hfresh : ∀ i, Fresh C (X.hashKey key) s₀ (requests i).version) (R : Run healthy (writers X C key s₀ requests))
    (hdone : ∀ i, ∃ answer, (R.cfg R.len).pc i = .ret (.ok answer)) (hunread : NewerUnread R) :
    ∃ m, (∀ i, (requests i).version ≤ (requests m).version) ∧ ∃ o : StoredObject X C key,
      o.record.version = (requests m).version ∧ o.body = bodyBytes (requests m).messages ∧
      (∀ d ∈ o.devices, o.Copied R.final d) ∧ (∀ shard ∈ o.record.shards, o.ShardIn R.final shard) ∧
      (∀ d ∈ C.attached, ∀ v ≠ (requests m).version, R.final.getRecord d (X.hashKey key) v = none) ∧
      Serves X C R.final key o.record o.body := by
  obtain ⟨m, hmax⟩ := Finite.exists_max fun i => (requests i).version
  obtain ⟨o, es₁, es₂, es₃, h⟩ := race_of_done hC hlib hup hdistinct hfresh R hdone
  have hcopied : ∀ d ∈ (o m).devices, (o m).Copied R.final d := fun d hd =>
    h.copied hunread hmax le_rfl (fun e he => (R.mem_events.mp (h.mem_split.mpr (.inr (.inl he)))).1) hd
  have hall : (o m).copies R.final = (o m).devices.length :=
    List.countP_eq_length.mpr fun d hd => by simpa using hcopied d hd
  have hlen : (o m).devices.length = (o m).scheme.totalShards := by
    rw [StoredObject.devices, List.length_map, (o m).describes.scheme_facts.1]
  have hk' : (o m).scheme.dataShards ≤ (o m).copies R.final := by rw [hall, hlen]; exact (o m).scheme.data_le_total
  refine ⟨m, hmax, o m, (h.written m).version, (h.written m).body, hcopied, fun shard hs => h.shardIn hunread hmax hs,
    fun d hd v hv => h.gone hunread hmax hk hd hv, ?_⟩
  refine (h.sound hunread hmax hk).serves (hlib _ (h.written m).scheme) (up_always R hup le_rfl) (h.written m).allowed
    (v := (requests m).version) ⟨if_pos rfl, (o m).scheme.data_pos.trans_le hk', fun v' o' ho' _ => ?_⟩ hk'
  dsimp only at ho'
  split_ifs at ho' with hv
  exact hv.le

end Overwrite

/-! ## Two writes of one byte -/

def bytePut (version : VersionId) : PutRequest := ⟨4, version, 0, 1, none, [], [.data ⟨0, 0, [7]⟩, .endOfStream none]⟩

def twoPuts (second : Bool) : PutRequest := bytePut (if second then 2 else 1)

abbrev twoWriters : Config Op Resp Store fun _ : Bool => Except ErrorDetail PutAnswer :=
  writers smallCrates (small 0 [.active]) "k" emptyStore twoPuts

theorem twoWriters_run (ok : Store → Bool → Op → Bool) (choices : List (Bool × ℕ)) (vs : List VersionId)
    (h : ((twoWriters.play exec ok (twoWriters.turns exec choices)).map fun c => ((c.pc false).result.map Except.isOk,
      (c.pc true).result.map Except.isOk, c.store.versions 0 0)) = some (some true, some true, vs)) :
    ∃ R : Run healthy twoWriters, R.Meets ok ∧ (∀ i, ∃ answer, (R.cfg R.len).pc i = .ret (.ok answer)) ∧
      R.final.versions 0 0 = vs := by
  obtain ⟨c, hplay, hc⟩ := Option.map_eq_some_iff.mp h
  obtain ⟨R, rfl, hok⟩ := Config.play_start (S := healthy) exec exec_sound hplay
  obtain ⟨hfirst, hrest⟩ := Prod.mk.inj hc
  obtain ⟨hsecond, hvs⟩ := Prod.mk.inj hrest
  refine ⟨R, hok, fun i => ?_, hvs⟩
  cases i
  · exact Prog.result_ok hfirst
  · exact Prog.result_ok hsecond

/-- The first write does not read the second's record while it is there. -/
def firstUnaware (s : Store) (second : Bool) : Op → Bool
  | .readRecord d kh v => second || (v != 2) || (s.getRecord d kh v).isNone
  | _ => true

/-- The first write looks for others before the second has stored its record: the second is left with its shard, and is
served. -/
theorem overwrite_newest_twoPuts : ∃ R : Run healthy twoWriters, NewerUnread R ∧
    ∃ o : StoredObject smallCrates (small 0 [.active]) "k", o.record.version = 2 ∧
      (∀ d ∈ o.devices, o.Copied R.final d) ∧ (∀ shard ∈ o.record.shards, o.ShardIn R.final shard) ∧
      Serves smallCrates (small 0 [.active]) R.final "k" o.record [7] := by
  obtain ⟨R, hok, hdone, _⟩ := twoWriters_run firstUnaware [(true, 14), (false, 40), (true, 40)] [2] (by decide +kernel)
  have hunread : NewerUnread R := by
    intro i j hlt _ _ e he _ _ d hop
    have hij : i = false ∧ j = true := by revert hlt; cases i <;> cases j <;> decide
    obtain ⟨rfl, rfl⟩ := hij
    obtain ⟨hn, hl⟩ := R.mem_events.mp he
    obtain ⟨t, op, resp⟩ := e
    obtain rfl : op = .readRecord d (smallCrates.hashKey "k") (twoPuts true).version := hop
    have hmeets := hok t hn _ _ _ hl
    simpa [firstUnaware, twoPuts, bytePut] using hmeets
  have hdistinct : Function.Injective fun i => (twoPuts i).version := by decide
  obtain ⟨m, hmax, o, hver, hbody, hcopied, hshards, _, hserves⟩ := overwrite_newest (small_whole 0 [.active])
    (small_codes 0 [.active]) (emptyStore_up _) emptyStore_known hdistinct (fun _ =>
    emptyStore_fresh _ _ _) R hdone hunread
  obtain rfl : m = true := by
    cases m
    · exact absurd (hmax true) (by decide)
    · rfl
  refine ⟨R, hunread, o, hver, hcopied, hshards, ?_⟩
  rw [hbody] at hserves
  exact hserves

/-- Both store their record, both read both records, and each removes the other's: nothing is left. -/
theorem overwrite_both_lost : ∃ R : Run healthy twoWriters, (∀ i, ∃ answer, (R.cfg R.len).pc i = .ret (.ok answer)) ∧
    ∀ d ∈ (small 0 [.active]).attached, R.final.versions d (smallCrates.hashKey "k") = [] := by
  obtain ⟨R, _, hdone, hvs⟩ := twoWriters_run (fun _ _ _ => true)
    [(false, 16), (true, 16), (false, 5), (true, 5), (false, 40), (true, 40)] [] (by decide +kernel)
  refine ⟨R, hdone, fun d hd => ?_⟩
  rw [small_attached] at hd
  obtain rfl : d = 0 := by simpa using hd
  exact hvs

end Djbod
