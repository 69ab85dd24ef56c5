import Djbod.Object.Complete

/-!
# A repair that stops

* `Reads` : what it takes to read the object from the files, `reads_of_serves` and `Reads.serves` : and nothing else;
* `Improves` : shard files are what they were or what the encoder makes of the body, `Reads.improve` : which no read
  minds;
* `Trusted.next` : the record of the next revision takes over as soon as one copy of it is there;
* `repair_never_worsens` : wherever a repair stops, the object can be read as before.
-/

namespace Djbod

open Sched

/-! ## What a read takes -/

/-- The record files can be read and trusted, every stripe has `k` good blocks, and no stream that the read follows is
short. -/
structure Reads (X : Crates) (C : Cluster) (s : Store) (key : String) (scheme : Scheme) (r : MetadataRecord)
    (body : Bytes) : Prop where
  allowed : checkKey C key = .ok ()
  readable : ∀ d ∈ C.attached, Undamaged s (X.hashKey key) d
  trusted : Trusted C key s (X.hashKey key) r
  detected : Detected X C s scheme r body
  enough : ∀ t < stripeCount scheme r body, scheme.dataShards ≤ usableAmong X C s scheme r body t
    (openIndices scheme true)
  steady : ∀ t < stripeCount scheme r body, SteadyAt X C s scheme r body (fun _ _ => True) t

section Read

variable {X : Crates} {C : Cluster} {key : String} {s : Store} {scheme : Scheme} {r : MetadataRecord}
  {body : Bytes} {fuel : ℕ}

theorem Reads.serves (h : Reads X C s key scheme r body) (hlib : ReedSolomonCode.Lawful X.reedSolomon scheme)
    (hd : Describes X key r scheme body) : Serves X C s key r body := by
  refine ⟨copyCount C (X.hashKey key) s + 1, fun fuel hfuel => ?_⟩
  obtain ⟨answer, heval, hrec, hok, hbody⟩ := getObject_reads hlib hd h.allowed h.readable h.trusted h.detected hfuel
    h.enough h.steady
  exact ⟨answer, heval, hrec, hbody, hok⟩

theorem serves_trusted (h : Serves X C s key r body) : checkKey C key = .ok () ∧
    (∀ d ∈ C.attached, Undamaged s (X.hashKey key) d) ∧ Trusted C key s (X.hashKey key) r ∧
    ∃ fuel missing answer, (newestReadableVersion X C fuel key).run.eval exec s = (.ok (r, missing), s) ∧
      (getObject X C fuel key).run.eval exec s = (.ok answer, s) ∧ answer.ended.isOk := by
  obtain ⟨F, hserve⟩ := h
  obtain ⟨answer, heval, rfl, hbody, hok⟩ := hserve (max F (copyCount C (X.hashKey key) s + 1)) (le_max_left _ _)
  have hfuel : copyCount C (X.hashKey key) s < max F (copyCount C (X.hashKey key) s + 1) :=
    (Nat.lt_succ_self _).trans_le (le_max_right _ _)
  obtain ⟨missing, s₁, hnew⟩ := getObject_record heval
  have hkey : checkKey C key = .ok () := by
    cases hcheck : checkKey C key with
    | ok u => rfl
    | error e =>
      unfold newestReadableVersion at hnew
      rw [hcheck] at hnew
      cases hnew
  have hgood : ∀ d ∈ C.attached, Undamaged s (X.hashKey key) d := by
    by_contra hbad
    push Not at hbad
    obtain ⟨e, hlook, _⟩ := lookupReachable_bad (X := X) (exec_sees s) (by rw [reached_all]; exact hbad) hfuel
    unfold newestReadableVersion at hnew
    rw [hkey] at hnew
    obtain ⟨_, _, hfound, _⟩ := Prog.eval_try_inv hnew
    cases hlook.symm.trans hfound
  obtain ⟨found, hfound, hnew'⟩ := newestReadableVersion_sees (exec_sees s)
    (by rw [reached_all]; exact hgood) hkey hfuel
  have hcopies := hfound.copies
  rw [reached_all] at hcopies
  rw [hnew'] at hnew
  obtain ⟨hread, rfl⟩ := Prod.mk.inj hnew
  rw [hread] at hnew'
  exact ⟨hkey, hgood, (newestReadable_trusted (X := X) hcopies).mp ⟨missing, hread⟩, _, missing, answer,
    hnew', heval, hok⟩

theorem reads_of_serves (hlib : ReedSolomonCode.Lawful X.reedSolomon scheme) (hd : Describes X key r scheme body)
    (hdet : Detected X C s scheme r body) (h : Serves X C s key r body) : Reads X C s key scheme r body := by
  obtain ⟨hkey, hgood, htrust, fuel, missing, answer, hnew, heval, hok⟩ := serves_trusted h
  rcases getObject_shows hd hlib (exec_shows X C s r) hnew hdet with ⟨answer', heval', hans, _⟩ | ⟨e, heval', _⟩
  · cases heval'.symm.trans heval
    exact ⟨hkey, hgood, htrust, hdet, hans.enough hok, hans.steady hok⟩
  · cases heval'.symm.trans heval

end Read

/-! ## Better shards -/

/-- Every shard that a read finds is the one it found before, or what the encoder makes of the body. -/
def Improves (X : Crates) (C : Cluster) (scheme : Scheme) (r : MetadataRecord) (body : Bytes) (s s' : Store) : Prop :=
  ∀ i, shardAt C r s' i = shardAt C r s i ∨ ∃ file, shardAt C r s' i = some file ∧ IsShard X scheme r body i file

section Improve

variable {X : Crates} {C : Cluster} {key : String} {s s' : Store} {scheme : Scheme} {r : MetadataRecord} {body : Bytes}

theorem Improves.usable (h : Improves X C scheme r body s s') (hlib : ReedSolomonCode.Lawful X.reedSolomon scheme)
    {t i : ℕ} (ht : t < stripeCount scheme r body) (hu : usable X C s scheme r body t i = true) :
    usable X C s' scheme r body t i = true := by
  rcases h i with hsame | ⟨file, hfile, hshard⟩
  · unfold Djbod.usable at hu ⊢
    rw [hsame]
    exact hu
  · exact hshard.usable hlib hfile ht

theorem Improves.parityBefore (h : Improves X C scheme r body s s') (hlib : ReedSolomonCode.Lawful X.reedSolomon scheme)
    {t : ℕ} (ht : t ≤ stripeCount scheme r body) (hp : parityBefore X C s' scheme r body t = true) :
    parityBefore X C s scheme r body t = true := by
  unfold Djbod.parityBefore at hp ⊢
  obtain ⟨i, hi, hwhy⟩ := List.any_eq_true.mp hp
  refine List.any_eq_true.mpr ⟨i, hi, ?_⟩
  rw [Bool.or_eq_true] at hwhy ⊢
  rcases hwhy with hnone | hbad
  · rcases h i with hsame | ⟨file, hfile, _⟩
    · exact .inl (hsame ▸ hnone)
    · rw [hfile] at hnone
      cases hnone
  · obtain ⟨t', ht', hno⟩ := List.any_eq_true.mp hbad
    refine .inr (List.any_eq_true.mpr ⟨t', ht', ?_⟩)
    rw [Bool.not_eq_true'] at hno ⊢
    by_contra hyes
    rw [h.usable hlib ((List.mem_range.mp ht').trans_le ht) (by simpa using hyes)] at hno
    cases hno

/-- **Better shards.** A read of the same records succeeds as before. -/
theorem Reads.improve (h : Reads X C s key scheme r body) (hlib : ReedSolomonCode.Lawful X.reedSolomon scheme)
    (hbetter : Improves X C scheme r body s s') (hgood : ∀ d ∈ C.attached, Undamaged s' (X.hashKey key) d)
    (htrust : Trusted C key s' (X.hashKey key) r) : Reads X C s' key scheme r body where
  allowed := h.allowed
  readable := hgood
  trusted := htrust
  detected i file t hfile ht hlen hsum := by
    rcases hbetter i with hsame | ⟨file', hfile', hshard⟩
    · exact h.detected i file t (hsame ▸ hfile) ht hlen hsum
    · cases hfile'.symm.trans hfile
      obtain ⟨b, hb, hblock⟩ := hshard.block t ht
      rw [hblock]
      exact hb
  enough t ht := by
    have henough := h.enough t ht
    rw [usableAmong_all] at henough ⊢
    exact henough.trans (List.countP_mono_left fun i _ hu => hbetter.usable hlib ht hu)
  steady t ht i hi file hfile := by
    refine ⟨?_, trivial⟩
    rcases hbetter i with hsame | ⟨file', hfile', hshard⟩
    · have hmem : i ∈ openIndices scheme (parityBefore X C s scheme r body (t + 1)) := by
        cases hp : parityBefore X C s' scheme r body (t + 1) with
        | true =>
          rw [hp] at hi
          rw [hbetter.parityBefore hlib ht hp]
          exact hi
        | false =>
          rw [hp] at hi
          cases parityBefore X C s scheme r body (t + 1) with
          | true => exact openIndices_mono hi
          | false => exact hi
      exact (h.steady t ht i hmem file (hsame ▸ hfile)).1
    · cases hfile'.symm.trans hfile
      exact hshard.count.ge

end Improve

/-! ## The next revision -/

section Next

variable {C : Cluster} {key : String} {s s' : Store} {kh : KeyHash} {r : MetadataRecord}

theorem sameBody_symm {a b : MetadataRecord} (h : a.sameBody b = true) : b.sameBody a = true := by
  simp only [MetadataRecord.sameBody, Bool.and_eq_true, beq_iff_eq] at h ⊢
  obtain ⟨⟨⟨⟨⟨⟨⟨h1, h2⟩, h3⟩, h4⟩, h5⟩, h6⟩, h7⟩, h8⟩ := h
  exact ⟨⟨⟨⟨⟨⟨⟨h1.symm, h2.symm⟩, h3.symm⟩, h4.symm⟩, h5.symm⟩, h6.symm⟩, h7.symm⟩, h8.symm⟩

theorem AgreeingOn.congr {ds : List DeviceId} {v : VersionId} (h : AgreeingOn ds key s kh v)
    (hsame : ∀ d ∈ ds, copyAt s' kh v d = copyAt s kh v d) : AgreeingOn ds key s' kh v := by
  intro d hd r hcopy
  rw [hsame d hd] at hcopy
  obtain ⟨hkey, hmax⟩ := h d hd r hcopy
  refine ⟨hkey, fun hle => ?_⟩
  obtain ⟨hmem, heq⟩ := hmax fun d' hd' r' hcopy' => hle d' hd' r' (by rw [hsame d' hd', hcopy'])
  exact ⟨hmem, fun d' hd' r' hcopy' => heq d' hd' r' (by rw [← hsame d' hd', hcopy'])⟩

theorem vouchersAt_congr (hsame : ∀ d ∈ C.attached, copyAt s' kh r.version d = copyAt s kh r.version d) :
    vouchersAt C s' kh r = vouchersAt C s kh r :=
  List.countP_congr fun d hd => by rw [hsame d hd]

theorem Trusted.congr (h : Trusted C key s kh r) (hsame : ∀ d ∈ C.attached, ∀ v, copyAt s' kh v d = copyAt s kh v d) :
    Trusted C key s' kh r where
  held := by
    obtain ⟨d, hd, hcopy⟩ := h.held
    exact ⟨d, hd, (hsame d hd _).trans hcopy⟩
  newest d hd v r' hcopy := h.newest d hd v r' ((hsame d hd v).symm.trans hcopy)
  copy d hd r' hcopy := h.copy d hd r' ((hsame d hd _).symm.trans hcopy)
  vouched := by
    rw [vouchersAt_congr fun d hd => hsame d hd _]
    exact h.vouched
  others w hw := (h.others w hw).congr fun d hd => hsame d hd w

/-- The record that a plan leaves takes over as soon as a copy of it is in reach and enough copies vouch for it. -/
theorem Trusted.next (h : Trusted C key s kh r) (plan : RepairPlan)
    (hcopy : ∀ d ∈ C.attached, ∀ r', copyAt s' kh r.version d = some r' →
      (r' = plan.next r ∧ d ∈ (plan.next r).shards.map ShardLocation.device) ∨ copyAt s kh r.version d = some r')
    (hother : ∀ d v, v ≠ r.version → copyAt s' kh v d = copyAt s kh v d)
    (hheld : ∃ d ∈ C.attached, copyAt s' kh r.version d = some (plan.next r))
    (hvouch : r.k ≤ vouchersAt C s' kh (plan.next r)) : Trusted C key s' kh (plan.next r) := by
  obtain ⟨revision, shards, hnext, hle, hmore⟩ := nextRecord_same r plan.relocations
  have hrevision : r.revision ≤ (plan.next r).revision := by
    rw [RepairPlan.next, hnext]
    exact hle
  have hkey : r.key = key := by
    obtain ⟨d, hd, hheads⟩ := h.held
    exact (h.copy d hd r hheads).1
  refine ⟨⟨by rwa [plan.next_version], fun d hd v r' hcopy' => ?_, fun d hd r' hcopy' => ?_⟩, ?_, fun w hw => ?_⟩
  · rw [plan.next_version]
    by_cases hv : v = r.version
    · exact hv.le
    · exact h.newest d hd v r' ((hother d v hv).symm.trans hcopy')
  · rw [plan.next_version] at hcopy'
    rcases hcopy d hd r' hcopy' with ⟨rfl, hmem⟩ | hold
    · exact ⟨by rw [RepairPlan.next, hnext]; exact hkey, .inr ⟨rfl, hmem⟩⟩
    · obtain ⟨hkey', hlt | ⟨rfl, hmem⟩⟩ := h.copy d hd r' hold
      · exact ⟨hkey', .inl (hlt.trans_le hrevision)⟩
      · refine ⟨hkey', ?_⟩
        by_cases hnil : plan.relocations = []
        · have hsame : plan.next r' = r' := by rw [RepairPlan.next, hnil]; rfl
          rw [hsame]
          exact .inr ⟨rfl, hmem⟩
        · left
          rw [RepairPlan.next, hnext, hmore hnil]
          exact Nat.lt_succ_self _
  · have hk : (plan.next r).k = r.k := by
      rw [RepairPlan.next, hnext]
    rw [hk]
    exact hvouch
  · rw [plan.next_version] at hw
    exact (h.others w hw).congr fun d _ => hother d w hw

theorem Trusted.vouchers_next (h : Trusted C key s kh r) (plan : RepairPlan)
    (hkept : ∀ d ∈ C.attached, ∀ r', copyAt s kh r.version d = some r' →
      copyAt s' kh r.version d = some r' ∨ copyAt s' kh r.version d = some (plan.next r)) :
    r.k ≤ vouchersAt C s' kh (plan.next r) := by
  have hback := sameBody_symm (nextRecord_sameBody r plan.relocations)
  refine h.vouched.trans (List.countP_mono_left fun d hd hv => ?_)
  rw [plan.next_version]
  obtain ⟨r', hcopy, hvouch⟩ := (Option.any_eq_true _ _).mp hv
  rcases hkept d hd r' hcopy with hsame | hnew
  · rw [hsame, Option.any_some, Bool.or_eq_true]
    right
    rw [Bool.or_eq_true, beq_iff_eq] at hvouch
    rcases hvouch with hrev | hbody
    · rcases (h.copy d hd r' hcopy).2 with hlt | ⟨rfl, _⟩
      · exact absurd hrev hlt.ne
      · exact hback
    · exact sameBody_trans hback hbody
  · rw [hnew, Option.any_some, beq_self_eq_true, Bool.true_or]

theorem vouchers_of_devices {now : MetadataRecord} {ds : List DeviceId} (hnodup : ds.Nodup)
    (h : ∀ d ∈ ds, d ∈ C.attached ∧ copyAt s kh now.version d = some now) : ds.length ≤ vouchersAt C s kh now := by
  rw [vouchersAt, List.countP_eq_length_filter]
  refine (List.subperm_of_subset hnodup fun d hd => List.mem_filter.mpr ⟨(h d hd).1, ?_⟩).length_le
  rw [(h d hd).2, Option.any_some, beq_self_eq_true, Bool.true_or]

theorem Cluster.MembersOnly.attached (hC : C.MembersOnly) {d : DeviceId} {n : NodeId} (hd : d ∈ C.opened n) :
    d ∈ C.attached := by
  obtain ⟨m, hm, rfl⟩ := hC n (List.ne_nil_of_mem hd)
  exact List.mem_flatMap.mpr ⟨m, hm, hd⟩

end Next

/-! ## The stages of a repair -/

/-- A shard on a device out of service never goes to a device with a stale copy: none is active, none is needed, or the
object has shards of its own to vouch for it. -/
def Spared (C : Cluster) (s : Store) (r : MetadataRecord) (body : Bytes) : Prop :=
  body ≠ [] ∨ lostShards C r = [] ∨
    ∀ d, StaleOn C s r.keyHash r d → (C.document.device d).map DeviceEntry.state ≠ some .active

section Stages

variable {X : Crates} {C : Cluster} {key : String} {s s₁ s' : Store} {scheme : Scheme}
  {r : MetadataRecord} {body : Bytes} {plan : RepairPlan} {faults : Prop}

section Written

variable {s₂ : Store} (hfilled : plan.Filled X C scheme r body s s₁)
  (hwriting : Writing (plan.next r) plan.devices s₁ s₂)

include hfilled hwriting

theorem writing_record (d : DeviceId) : s₂.getRecord d r.keyHash r.version = s.getRecord d r.keyHash r.version ∨
    d ∈ plan.devices ∧ s₂.getRecord d r.keyHash r.version = some (.ok (plan.next r)) := by
  have hrec := hwriting.record (d := d)
  rw [plan.next_keyHash, plan.next_version, Within.record hfilled.filling d] at hrec
  exact hrec

theorem writing_other (d : DeviceId) (v : VersionId) (hv : v ≠ r.version) :
    s₂.getRecord d r.keyHash v = s.getRecord d r.keyHash v := by
  have hne : (r.keyHash, v) ≠ (r.keyHash, r.version) := fun heq => hv (congrArg Prod.snd heq)
  rw [Within.otherRecord hwriting _ _ _ (by rwa [plan.next_keyHash, plan.next_version]),
    Within.otherRecord hfilled.filling _ _ _ hne]

omit hfilled in
theorem writing_shard (d : DeviceId) (i : ℕ) : s₂.getShard d r.keyHash r.version i =
    s₁.getShard d r.keyHash r.version i := by
  have hsh := Within.shard hwriting d i
  rwa [plan.next_keyHash, plan.next_version] at hsh

end Written

theorem Spared.fresh (h : Spared C s r body) (hfits : plan.Fits faults X C s scheme r body) (hnil : body = []) :
    ∀ p ∈ plan.relocations, ¬ StaleOn C s r.keyHash r p.2 := by
  intro p hp hstale
  rcases h with hne | hlost | hidle
  · exact hne hnil
  · have hmem : p.1 ∈ lostShards C r := hfits.relocation.indices ▸ List.mem_map_of_mem hp
    rw [hlost] at hmem
    cases hmem
  · exact hidle _ hstale (hfits.relocation.active p hp).2

variable (hlib : ReedSolomonCode.Lawful X.reedSolomon scheme) (hd : Describes X key r scheme body)

include hlib hd

theorem shardAt_improves
    (h : ∀ i d, r.deviceFor i = some d → s'.getShard d r.keyHash r.version i = s.getShard d r.keyHash r.version i ∨
      body ≠ [] ∧ ∃ file, s'.getShard d r.keyHash r.version i = some (.ok file) ∧ Encoded X scheme r body i file) :
    Improves X C scheme r body s s' := by
  intro i
  cases hdev : r.deviceFor i with
  | none => exact .inl (by simp [shardAt, hdev])
  | some d =>
    rcases h i d hdev with hsame | ⟨hne, file, hfile, henc⟩
    · exact .inl (by simp only [shardAt, hdev, Option.bind_some, hsame])
    · cases he : C.document.device d with
      | none => exact .inl (by simp [shardAt, hdev, he])
      | some e =>
        by_cases hopen : d ∈ C.opened e.node
        · refine .inr ⟨file, by simp [shardAt, hdev, he, hopen, hfile], (henc.isShard hlib hd.valid.blockSize.1
            hd.size_eq hne ?_).2⟩
          exact hd.scheme_facts.2.1 _ (MetadataRecord.exists_shard hdev)
        · exact .inl (by simp [shardAt, hdev, he, hopen])

section Plan

variable (hfits : plan.Fits faults X C s scheme r body)

include hfits

theorem RepairPlan.Fits.improves (hrel : Reliable X C s scheme r body)
    (hfill : Filling X C scheme r body s plan.targets s₁)
    (hsame : ∀ d i, s'.getShard d r.keyHash r.version i = s₁.getShard d r.keyHash r.version i) :
    Improves X C scheme r body s s' := by
  refine shardAt_improves hlib hd fun i d _ => ?_
  rw [hsame]
  rcases Within.shard hfill d i with heq | ⟨htarget, file, hfile, hbuilt⟩
  · exact .inl heq
  · refine .inr ⟨fun hnil => ?_, file, hfile, hbuilt hrel⟩
    rw [hfits.empty hnil] at htarget
    cases htarget

theorem Reads.filling (h : Reads X C s key scheme r body) (hfill : Filling X C scheme r body s plan.targets s₁)
    (hshard : ∀ d i, s'.getShard d r.keyHash r.version i = s₁.getShard d r.keyHash r.version i)
    (hrecord : ∀ d ∈ C.attached, ∀ v, s'.getRecord d (X.hashKey key) v = s.getRecord d (X.hashKey key) v) :
    Reads X C s' key scheme r body := by
  refine h.improve hlib (hfits.improves hlib hd h.detected.reliable hfill hshard) (fun d hd' v e => ?_)
    (h.trusted.congr fun d hd' v => ?_)
  · rw [hrecord d hd']
    exact h.readable d hd' v e
  · rw [copyAt, copyAt, hrecord d hd']

variable (hfilled : plan.Filled X C scheme r body s s₁)

include hfilled

section Placed

variable (hshard : ∀ d i, s'.getShard d r.keyHash r.version i = s₁.getShard d r.keyHash r.version i ∨
      d ∈ plan.gone ∧ s'.getShard d r.keyHash r.version i = none)

include hshard

theorem RepairPlan.Fits.shard_next (hne : body ≠ []) (hrel : Reliable X C s scheme r body) {i : ℕ} {file : ShardFile}
    (hfile : shardAt C (plan.next r) s' i = some file) : IsShard X scheme r body i file ∨
      wholeShard X C s scheme r body i = true ∧ streamAt C s r (stripeCount scheme r body) i = some file := by
  have hdesc' := hfits.relocation.describes hd
  obtain ⟨d, hdev, hget⟩ := shardAt_getShard hfile
  have hi : i < scheme.totalShards := hdesc'.scheme_facts.2.1 _ (MetadataRecord.exists_shard hdev)
  rw [plan.next_keyHash, plan.next_version] at hget
  have hget₁ : s₁.getShard d r.keyHash r.version i = some (.ok file) := by
    rcases hshard d i with hsame | ⟨_, hnone⟩
    · exact hsame.symm.trans hget
    · cases hnone.symm.trans hget
  by_cases htarget : (i, d) ∈ plan.targets
  · obtain ⟨file', hfile', hbuilt⟩ := hfilled.shard _ htarget
    cases hfile'.symm.trans hget₁
    exact .inl ((hbuilt hrel).isShard hlib hd.valid.blockSize.1 hd.size_eq hne hi).2
  · have hwhole := hfits.kept hne i hi fun d' hmem => htarget (by
      rw [← Option.some.inj ((hfits.target _ hmem).2.1.symm.trans hdev)]
      exact hmem)
    obtain ⟨d', file', hmem, hin, hstream, hold⟩ := wholeShard_placed hd hwhole
    obtain rfl : d = d' := Option.some.inj (hdev.symm.trans (hfits.keeps hd hmem hin :))
    rcases Within.shard hfilled.filling d i with heq | ⟨hin', _⟩
    · cases (heq.trans hold).symm.trans hget₁
      exact .inr ⟨hwhole, hstream⟩
    · exact absurd hin' htarget

theorem RepairPlan.Fits.usable_next (hne : body ≠ []) (hrel : Reliable X C s scheme r body) {i t : ℕ}
    (ht : t < stripeCount scheme r body) (hwhole : wholeShard X C s scheme r body i = true) :
    usable X C s' scheme (plan.next r) body t i = true := by
  obtain ⟨revision, shards, hnext, _⟩ := nextRecord_same r plan.relocations
  obtain ⟨d, file, hmem, hin, hstream, hold⟩ := wholeShard_placed hd hwhole
  have hdev := hfits.keeps hd hmem hin
  -- The file is there, on a device that its owner has opened and that is not cleared.
  have hgone : d ∉ plan.gone := fun hgone => ((hfits.removed d).mp hgone).1.2.2 (List.mem_map_of_mem hmem)
  obtain ⟨file', hget⟩ : ∃ file', s'.getShard d r.keyHash r.version i = some (.ok file') := by
    rcases hshard d i with hsame | ⟨hin', _⟩
    · rcases Within.shard hfilled.filling d i with heq | ⟨_, file', hfile', _⟩
      · exact ⟨file, hsame.trans (heq.trans hold)⟩
      · exact ⟨file', hsame.trans hfile'⟩
    · exact absurd hin' hgone
  have hfile : shardAt C (plan.next r) s' i = some file' := by
    obtain ⟨owner, howner⟩ := Option.isSome_iff_exists.mp (inService_iff.mp hin)
    obtain ⟨hopen, _⟩ := (streamAt_eq_some (hd.deviceFor_shard hmem) howner).mp hstream
    obtain ⟨e, he, _, rfl⟩ := ownerInService_eq_some.mp howner
    have hdev' : (plan.next r).deviceFor i = some d := hdev
    simp [shardAt, hdev', he, hopen, plan.next_keyHash, plan.next_version, hget]
  rcases hfits.shard_next hlib hd hfilled hshard hne hrel hfile with hshard | ⟨_, hstream'⟩
  · have hshard' : IsShard X scheme (plan.next r) body i file' := by
      rw [RepairPlan.next, hnext]
      exact ⟨hshard.count, hshard.block⟩
    exact hshard'.usable hlib hfile (by rw [RepairPlan.next, hnext]; exact ht)
  · obtain ⟨file₀, hfile₀, hall⟩ := wholeShard_eq_true.mp hwhole
    cases hfile₀.symm.trans hstream'
    rw [usable, hfile]
    rw [RepairPlan.next, hnext]
    exact hall t ht

/-- **Read through the next record.** The shards are in place, and the record of the plan can be trusted. -/
theorem Reads.next (h : Reads X C s key scheme r body)
    (hgood : ∀ d ∈ C.attached, Undamaged s' (X.hashKey key) d)
    (htrust : Trusted C key s' (X.hashKey key) (plan.next r)) : Reads X C s' key scheme (plan.next r) body := by
  have hrel := h.detected.reliable
  obtain ⟨revision, shards, hnext, _⟩ := nextRecord_same r plan.relocations
  have hcount : stripeCount scheme (plan.next r) body = stripeCount scheme r body := by rw [RepairPlan.next, hnext]; rfl
  have hne : ∀ {t}, t < stripeCount scheme (plan.next r) body → body ≠ [] := fun ht hnil => by
    rw [hcount, hd.stripeCount_nil hnil] at ht
    cases ht
  have hfound := fun {i file} (hb : body ≠ []) => @RepairPlan.Fits.shard_next X C key s s₁ s' scheme r body plan
    faults hlib hd hfits hfilled hshard hb hrel i file
  refine ⟨h.allowed, hgood, htrust, fun i file t hfile ht hlen hsum => ?_, fun t ht =>
    ?_, fun t ht i hi file hfile => ⟨?_, trivial⟩⟩
  · have hstripe : stripeOf scheme (plan.next r) body t = stripeOf scheme r body
      t := by rw [RepairPlan.next, hnext]; rfl
    rw [hstripe] at hlen ⊢
    rcases hfound (hne ht) hfile with hgood | ⟨_, hstream⟩
    · obtain ⟨b, hb, hblock⟩ := hgood.block t (hcount ▸ ht)
      rw [hblock]
      exact hb
    · exact h.detected i file t (streamAt_shardAt hstream) (hcount ▸ ht) hlen hsum
  · rw [usableAmong_all]
    refine (hfilled.enough hrel (hne ht)).trans (List.countP_mono_left fun i _ hwhole => ?_)
    exact hfits.usable_next hlib hd hfilled hshard (hne ht) hrel (hcount ▸ ht) hwhole
  · rw [hcount]
    rcases hfound (hne ht) hfile with hgood | ⟨hwhole, hstream⟩
    · exact hgood.count.ge
    · exact wholeShard_long hwhole (streamAt_shardAt hstream)

/-- **The next record takes over** once a copy of it is in reach and enough copies vouch for it: what is in its place is
as it was, that record, or gone. -/
theorem Reads.takeOver (h : Reads X C s key scheme r body)
    (hrec : ∀ d, s'.getRecord d r.keyHash r.version = s.getRecord d r.keyHash r.version ∨
      (d ∈ plan.devices ∧ s'.getRecord d r.keyHash r.version = some (.ok (plan.next r))) ∨
      s'.getRecord d r.keyHash r.version = none)
    (hother : ∀ d v, v ≠ r.version → s'.getRecord d r.keyHash v = s.getRecord d r.keyHash v)
    (hheld : ∃ d ∈ C.attached, copyAt s' r.keyHash r.version d = some (plan.next r))
    (hvouch : r.k ≤ vouchersAt C s' r.keyHash (plan.next r)) : Reads X C s' key scheme (plan.next r) body := by
  have hkh := hd.keyHash_eq
  refine h.next hlib hd hfits hfilled hshard (fun d hd' v e => ?_) ?_
  · rw [← hkh]
    by_cases hv : v = r.version
    · subst hv
      rcases hrec d with hsame | ⟨_, hnew⟩ | hnone
      · rw [hsame, hkh]
        exact h.readable d hd' _ e
      · rw [hnew]
        nofun
      · rw [hnone]
        nofun
    · rw [hother d v hv, hkh]
      exact h.readable d hd' v e
  · have htrust := h.trusted
    rw [← hkh] at htrust ⊢
    refine htrust.next plan (fun d hd' r' hcopy => ?_)
      (fun d v hv => by rw [copyAt, copyAt, hother d v hv]) hheld hvouch
    rcases hrec d with hsame | ⟨hdev, hnew⟩ | hnone
    · exact .inr (by rw [← hcopy, copyAt, copyAt, hsame])
    · cases (copyAt_eq_some.mpr hnew).symm.trans hcopy
      exact .inl ⟨rfl, ((hfits.device d).mp hdev).1⟩
    · rw [copyAt, hnone] at hcopy
      cases hcopy

end Placed

theorem Reads.writing (h : Reads X C s key scheme r body) (hwriting : Writing (plan.next r) plan.devices s₁ s') :
    ∃ now, Describes X key now scheme body ∧ Reads X C s' key scheme now body := by
  have hkh := hd.keyHash_eq
  have hrec := writing_record hfilled hwriting
  have hother := writing_other hfilled hwriting
  have hshard := writing_shard hwriting
  by_cases hheld : ∃ d ∈ C.attached, copyAt s' r.keyHash r.version d = some (plan.next r)
  · have htrust := h.trusted
    rw [← hkh] at htrust
    refine ⟨plan.next r, hfits.relocation.describes hd, h.takeOver hlib hd hfits hfilled (fun d i => .inl (hshard d i))
      (fun d => (hrec d).imp id .inl) hother hheld (htrust.vouchers_next plan fun d hd' r' hcopy => ?_)⟩
    rcases hrec d with hsame | ⟨_, hnew⟩
    · exact .inl (by rw [← hcopy, copyAt, copyAt, hsame])
    · exact .inr (copyAt_eq_some.mpr hnew)
  · refine ⟨r, hd, h.filling hlib hd hfits hfilled.filling hshard fun d hd' v => ?_⟩
    rw [← hkh]
    by_cases hv : v = r.version
    · subst hv
      rcases hrec d with hsame | ⟨_, hnew⟩
      · exact hsame
      · exact absurd ⟨d, hd', copyAt_eq_some.mpr hnew⟩ hheld
    · exact hother d v hv

omit hlib in
/-- Enough devices keep the record while stale copies are removed: those of the whole shards, or all if there are no
shards. -/
theorem RepairPlan.Fits.keepers (hC : C.MembersOnly) (hspared : Spared C s r body) (hrel : Reliable X C s scheme r body)
    {s₂ : Store} (hwritten : ∀ d ∈ plan.devices, InReach C d ∧
      s₂.getRecord d (plan.next r).keyHash (plan.next r).version = some (.ok (plan.next r))) :
    ∃ ds : List DeviceId, ds.Nodup ∧ r.k ≤ ds.length ∧
      ∀ d ∈ ds, d ∈ C.attached ∧ d ∈ (plan.next r).shards.map ShardLocation.device ∧ d ∉ plan.gone := by
  have hdesc' : Describes X key (plan.next r) scheme body := hfits.relocation.describes hd
  by_cases hne : body = []
  · refine ⟨(plan.next r).shards.map ShardLocation.device, hdesc'.valid.devices, ?_, fun d hmem => ⟨?_, hmem, ?_⟩⟩
    · rw [List.length_map, hdesc'.scheme_facts.1, hd.k_eq.1]
      exact scheme.data_le_total
    · by_cases hdev : d ∈ plan.devices
      · obtain ⟨e, _, hopen⟩ := (hwritten d hdev).1
        exact hC.attached hopen
      · by_contra hnot
        exact hdev ((hfits.device d).mpr ⟨hmem, fun hcopy => hnot hcopy.1⟩)
    · exact hfits.not_gone (hspared.fresh hfits hne) hmem
  · refine ⟨(r.shards.filter fun sh => wholeShard X C s scheme r body sh.index).map ShardLocation.device,
      (List.filter_sublist.map _).nodup hd.valid.devices, ?_, fun d hmem => ?_⟩
    · rw [List.length_map, ← List.countP_eq_length_filter, ← hd.countP_indices, hd.k_eq.1]
      exact hfilled.enough hrel hne
    · obtain ⟨sh, hsh, rfl⟩ := List.mem_map.mp hmem
      obtain ⟨hlisted, hwhole⟩ := List.mem_filter.mp hsh
      obtain ⟨d, file, hmem', hin, hstream, _⟩ := wholeShard_placed hd hwhole
      obtain rfl : sh.device = d := Option.some.inj ((hd.deviceFor_shard hlisted).symm.trans
        (hd.deviceFor_shard hmem' :))
      obtain ⟨owner, howner⟩ := Option.isSome_iff_exists.mp (inService_iff.mp hin)
      obtain ⟨hopen, _⟩ := (streamAt_eq_some (hd.deviceFor_shard hlisted) howner).mp hstream
      refine ⟨hC.attached hopen, hfits.listed_next hd (List.mem_map_of_mem hlisted) hin, fun hgone => ?_⟩
      exact ((hfits.removed _).mp hgone).1.2.2 (List.mem_map_of_mem hlisted)

theorem Reads.dropping (h : Reads X C s key scheme r body) (hC : C.MembersOnly) (hspared : Spared C s r body)
    {s₂ : Store} (hwriting : Writing (plan.next r) plan.devices s₁ s₂)
    (hwritten : ∀ d ∈ plan.devices, InReach C d ∧
      s₂.getRecord d (plan.next r).keyHash (plan.next r).version = some (.ok (plan.next r)))
    (hdropping : Dropping (plan.next r).keyHash (plan.next r).version plan.gone s₂ s') :
    Reads X C s' key scheme (plan.next r) body := by
  obtain ⟨ds, hnodup, hlen, hkeep⟩ := hfits.keepers hd hfilled hC hspared h.detected.reliable hwritten
  rw [plan.next_keyHash, plan.next_version] at hdropping
  have hkept : ∀ d ∈ ds, d ∈ C.attached ∧ copyAt s' r.keyHash (plan.next r).version d = some (plan.next r) := by
    intro d hmem
    obtain ⟨hatt, hnext, hgone⟩ := hkeep d hmem
    refine ⟨hatt, copyAt_eq_some.mpr ?_⟩
    rw [plan.next_version]
    rcases Within.record hdropping d with hsame | ⟨hin, _⟩
    · exact hsame.trans (hfits.written hfilled hwriting hwritten hnext)
    · exact absurd hin hgone
  refine h.takeOver hlib hd hfits hfilled (fun d i => ?_) (fun d => ?_) (fun d v hv => ?_) ?_
    (hlen.trans (vouchers_of_devices hnodup hkept))
  · rw [← writing_shard hwriting]
    exact Within.shard hdropping d i
  · rcases Within.record hdropping d with hsame | ⟨_, hnone⟩
    · rw [hsame]
      exact (writing_record hfilled hwriting d).imp id .inl
    · exact .inr (.inr hnone)
  · have hne : (r.keyHash, v) ≠ (r.keyHash, r.version) := fun heq => hv (congrArg Prod.snd heq)
    rw [Within.otherRecord hdropping _ _ _ hne]
    exact writing_other hfilled hwriting d v hv
  · obtain ⟨d, hmem⟩ := List.exists_mem_of_length_pos (hd.k_pos.trans_le hlen)
    obtain ⟨hatt, hcopy⟩ := hkept d hmem
    rw [plan.next_version] at hcopy
    exact ⟨d, hatt, hcopy⟩

end Plan

/-- **Every stage of a repair** leaves the object readable. -/
theorem Reads.running (h : Reads X C s key scheme r body) (hC : C.MembersOnly) (hspared : Spared C s r body)
    (hrun : RepairRunning faults X C scheme r body s s') : ∃ now, Describes X key now scheme body ∧
    Reads X C s' key scheme now body := by
  rcases hrun with rfl | ⟨plan, hfits, hfill | ⟨s₁, hfilled, hwriting | ⟨s₂, hwriting, hwritten, hdropping⟩⟩⟩
  · exact ⟨r, hd, h⟩
  · refine ⟨r, hd, h.filling hlib hd hfits hfill (fun _ _ => rfl) fun d _ v => ?_⟩
    rw [← hd.keyHash_eq]
    by_cases hv : v = r.version
    · rw [hv]
      exact Within.record hfill d
    · exact Within.otherRecord hfill d _ v fun heq => hv (congrArg Prod.snd heq)
  · exact h.writing hlib hd hfits hfilled hwriting
  · exact ⟨_, hfits.relocation.describes hd, h.dropping hlib hd hfits hfilled hC hspared hwriting hwritten hdropping⟩

end Stages

/-! ## Whole runs -/

/-- Every request may fail, with or without effect; nobody else is at work. -/
abbrev strained : Sys Op Resp Store := ⟨Trying True, fun _ _ => False⟩

def repairer (X : Crates) (C : Cluster) (fuel : ℕ) (key : String) (s : Store) :
    Config Op Resp Store fun _ : Unit => Except ErrorDetail RepairReport :=
    ⟨s, fun _ => (repairObject X C fuel key).run⟩

/-- **A repair never makes an object worse.** From files that a read succeeds on, it succeeds with the same body
wherever the repair stops; and a repair that stops because of the damage has changed nothing. -/
theorem repair_never_worsens {X : Crates} {C : Cluster} {key : String} {s : Store} {scheme : Scheme}
    {r : MetadataRecord} {body : Bytes} (hlib : ReedSolomonCode.Lawful X.reedSolomon scheme)
    (hd : Describes X key r scheme body) (hC : C.MembersOnly) (hserves : Serves X C s key r body)
    (hdet : Detected X C s scheme r body) (hspared : Spared C s r body) {fuel : ℕ}
    (R : Run strained (repairer X C fuel key s)) {n : ℕ} (hn : n ≤ R.len) :
    (∃ now, Serves X C (R.store n) key now body) ∧
      ∀ e, (R.cfg n).pc () = .ret (.error e) → e.code = .blockChecksumMismatch ∨ e.code = .objectChecksumMismatch →
      R.store n = s := by
  have hreads := reads_of_serves hlib hd hdet hserves
  have hwp := Prog.Wp.of_run R (fun _ _ h => h)
    (repairObject_meets hlib hd (fun _ h => hreads.trusted.toHeads.unique h.toHeads) fuel) hn
  refine ⟨?_, fun e hpc hcode => ?_⟩
  · obtain ⟨now, hnow, hread⟩ := hreads.running hlib hd hC hspared hwp.inv
    exact ⟨now, hread.serves hlib hnow⟩
  · rw [hpc] at hwp
    rcases hwp.2.1 with hplain | hsame
    · rcases hcode with hcode | hcode
      · exact absurd hcode hplain.1
      · exact absurd hcode hplain.2
    · exact hsame

theorem trying_sound (faults : Prop) (o : Op) (s : Store) : Trying faults o s (exec o s).1 (exec o s).2 := .inl rfl

theorem byteStore_reads : Reads smallCrates twoDevices (byteStore [1]) "k" pair (byteRecord 1 0 [0, 1]) [7] := by
  have hheal : Healable smallCrates twoDevices (byteStore [1]) "k" pair (byteRecord 1 0 [0, 1]) [7] :=
    byteStore_replicas.healable (holding_isSome _ _) (by decide +kernel) (by decide +kernel) (by decide +kernel)
  refine ⟨rfl, byteStore_replicas.undamaged (by decide +kernel),
    ⟨hheal.remains.heads (by decide) rfl fun d hd hnot => ?_,
    hheal.remains.vouched, fun w hw d hd r hcopy => absurd (byteStore_replicas.copy hd hcopy).1 hw⟩,
    hheal.detected, by decide +kernel, fun t ht i _ file hfile => ⟨?_, trivial⟩⟩
  · rw [small_attached] at hd
    exact absurd hd hnot
  · obtain ⟨_, rfl⟩ := byteStore_replicas.shard hfile
    have hcount : stripeCount pair (byteRecord 1 0 [0, 1]) [7] = 1 := by decide +kernel
    exact hcount.le

/-- The data shard is written again, and the object can be read all along. -/
theorem repair_never_worsens_replica : ∃ R : Run strained (repairer smallCrates twoDevices 9 "k" (byteStore [1])),
    (∃ report, (R.cfg R.len).pc () = .ret (.ok report)) ∧
      ∀ n ≤ R.len, ∃ now, Serves smallCrates twoDevices (R.store n) "k" now [7] := by
  have hlib : ReedSolomonCode.Lawful smallCrates.reedSolomon pair := fun _ => mirror_recovers 1
  have hd : Describes smallCrates "k" (byteRecord 1 0 [0, 1]) pair [7] := byte_describes 1 0 (by decide)
  have hplay : ((repairer smallCrates twoDevices 9 "k" (byteStore [1])).play exec (fun _ _ _ => true)
      ((repairer smallCrates twoDevices 9 "k" (byteStore [1])).turns exec [((), 60)])).map
        (fun c => (c.pc ()).result.map Except.isOk) = some (some true) := by decide +kernel
  obtain ⟨c, hplay, hc⟩ := Option.map_eq_some_iff.mp hplay
  obtain ⟨R, rfl, _⟩ := Config.play_start (S := strained) exec (trying_sound True) hplay
  refine ⟨R, ?_, fun n hn => ?_⟩
  · obtain ⟨res, hres, hisok⟩ := Option.map_eq_some_iff.mp hc
    cases res with
    | error e => cases hisok
    | ok report => exact ⟨report, Prog.result_eq hres⟩
  · exact (repair_never_worsens hlib hd (small_membersOnly 1 _) (byteStore_reads.serves hlib hd)
      byteStore_reads.detected (.inl (by decide)) R hn).1

/-- An empty object of two shards and no parity, first on devices 2 and 1, then on 0 and 1; device 2 kept its copy, and
device 0 was removed. -/
def sparseRecord (revision : ℕ) (devices : List DeviceId) : MetadataRecord :=
  { smallRecord 1 revision devices with k := 2, m := 0 }

def sparseStore : Store := holding [⟨1, sparseRecord 1 [0, 1]⟩, ⟨2, sparseRecord 0 [2, 1]⟩]

theorem double_lawful : ReedSolomonCode.Lawful smallCrates.reedSolomon double := fun h => absurd h (by decide)

theorem sparse_describes : Describes smallCrates "k" (sparseRecord 1 [0, 1]) double [] where
  valid := {
    system := rfl
    contentType := Nat.zero_le _
    formatVersion := rfl
    keyHash := rfl
    scheme := ⟨double, rfl, rfl, by decide, fun index hi => by
      change index ∈ [0, 1]
      have : index < 2 := hi
      interval_cases index <;> decide⟩
    blockSize := by decide
    indices := by decide
    devices := by decide }
  key_eq := rfl
  scheme_eq := rfl
  size_eq := rfl
  checksum_eq := rfl

theorem sparseStore_copy {d : DeviceId} (hd : d ∈ staleDevices.attached) {v : VersionId} {r : MetadataRecord}
    (h : copyAt sparseStore (smallCrates.hashKey "k") v d = some r) :
    v = 1 ∧ (d = 1 ∧ r = sparseRecord 1 [0, 1] ∨ d = 2 ∧ r = sparseRecord 0 [2, 1]) :=
  two_copies (by decide +kernel) (by decide +kernel) hd h

theorem sparseStore_reads : Reads smallCrates staleDevices sparseStore "k" double (sparseRecord 1 [0, 1]) [] := by
  have hnone : ∀ {t : ℕ}, ¬ t < stripeCount double (sparseRecord 1 [0, 1]) [] := by
    rw [sparse_describes.stripeCount_nil rfl]
    exact Nat.not_lt_zero _
  refine ⟨rfl, fun d hd v e hbad => ?_, ⟨⟨⟨1, by decide +kernel, by decide +kernel⟩, fun d hd v r h =>
    (sparseStore_copy hd h).1.le, fun d hd r h => ?_⟩, by decide +kernel, fun w hw d hd r h => absurd (sparseStore_copy
    hd h).1 hw⟩, fun _ _ _ _ ht => absurd ht hnone, fun _ ht => absurd ht hnone, fun _ ht => absurd ht hnone⟩
  · rw [small_attached] at hd
    have hgood : ∀ d ∈ List.range 3, (sparseStore.versions d (smallCrates.hashKey "k")).all
        fun v => (sparseStore.getRecord d (smallCrates.hashKey "k") v).all Except.isOk := by decide +kernel
    have hok := List.all_eq_true.mp (hgood d hd) v (Store.mem_versions.mpr (by rw [hbad]; rfl))
    rw [hbad] at hok
    cases hok
  · rcases (sparseStore_copy hd h).2 with ⟨rfl, rfl⟩ | ⟨rfl, rfl⟩
    · exact ⟨rfl, .inr ⟨rfl, by decide⟩⟩
    · exact ⟨rfl, .inl (by decide)⟩

/-- The stale copy vouches for the object until the repair has placed the lost shard beside it and removed both. -/
theorem repair_worsens_empty : Serves smallCrates staleDevices sparseStore "k" (sparseRecord 1 [0, 1]) [] ∧
    ∃ R : Run strained (repairer smallCrates staleDevices 9 "k" sparseStore),
      ∀ now, ¬ Serves smallCrates staleDevices R.final "k" now [] := by
  refine ⟨sparseStore_reads.serves double_lawful sparse_describes, ?_⟩
  have hplay : ((repairer smallCrates staleDevices 9 "k" sparseStore).play exec (fun _ _ _ => true)
      ((repairer smallCrates staleDevices 9 "k" sparseStore).turns exec [((), 60)])).map
        (fun c => ((List.range 3).map fun d => c.store.versions d (smallCrates.hashKey "k"),
          (List.range 3).map (copyAt c.store (smallCrates.hashKey "k") 1),
          vouchersAt staleDevices c.store (smallCrates.hashKey "k") (sparseRecord 2 [2, 1]))) =
      some ([[], [1], []], [none, some (sparseRecord 2 [2, 1]), none], 1) := by decide +kernel
  obtain ⟨c, hplay, hc⟩ := Option.map_eq_some_iff.mp hplay
  obtain ⟨R, rfl, _⟩ := Config.play_start (S := strained) exec (trying_sound True) hplay
  refine ⟨R, fun now hserves => ?_⟩
  change ((List.range 3).map fun d => R.final.versions d _, (List.range 3).map (copyAt R.final _ 1),
    vouchersAt staleDevices R.final _ _) = _ at hc
  simp only [Prod.mk.injEq] at hc
  obtain ⟨hversions, hcopies, hvouch⟩ := hc
  have htrust := (serves_trusted hserves).2.2.1
  obtain ⟨d, hd, hcopy⟩ := htrust.held
  rw [small_attached] at hd
  have hversion : now.version = 1 := by
    refine copyAt_version ?_ hcopy
    have hmem : R.final.versions d (smallCrates.hashKey "k") ∈
        (List.range 3).map fun d => R.final.versions d (smallCrates.hashKey "k") := List.mem_map_of_mem hd
    rw [hversions] at hmem
    exact (by decide : ∀ vs ∈ ([[], [1], []] : List (List VersionId)), vs ∈ ([[], [1]] : List (List VersionId))) _ hmem
  have hnow : now = sparseRecord 2 [2, 1] := by
    have hmem : some now ∈ (List.range 3).map (copyAt R.final (smallCrates.hashKey "k") 1) :=
      hcopy ▸ hversion ▸ List.mem_map_of_mem hd
    rw [hcopies] at hmem
    simpa using hmem
  have hk := htrust.vouched
  rw [hnow, hvouch] at hk
  exact absurd hk (by decide)

end Djbod
