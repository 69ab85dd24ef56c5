import Djbod.Node.Footprint
import Djbod.Node.LookupTrace

/-!
# What events say about the store

* `Executed σ es` : the events were executed while the store went through the states `σ`;
* `Executed.readOk`, `Executed.notListed` : a record that was read was there, one that was not listed was not;
* `Copies C kh s located` : `located` is what the attached devices hold under the key hash in `s`;
* `lookupReachable_wp` : a lookup that runs alone returns exactly that, given pages enough.
-/

namespace Djbod

open Sched

/-- The events were executed, each at its moment. -/
def Executed (σ : ℕ → Store) (es : List (Ev Op Resp)) : Prop :=
  ∀ e ∈ es, Exec e.op (σ e.time) e.resp (σ (e.time + 1))

def Up (C : Cluster) (s : Store) : Prop := ∀ d ∈ C.attached, (s.disk d).isSome

/-- Every record file under the key hash on an attached device can be read. -/
def Readable (C : Cluster) (kh : KeyHash) (s : Store) : Prop :=
  ∀ d ∈ C.attached, ∀ v e, s.getRecord d kh v ≠ some (.error e)

theorem Store.versions_nodup (s : Store) (d : DeviceId) (kh : KeyHash) : (s.versions d kh).Nodup := by
  unfold Store.versions
  cases s.disk d with
  | none => exact List.nodup_nil
  | some disk =>
    refine List.Nodup.map_on ?_ (disk.records.keys_nodup.filter _)
    rintro ⟨kh₁, v₁⟩ h₁ ⟨kh₂, v₂⟩ h₂ hv
    have hk₁ : kh₁ = kh := by simpa using (List.mem_filter.mp h₁).2
    have hk₂ : kh₂ = kh := by simpa using (List.mem_filter.mp h₂).2
    rw [hk₁, hk₂]
    exact congrArg (Prod.mk kh) hv

variable {X : Crates} {C : Cluster} {kh : KeyHash} {es : List (Ev Op Resp)} {σ : ℕ → Store} {s : Store}

theorem Up.exec (h : Up C s) (o : Op) : Up C (exec o s).2 := fun d hd => by rw [exec_isSome]; exact h d hd

namespace Executed

theorem mono {es' : List (Ev Op Resp)} (h : Executed σ es) (hsub : es' ⊆ es) :
    Executed σ es' := fun e he => h e (hsub he)

theorem calm (h : Executed σ es) (hup : ∀ e ∈ es, Up C (σ e.time)) : Calm C kh es where
  listing n d r hd he := by
    have hx := h _ he
    simp only [Exec, exec, Prod.mk.injEq, onDevice, hup _ he d hd, if_true] at hx
    exact ⟨_, hx.1, Store.versions_nodup _ _ _⟩
  record n d v r he := by
    have hx := congrArg Prod.fst (h _ he)
    simp only [exec] at hx
    cases hr : (σ n).getRecord d kh v with
    | none => rw [hr] at hx; cases hx
    | some file =>
      cases file with
      | error e => rw [hr] at hx; cases hx
      | ok r' =>
        rw [hr] at hx
        cases hx
        exact (Store.getRecord_filed hr).symm
  failure n d v e he := by
    have hx := congrArg Prod.fst (h _ he)
    simp only [exec] at hx
    cases hr : (σ n).getRecord d kh v with
    | none => rw [hr] at hx; cases hx; simp [deviceErrorDetail, ErrorDetail.new]
    | some file =>
      rw [hr] at hx
      cases file with
      | error e => cases hx; simp [deviceErrorDetail, ErrorDetail.new]
      | ok r' => cases hx
  connected n node r he := congrArg Prod.fst (h _ he)
  delivered n node r he := congrArg Prod.fst (h _ he)

theorem readOk (h : Executed σ es) {d : DeviceId} {v : VersionId} {r : MetadataRecord} (hr : ReadOk es d kh v r) :
    ∃ e ∈ es, (σ e.time).getRecord d kh v = some (.ok r) := by
  obtain ⟨n, he⟩ := hr
  refine ⟨_, he, ?_⟩
  have hx := congrArg Prod.fst (h _ he)
  simp only [exec] at hx
  cases hr : (σ n).getRecord d kh v with
  | none => rw [hr] at hx; cases hx
  | some file =>
    rw [hr] at hx
    cases file with
    | error e => cases hx
    | ok r' => cases hx; rfl

theorem listed (h : Executed σ es) {d : DeviceId} {vs : List VersionId} (hl : Listed es d kh vs) :
    ∃ e ∈ es, vs = (σ e.time).versions d kh := by
  obtain ⟨n, he⟩ := hl
  refine ⟨_, he, ?_⟩
  have hx := congrArg Prod.fst (h _ he)
  simp only [exec, onDevice] at hx
  split_ifs at hx
  exact Except.ok.inj hx

theorem notListed (h : Executed σ es) {d : DeviceId} {vs : List VersionId} (hl : Listed es d kh vs) {v : VersionId}
    (hv : v ∉ vs) : ∃ e ∈ es, (σ e.time).getRecord d kh v = none := by
  obtain ⟨e, he, rfl⟩ := h.listed hl
  refine ⟨e, he, ?_⟩
  rw [Store.mem_versions] at hv
  simpa using hv

end Executed

/-! ## A store that stays as it is -/

/-- What the attached devices hold under the key hash. -/
structure Copies (C : Cluster) (kh : KeyHash) (s : Store) (located : List LocatedRecord) : Prop where
  mem : ∀ c, c ∈ located ↔ c.device ∈ C.attached ∧ s.getRecord c.device kh c.record.version = some (.ok c.record)
  places : (located.map LocatedRecord.place).Nodup

def copyCount (C : Cluster) (kh : KeyHash) (s : Store) : ℕ := (C.attached.map fun d => (s.versions d kh).length).sum

theorem Runs.executed (h : ∀ e ∈ es, Runs exec e.op s e.resp s) : Executed (fun _ => s) es := by
  intro e he
  have hx := h e he
  have hsound := exec_sound e.op s
  rw [← hx] at hsound
  exact hsound

theorem Seen.copies {located : List LocatedRecord} (h : Seen es kh C.attached located) (hx : Executed (fun _ => s) es) :
    Copies C kh s located where
  mem c := by
    constructor
    · intro hc
      obtain ⟨hd, hr⟩ := h.read c hc
      obtain ⟨_, _, hs⟩ := hx.readOk hr
      exact ⟨hd, hs⟩
    · rintro ⟨hd, hs⟩
      rcases h.complete c.device hd c.record.version with ⟨c', hc', hdev, hver⟩ | ⟨vs, hl, hno⟩
      · obtain ⟨_, _, hs'⟩ := hx.readOk (h.read c' hc').2
        rw [hdev, hver, hs] at hs'
        have hrec : c.record = c'.record := Except.ok.inj (Option.some.inj hs')
        obtain rfl : c' = c := by
          cases c; cases c'
          simp_all
        exact hc'
      · obtain ⟨_, _, hnone⟩ := hx.notListed hl hno
        rw [hs] at hnone
        cases hnone
  places := h.places

/-- Copies that were read at different places are no more than there are. -/
theorem Crowded.le {fuel : ℕ} (h : Crowded C es kh fuel) (hx : Executed (fun _ => s) es) : fuel ≤ copyCount C kh s := by
  obtain ⟨recs, hlen, hnodup, hrecs⟩ := h
  have hsub : recs.map LocatedRecord.place ⊆
      C.attached.flatMap fun d => (s.versions d kh).map fun v => (toLex (v, d) : VersionId ×ₗ DeviceId) := by
    intro p hp
    obtain ⟨c, hc, rfl⟩ := List.mem_map.mp hp
    obtain ⟨_, _, hs⟩ := hx.readOk (hrecs c hc).2
    refine List.mem_flatMap.mpr ⟨c.device, (hrecs c hc).1, List.mem_map.mpr ⟨c.record.version, ?_, rfl⟩⟩
    rw [Store.mem_versions]
    exact hs ▸ rfl
  have hle := (hnodup.subperm hsub).length_le
  rw [List.length_map, List.length_flatMap] at hle
  simp only [List.length_map] at hle
  exact hlen.trans hle

theorem ReadFailed.notReadable (h : ReadFailed C es kh) (hx : Executed (fun _ => s) es) : ¬ Readable C kh s := by
  obtain ⟨d, hd, vs, hl, v, hv, n, e, he⟩ := h
  intro hread
  obtain ⟨_, _, rfl⟩ := hx.listed hl
  rw [Store.mem_versions] at hv
  have hev := congrArg Prod.fst (hx _ he)
  simp only [exec] at hev
  cases hr : s.getRecord d kh v with
  | none => rw [hr] at hv; cases hv
  | some file =>
    rw [hr] at hev
    cases file with
    | error e' => exact hread d hd v e' hr
    | ok r => cases hev

/-- **A lookup that runs alone** returns what the attached devices hold. It fails only if a file cannot be read or
it is not allowed enough pages. -/
theorem lookupReachable_wp (hup : Up C s) {I : Store → Prop} {Q : Except ErrorDetail Lookup → Store → Prop} {fuel : ℕ}
    (hI : I s) (hok : ∀ located, Copies C kh s located → Q (.ok ⟨located, unreadDevices X C, []⟩) s)
    (herr : ∀ e, (Readable C kh s → fuel ≤ copyCount C kh s) → Q (.error e) s) :
    (lookupReachable X C fuel kh).run.Wp (Runs exec) I Q s := by
  refine Prog.wp_readOnly (lookupReachable_uses (P := Op.Quiet) (fun _ h => h) fuel) hI ?_ fun es a ht hall => ?_
  · intro o hq r s' hx
    exact (congrArg Prod.snd hx).trans (exec_quiet hq s)
  · have hx := Runs.executed hall
    rcases lookupReachable_done (hx.calm fun _ _ => hup) ht with ⟨located, rfl, hseen⟩ | ⟨e, rfl, hfail⟩
    · exact hok located (hseen.copies hx)
    · refine herr e fun hread => ?_
      rcases hfail with hfail | hfail
      · exact absurd hread (hfail.notReadable hx)
      · exact hfail.le hx

theorem lookupReachable_store (X : Crates) (C : Cluster) (fuel : ℕ) (kh : KeyHash) (s : Store) :
    ((lookupReachable X C fuel kh).run.eval exec s).2 = s := by
  refine Prog.Wp.eval (p := (lookupReachable X C fuel kh).run) (I := fun _ => True) (Q := fun _ s' => s' = s)
    (Prog.wp_readOnly (lookupReachable_uses (P := Op.Quiet) (fun _ h => h) fuel) trivial ?_ fun _ _ _ _ => rfl)
  intro o hq r s' hx
  exact (congrArg Prod.snd hx).trans (exec_quiet hq s)

end Djbod
