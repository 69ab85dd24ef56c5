import Djbod.Node.Relocate
import Djbod.Node.Trusted

/-!
# The records of a repair

* `repairableRecord_meets` : the record a repair completes towards, or why there is none;
* `Writing`, `rewriteRecordCopies_meets` : a record written to some devices, one after the other;
* `Dropping`, `removeStaleCopies_meets` : a version removed from some devices;
* `Mending`, `mendRecords_meets` : both, in this order.
-/

namespace Djbod

open Sched

section Found

variable {X : Crates} {C : Cluster} {s : Store} {faults : Prop} {key : String}

/-- **The record to complete towards.** -/
theorem repairableRecord_meets (fuel : ℕ) : Prog.Meets (Trying faults) (· = s)
    (fun found _ => (Restorable C key s (X.hashKey key) found.record ∧ RepairFound C s (X.hashKey key) found) ∧
      ∀ d ∈ C.attached, Undamaged s (X.hashKey key) d)
    (fun _ _ => checkKey C key ≠ .ok () ∨ LookupFails faults C (X.hashKey key) s fuel ∨
      ∀ r, ¬ Restorable C key s (X.hashKey key) r) (repairableRecord X C fuel key) s := by
  unfold repairableRecord
  refine Prog.Meets.bind (Q := fun _ _ => True) ?_ ?_
  · cases hkey : checkKey C key with
    | error e => exact ⟨rfl, .inl nofun⟩
    | ok u => exact ⟨rfl, trivial⟩
  rintro _ s₁ _ rfl
  refine Prog.Meets.bind ((lookup_meets fuel).mono_error fun _ _ _ hE => .inr (.inl hE.2)) ?_
  rintro located s₂ ⟨hc, hgood⟩ rfl
  obtain ⟨hfound, hno⟩ := @repairable_restorable X C key s₂ (X.hashKey key) default located hc
  cases hrep : repairable X key located with
  | ok found => exact ⟨rfl, hfound found hrep, hgood⟩
  | error e =>
    refine ⟨rfl, .inr (.inr fun r hr => ?_)⟩
    obtain ⟨found, hok, _⟩ := (@repairable_restorable X C key s₂ (X.hashKey key) r located hc).2 hr
    rw [hrep] at hok
    cases hok

end Found

/-! ## Writing -/

/-- The records of a version while one is written to some devices. -/
def Writing (r : MetadataRecord) (ds : List DeviceId) (s : Store) : Store → Prop :=
  Within r.keyHash r.version s (fun d x => x = s.getRecord d r.keyHash r.version ∨ d ∈ ds ∧ x = some (.ok r))
    fun d i x => x = s.getShard d r.keyHash r.version i

def CanRecord (C : Cluster) (s : Store) (r : MetadataRecord) (d : DeviceId) : Prop :=
  ∃ e, C.document.device d = some e ∧ Accepts C s e.node d r

def InReach (C : Cluster) (d : DeviceId) : Prop := ∃ e, C.document.device d = some e ∧ d ∈ C.opened e.node

variable {d d' : DeviceId} {s₀ : Store}

section Write

variable {X : Crates} {C : Cluster} {s s' : Store} {faults : Prop} {r : MetadataRecord} {ds all : List DeviceId}

theorem Writing.refl : Writing r ds s s := Within.refl (fun _ => .inl rfl) fun _ _ => rfl

theorem Writing.record (h : Writing r ds s s') : s'.getRecord d r.keyHash r.version =
    s.getRecord d r.keyHash r.version ∨ d ∈ ds ∧ s'.getRecord d r.keyHash r.version = some (.ok r) := Within.record h d

theorem Writing.accepts {node : NodeId} (h : Writing r ds s s') (ha : Accepts C s node d r) :
    Accepts C s' node d r := by
  refine ⟨ha.opened, by rw [Within.disk h d]; exact ha.disk, fun file hfile => ?_⟩
  rcases h.record (d := d) with heq | ⟨_, heq⟩
  · exact ha.older file (heq ▸ hfile)
  · rw [heq] at hfile
    cases hfile
    exact ⟨r, rfl, .inl rfl⟩

theorem Recorded.keeps (h : Recorded s d r s') (hd : s.getRecord d' r.keyHash r.version = some (.ok r)) :
    s'.getRecord d' r.keyHash r.version = some (.ok r) := by
  rcases h.1 with rfl | rfl
  · exact hd
  · rcases exec_getRecord (.writeRecord d r) s d' r.keyHash r.version with heq | ⟨r', ho, _⟩ | ho
    · rw [heq]
      exact hd
    · cases ho
      exact h.2
    · cases ho

theorem rewriteRecordCopies_meets (hvalid : r.Valid X.hashKey) (hsub : ∀ d ∈ ds, d ∈ all) (h : Writing r all s₀ s) :
    Task.Meets (Trying faults) (Writing r all s₀)
      (fun _ s' => (∀ d ∈ ds, InReach C d ∧ s'.getRecord d r.keyHash r.version = some (.ok r)) ∧
        ∀ d, s.getRecord d r.keyHash r.version = some (.ok r) → s'.getRecord d r.keyHash r.version = some (.ok r))
      (Fails fun _ => faults ∨ ∃ d ∈ ds, ¬ CanRecord C s₀ r d) (rewriteRecordCopies X C r ds) s := by
  induction ds generalizing s with
  | nil => exact ⟨h, nofun, fun _ hd => hd⟩
  | cons d ds ih =>
    unfold rewriteRecordCopies
    cases hd : C.document.device d with
    | none =>
      refine ⟨h, ⟨nofun, nofun⟩, .inr ⟨d, List.mem_cons_self, ?_⟩⟩
      rintro ⟨e, he, _⟩
      rw [hd] at he
      cases he
    | some e =>
      dsimp only
      refine Task.Meets.bind (Q := fun _ s' => s' = s) (connectTo_meets (device_listed hd) h rfl .inl) ?_
      rintro _ s₁ rfl _
      have hwrite : Writing r all s₀ (exec (.writeRecord d r) s₁).2 := by
        refine Within.exec h ⟨rfl, rfl, .inr ⟨hsub d List.mem_cons_self, rfl⟩⟩
      refine Task.Meets.bind (request_meets e.node ((putMeta_meets hvalid h hwrite).mono_error
        fun _ _ _ hE => ⟨hE.1, hE.2.2.imp id fun hno => ⟨d, List.mem_cons_self, ?_⟩⟩) fun hf _ _ => .inl hf) ?_
      · rintro ⟨e', he', hacc⟩
        obtain rfl : e = e' := Option.some.inj (hd.symm.trans he')
        exact hno (h.accepts hacc)
      rintro _ s₂ hrec hw
      refine ((ih (fun d hd => hsub d (List.mem_cons_of_mem _ hd)) hw).mono (fun _ h => h) (fun _ _ _ hq => ⟨?_, ?_⟩)
        fun _ _ _ hE => ⟨hE.1, hE.2.imp id fun ⟨d', hd', hno⟩ => ⟨d', List.mem_cons_of_mem _ hd', hno⟩⟩)
      · rw [List.forall_mem_cons]
        exact ⟨⟨⟨e, hd, hrec.1⟩, hq.2 d hrec.2.2⟩, hq.1⟩
      · exact fun d' hd' => hq.2 d' (hrec.2.keeps hd')

end Write

/-! ## Dropping -/

/-- Nothing of the version is left on the device. -/
def Cleaned (s : Store) (kh : KeyHash) (v : VersionId) (d : DeviceId) : Prop :=
  s.getRecord d kh v = none ∧ ∀ i, s.getShard d kh v i = none

/-- The files of a version while it is removed from some devices. -/
def Dropping (kh : KeyHash) (v : VersionId) (ds : List DeviceId) (s : Store) : Store → Prop :=
  Within kh v s (fun d x => x = s.getRecord d kh v ∨ d ∈ ds ∧ x = none)
    fun d i x => x = s.getShard d kh v i ∨ d ∈ ds ∧ x = none

section Remove

variable {X : Crates} {C : Cluster} {s s' : Store} {faults : Prop} {kh : KeyHash} {v : VersionId} {ds : List DeviceId}

theorem Dropping.refl : Dropping kh v ds s s := Within.refl (fun _ => .inl rfl) fun _ _ => .inl rfl

theorem Dropping.clearing (h : Dropping kh v ds s₀ s) (hd : d ∈ ds) (hc : Clearing kh v d s s') :
    Dropping kh v ds s₀ s' where
  disk d' := (Within.disk hc d').trans (Within.disk h d')
  space := (Within.space hc).trans (Within.space h)
  record d' := by
    rcases Within.record hc d' with heq | ⟨rfl, heq⟩
    · rw [heq]
      exact Within.record h d'
    · exact .inr ⟨hd, heq⟩
  shard d' i := by
    rcases Within.shard hc d' i with heq | ⟨rfl, heq⟩
    · rw [heq]
      exact Within.shard h d' i
    · exact .inr ⟨hd, heq⟩
  otherRecord d' kh' v' hne := (Within.otherRecord hc d' kh' v' hne).trans (Within.otherRecord h d' kh' v' hne)
  otherShard d' kh' v' i hne := (Within.otherShard hc d' kh' v' i hne).trans (Within.otherShard h d' kh' v' i hne)

theorem Emptied.cleaned (h : Emptied kh v d s s') (hc : Cleaned s kh v d') : Cleaned s' kh v d' := by
  refine ⟨?_, fun i => ?_⟩
  · rcases Within.record h.clearing d' with heq | ⟨_, heq⟩
    · rw [heq]
      exact hc.1
    · exact heq
  · rcases Within.shard h.clearing d' i with heq | ⟨_, heq⟩
    · rw [heq]
      exact hc.2 i
    · exact heq

theorem removeStaleCopies_meets {r : MetadataRecord} {stale : List (DeviceId × ℕ)}
    (hsub : ∀ d ∈ stale.map Prod.fst, inService C d = true → d ∈ ds) (h : Dropping r.keyHash r.version ds s₀ s) :
    Task.Meets (Trying faults) (Dropping r.keyHash r.version ds s₀)
      (fun removed s' => removed = (stale.map Prod.fst).filter (inService C) ∧
      (∀ d ∈ removed, Cleaned s' r.keyHash r.version d) ∧
        ∀ d, Cleaned s r.keyHash r.version d → Cleaned s' r.keyHash r.version d)
      (Fails fun _ => faults ∨ ∃ d ∈ stale.map Prod.fst, ∃ owner, ownerInService C d = some owner ∧ d ∉ C.opened owner)
      (removeStaleCopies X C r stale) s := by
  induction stale generalizing s with
  | nil => exact ⟨h, rfl, nofun, fun _ hd => hd⟩
  | cons p stale ih =>
    obtain ⟨d, revision⟩ := p
    have hsub' : ∀ d ∈ stale.map Prod.fst, inService C d = true → d ∈ ds := fun d hd =>
      hsub d (List.mem_cons_of_mem _ hd)
    unfold removeStaleCopies
    cases howner : ownerInService C d with
    | none =>
      have hout : ¬ inService C d = true := by rw [inService_iff, howner]; simp
      refine (ih hsub' h).mono (fun _ h => h) (fun _ _ _ hq => ⟨?_, hq.2⟩) fun _ _ _ hE =>
        ⟨hE.1, hE.2.imp id fun ⟨d', hd', hno⟩ => ⟨d', List.mem_cons_of_mem _ hd', hno⟩⟩
      rw [List.map_cons, List.filter_cons_of_neg hout]
      exact hq.1
    | some owner =>
      have hin : inService C d = true := by rw [inService_iff, howner]; rfl
      have hmem : d ∈ ds := hsub d List.mem_cons_self hin
      obtain ⟨e, he, _, rfl⟩ := ownerInService_eq_some.mp howner
      dsimp only
      refine Task.Meets.bind (Q := fun _ s' => s' = s) (connectTo_meets (device_listed he) h rfl .inl) ?_
      rintro _ s₁ rfl _
      refine Task.Meets.bind (request_meets e.node ((deleteVersion_meets fun s' hc =>
        h.clearing hmem hc).mono (fun _ h => h) (fun _ _ _ h => h) fun _ _ _ hE =>
        ⟨hE.1, hE.2.2.imp id fun hno => ⟨d, List.mem_cons_self, _, howner, hno⟩⟩) fun hf _ _ => .inl hf) ?_
      rintro _ s₂ hempty hr
      refine Task.Meets.bind ((ih hsub' hr).mono_error fun _ _ _ hE =>
        ⟨hE.1, hE.2.imp id fun ⟨d', hd', hno⟩ => ⟨d', List.mem_cons_of_mem _ hd', hno⟩⟩) ?_
      rintro removed s₃ ⟨rfl, hgone, hkeep⟩ hr'
      refine ⟨hr', ?_, ?_, fun d' hd' => hkeep d' (hempty.cleaned hd')⟩
      · rw [List.map_cons, List.filter_cons_of_pos hin]
      · rw [List.forall_mem_cons]
        exact ⟨hkeep d ⟨hempty.record, hempty.shard⟩, hgone⟩

end Remove

/-! ## Both -/

def mendedDevices (r : MetadataRecord) (relocations : List (ℕ × DeviceId)) (missing : List DeviceId) : List DeviceId :=
  if relocations.isEmpty then missing else devicesNewFirst (nextRecord r relocations) relocations

/-- The files of a version while its records are mended: written to `ds`, and then removed from `gone`. -/
def Mending (C : Cluster) (r : MetadataRecord) (ds gone : List DeviceId) (s s' : Store) : Prop :=
  Writing r ds s s' ∨ ∃ s₁, Writing r ds s s₁ ∧ (∀ d ∈ ds, InReach C d ∧
    s₁.getRecord d r.keyHash r.version = some (.ok r)) ∧ Dropping r.keyHash r.version gone s₁ s'

def Mended (C : Cluster) (r : MetadataRecord) (ds gone : List DeviceId) (s s' : Store) : Prop :=
  ∃ s₁, Writing r ds s s₁ ∧ (∀ d ∈ ds, InReach C d ∧ s₁.getRecord d r.keyHash r.version = some (.ok r)) ∧
    Dropping r.keyHash r.version gone s₁ s' ∧ ∀ d ∈ gone, Cleaned s' r.keyHash r.version d

section Mend

variable {X : Crates} {C : Cluster} {s : Store} {faults : Prop} {r : MetadataRecord} {relocations : List (ℕ × DeviceId)}
  {missing : List DeviceId} {stale : List (DeviceId × ℕ)}

theorem mendRecords_meets (hvalid : (nextRecord r relocations).Valid X.hashKey) {ds gone : List DeviceId}
    (hds : ds = mendedDevices r relocations missing) (hgone : gone = (stale.map Prod.fst).filter (inService C)) :
    Task.Meets (Trying faults) (Mending C (nextRecord r relocations) ds gone s)
      (fun res s' => res = (ds, gone) ∧ Mended C (nextRecord r relocations) ds gone s s')
      (Fails fun _ => faults ∨ (∃ d ∈ ds, ¬ CanRecord C s (nextRecord r relocations) d) ∨
        ∃ d ∈ stale.map Prod.fst, ∃ owner, ownerInService C d = some owner ∧ d ∉ C.opened owner)
      (mendRecords X C r (nextRecord r relocations) relocations missing stale) s := by
  have hsame : (if relocations.isEmpty then r else nextRecord r relocations) = nextRecord r relocations := by
    unfold nextRecord
    split_ifs <;> rfl
  have hkey : (nextRecord r relocations).keyHash = r.keyHash ∧ (nextRecord r relocations).version = r.version := by
    obtain ⟨_, _, hnext, _⟩ := nextRecord_same r relocations
    rw [hnext]
    exact ⟨rfl, rfl⟩
  unfold mendRecords
  dsimp only
  rw [show (if relocations.isEmpty then missing else devicesNewFirst (nextRecord r relocations) relocations) =
    ds from hds.symm, hsame]
  refine Task.Meets.bind ((rewriteRecordCopies_meets hvalid (fun d hd => hd) Writing.refl).mono (fun _ h => .inl h)
    (fun _ _ h hq => And.intro h hq.1) fun _ _ _ hE => ⟨hE.1, hE.2.imp id .inl⟩) ?_
  rintro _ s₁ ⟨hw, hall⟩ _
  have hrem : Dropping r.keyHash r.version gone s₁ s₁ := .refl
  refine Task.Meets.bind ((removeStaleCopies_meets (fun d hd hin => hgone ▸ List.mem_filter.mpr ⟨hd, hin⟩) hrem).mono
    (fun s₂ h => Or.inr ⟨s₁, hw, hall, by rw [hkey.1, hkey.2]; exact h⟩) (fun _ _ h hq => And.intro h hq)
    fun _ _ _ hE => ⟨hE.1, hE.2.imp id .inr⟩) ?_
  rintro removed s₂ ⟨hr, rfl, hclean, _⟩ hI
  subst hgone
  refine ⟨hI, rfl, s₁, hw, hall, ?_, ?_⟩
  · rw [hkey.1, hkey.2]
    exact hr
  · rw [hkey.1, hkey.2]
    exact hclean

end Mend

end Djbod
