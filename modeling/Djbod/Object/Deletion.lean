import Djbod.Object.Overwrite

/-!
# What a deletion removes

A deletion looks up the versions of its key and deletes each from the devices that its record lists.

* `Deleted` : how a deletion has dealt with a version on a device;
* `deleteObject_removes` : it removes only files of its key, records first, and a successful one has dealt with every
  version.
-/

namespace Djbod

open Sched

/-- At a moment the device has no record of the version, or one that was read, from every device it lists, has no shard
on this one, or this one is out of service. -/
def Deleted (C : Cluster) (σ : ℕ → Store) (es : List (Ev Op Resp)) (d : DeviceId) (kh : KeyHash) (v : VersionId) :
    Prop :=
  (∃ e ∈ es, ∃ n ∈ [e.time, e.time + 1], (σ n).getRecord d kh v = none) ∨
    ∃ r d', ReadOk es d' kh v r ∧
      ∀ shard ∈ r.shards, ReadOk es shard.device kh v r ∧ (shard.device = d → ownerInService C d = none)

section Deletions

variable {ι : Type} [DecidableEq ι] {α : ι → Type} {c₀ : Config Op Resp Store α} {X : Crates} {C : Cluster}
  {fuel : ℕ} {key : String} (hup : Up C c₀.store) (R : Run healthy c₀) {i : ι}

include hup

theorem accepted_seen {es : List (Ev Op Resp)} {located : List LocatedRecord} {versions : List MetadataRecord}
    (hsub : es ⊆ R.events i R.len) (hver : versionsOf X key located = .ok versions)
    (h : Prog.Tr (lookup X C fuel (X.hashKey key)).run es (.ret (.ok located))) :
    Seen es (X.hashKey key) C.attached located ∧ ∀ r ∈ versions, r.keyHash = X.hashKey key := by
  have hx := (events_executed R i).mono hsub
  rcases lookup_done (hx.calm fun e he => up_always R hup (R.mem_events.mp (hsub he)).1.le)
    h with ⟨_, hres, hseen⟩ | ⟨_, hres, -⟩
  · cases hres
    refine ⟨hseen, fun r hr => ?_⟩
    obtain ⟨_, -, -, -, ⟨d, hloc⟩, -⟩ := forall₂_left_of_mem (versionsOf_ok hver) hr
    obtain ⟨_, -, hat⟩ := hx.readOk (hseen.read _ hloc).2
    exact (Store.getRecord_filed hat).1
  · cases hres

/-- **A deletion, in any company.** However it is interrupted, it removes only files of its key, records first. Once it
has succeeded, it has dealt with every version on every device. -/
theorem deleteObject_removes {q : Prog Op Resp (Except ErrorDetail Unit)}
    (h : Prog.Tr (deleteObject X C fuel key).run (R.events i R.len) q) :
    Removing (fun kh _ => kh = X.hashKey key) (R.events i R.len) ∧
      (q = .ret (.ok ()) → ∀ d ∈ C.attached, ∀ v, Deleted C R.store (R.events i R.len) d (X.hashKey key) v) := by
  have hx := events_executed R i
  constructor
  · refine .of_try (require_uses _) h fun es₀ _ _ hsplit _ hrest => ?_
    refine .of_try (lookup_uses (fun _ hq => hq) fuel) hrest fun es₁ _ located hsplit' ht hrest => ?_
    refine .of_try (require_uses _) hrest fun _ _ versions _ hreq hdel => ?_
    obtain ⟨-, hver⟩ := require_ok hreq
    split_ifs at hdel
    · obtain ⟨rfl, -⟩ := Prog.tr_ret hdel
      exact .nil
    · obtain ⟨_, hdel, -⟩ := Prog.tr_call hdel
      exact deleteVersions_tr (accepted_seen hup R (i := i) (by simp [hsplit, hsplit']) hver ht).2 hdel
  · rintro rfl d hd v
    obtain ⟨_, _, _, hsplit, hreq, hrest⟩ := Prog.done_try h
    obtain ⟨rfl, -⟩ := require_ok hreq
    obtain ⟨es₁, _, located, rfl, ht, hrest⟩ := Prog.done_try hrest
    obtain ⟨_, es₂, versions, rfl, hreq, hdel⟩ := Prog.done_try hrest
    obtain ⟨rfl, hver⟩ := require_ok hreq
    have hlooked : es₁ ⊆ R.events i R.len := by simp [hsplit]
    have hremoved : es₂ ⊆ R.events i R.len := by simp [hsplit]
    obtain ⟨hseen, hfiled⟩ := accepted_seen hup R hlooked hver ht
    -- The lookup has read a copy there, or a listing has shown none.
    rcases hseen.complete d hd v with ⟨c, hc, rfl, rfl⟩ | ⟨vs, hlisted, hno⟩
    · obtain ⟨r, hr, hrv, -, ⟨d', hloc⟩, -, hall⟩ := forall₂_left_of_mem (versionsOf_ok hver).flip
        (mem_versionsDescending.mpr ⟨c, hc, rfl⟩)
      have hread : ∀ {d}, ⟨d, r⟩ ∈ located → ReadOk (R.events i R.len) d (X.hashKey key) c.record.version r :=
          fun hin =>
        hrv ▸ (hseen.read _ hin).2.mono hlooked
      by_cases hout : ∀ shard ∈ r.shards, shard.device = c.device → ownerInService C c.device = none
      · exact .inr ⟨r, d', hread hloc, fun shard hs => ⟨hread (hall shard hs), hout shard hs⟩⟩
      · push Not at hout
        obtain ⟨shard, hs, hdev, hin⟩ := hout
        split_ifs at hdel
        · cases (Prog.tr_ret hdel).2
        · have hcleared := deleteVersions_done (callNode_done hdel) r hr shard hs
            (hdev ▸ Option.isSome_iff_ne_none.mpr hin)
          rw [hfiled r hr, hrv, hdev] at hcleared
          obtain ⟨e, he, hnone⟩ := hx.cleared (hcleared.mono hremoved)
          exact .inl ⟨e, he, _, by simp, hnone⟩
    · obtain ⟨e, he, hnone⟩ := hx.notListed (hlisted.mono hlooked) hno
      exact .inl ⟨e, he, _, by simp, hnone⟩

end Deletions

abbrev twoDeletions : Config Op Resp Store fun _ : Bool => Except ErrorDetail Unit :=
  ⟨(holding [⟨0, byteRecord 1 0 [0]⟩]).withShards [(0, byteShard 1 0)], fun _ =>
    (deleteObject smallCrates (small 0 [.active]) 4 "k").run⟩

/-- One removes the record and the shard file of the version that both have read. -/
theorem deleteObject_removes_twice : (twoDeletions.store.getShard 0 0 1 0).isSome ∧
    ∃ R : Run healthy twoDeletions, Removing (fun kh _ => kh = 0) (R.events false R.len) ∧
      Deleted (small 0 [.active]) R.store (R.events false R.len) 0 0 1 ∧ R.final.getShard 0 0 1 0 = none := by
  have hplay : ((twoDeletions.play exec (fun _ _ _ => true) (twoDeletions.turns exec [(true, 4), (false, 40)])).map
      fun c =>
      ((c.pc false).result.map Except.isOk, c.store.getShard 0 0 1 0)) = some (some true, none) := by decide +kernel
  obtain ⟨c, hplay, hc⟩ := Option.map_eq_some_iff.mp hplay
  obtain ⟨R, rfl, -⟩ := Config.play_start (S := healthy) exec exec_sound hplay
  obtain ⟨hresult, hshard⟩ := Prod.mk.inj hc
  obtain ⟨_, hret⟩ := Prog.result_ok hresult
  obtain ⟨hremoving, hdone⟩ := deleteObject_removes (fun d _ => holding_isSome _ _ d) R (R.tr false le_rfl)
  exact ⟨by decide +kernel, R, hremoving, hdone hret 0 (by decide) 1, hshard⟩

end Djbod
