import Djbod.Node.Stocktake

/-!
# What a listing shows

* `pageOfKeys_spec`, `dedupEntries_keys` : a page is a front part of the entries, and no key is lost to the removal of
  doubles;
* `nodeEntries` : what a node that answers has to list;
* `mergePages_spec` : the merged pages, with the horizon none of them reaches beyond;
* `listKeys_sees` : during an outage every key on a device that can be read is listed, as far as the page goes, and
  every other device is named.
-/

namespace Djbod

open Sched

/-! ## Pages -/

theorem pageOfKeysFrom_spec (limit : Option ℕ) (count bytes : ℕ) (entries : List KeyEntry) :
    ∃ rest, entries = (pageOfKeysFrom limit count bytes entries).1 ++ rest ∧
      ((pageOfKeysFrom limit count bytes entries).2 = true ↔ rest ≠ []) := by
  induction entries generalizing count bytes with
  | nil => exact ⟨[], rfl, by simp [pageOfKeysFrom]⟩
  | cons entry entries ih =>
    unfold pageOfKeysFrom
    split_ifs with hfull
    · exact ⟨entry :: entries, rfl, by simp⟩
    · obtain ⟨rest, hsplit, hflag⟩ := ih (count + 1) (bytes + entry.key.utf8ByteSize)
      exact ⟨rest, congrArg (entry :: ·) hsplit, hflag⟩

theorem pageOfKeys_spec (entries : List KeyEntry) (limit : Option ℕ) :
    ∃ rest, entries = (pageOfKeys entries limit).1 ++ rest ∧ ((pageOfKeys entries limit).2 = true ↔ rest ≠ []) ∧
      (entries ≠ [] → (pageOfKeys entries limit).1 ≠ []) := by
  obtain ⟨rest, hsplit, hflag⟩ := pageOfKeysFrom_spec (limit.map fun l => max l 1) 0 0 entries
  refine ⟨rest, hsplit, hflag, fun hne => ?_⟩
  obtain ⟨entry, more, rfl⟩ := List.exists_cons_of_ne_nil hne
  have hfits : ((limit.map fun l => max l 1).any (fun l => 0 ≥ l) ||
      ((0 : ℕ) ≠ 0 && 0 + entry.key.utf8ByteSize > maxListPageBytes)) = false := by
    cases limit <;> simp
  rw [pageOfKeys, pageOfKeysFrom, if_neg (by rw [hfits]; exact Bool.false_ne_true)]
  exact List.cons_ne_nil _ _

/-! ## Doubles -/

instance : Std.Total KeyEntry.Le :=
  ⟨fun a b => by
    unfold KeyEntry.Le
    rcases lt_trichotomy a.key b.key with h | h | h
    · exact .inl (.inl h)
    · rcases Nat.le_total a.version b.version with hv | hv
      · exact .inl (.inr ⟨h, hv⟩)
      · exact .inr (.inr ⟨h.symm, hv⟩)
    · exact .inr (.inl h)⟩

instance : IsTrans KeyEntry KeyEntry.Le :=
  ⟨fun a b c hab hbc => by
    rcases hab with hab | ⟨hab, hv⟩ <;> rcases hbc with hbc | ⟨hbc, hv'⟩
    · exact .inl (hab.trans hbc)
    · exact .inl (hbc ▸ hab)
    · exact .inl (hab ▸ hbc)
    · exact .inr ⟨hab.trans hbc, hv.trans hv'⟩⟩

theorem KeyEntry.Le.key_le {a b : KeyEntry} (h : a.Le b) : a.key ≤ b.key := by
  rcases h with h | ⟨h, _⟩
  · exact h.le
  · exact h.le

theorem dedupEntries_cons (a : KeyEntry) (l : List KeyEntry) :
    ∃ more, dedupEntries (a :: l) = a :: more ∧ more.Sublist l ∧
      ∀ e ∈ l, ∃ e' ∈ a :: more, e'.key = e.key := by
  induction l generalizing a with
  | nil => exact ⟨[], rfl, .slnil, nofun⟩
  | cons b l ih =>
    obtain ⟨more, hmore, hsub, hkeys⟩ := ih b
    unfold dedupEntries
    split_ifs with hdouble
    · rw [hmore]
      refine ⟨more, rfl, hsub.trans (List.sublist_cons_self b l), fun e he => ?_⟩
      have hb : ∃ e' ∈ a :: more, e'.key = b.key := ⟨a, List.mem_cons_self, hdouble.1⟩
      rcases List.mem_cons.mp he with rfl | he
      · exact hb
      · obtain ⟨e', he', hkey⟩ := hkeys e he
        rcases List.mem_cons.mp he' with rfl | he'
        · exact hkey ▸ hb
        · exact ⟨e', List.mem_cons_of_mem _ he', hkey⟩
    · rw [hmore]
      refine ⟨b :: more, rfl, hsub.cons_cons b, fun e he => ?_⟩
      rcases List.mem_cons.mp he with rfl | he
      · exact ⟨e, by simp, rfl⟩
      · obtain ⟨e', he', hkey⟩ := hkeys e he
        exact ⟨e', List.mem_cons_of_mem _ he', hkey⟩

theorem dedupEntries_keys {l : List KeyEntry} {e : KeyEntry} (h : e ∈ l) : ∃ e' ∈ dedupEntries l, e'.key = e.key := by
  cases l with
  | nil => cases h
  | cons a l =>
    obtain ⟨more, hmore, _, hkeys⟩ := dedupEntries_cons a l
    rw [hmore]
    rcases List.mem_cons.mp h with rfl | h
    · exact ⟨e, List.mem_cons_self, rfl⟩
    · exact hkeys e h

theorem dedupEntries_sublist (l : List KeyEntry) : (dedupEntries l).Sublist l := by
  cases l with
  | nil => exact .slnil
  | cons a l =>
    obtain ⟨more, hmore, hsub, _⟩ := dedupEntries_cons a l
    rw [hmore]
    exact hsub.cons_cons a

/-! ## One node -/

/-- The entries of a device's records that a query asks for, cursor apart. -/
def entriesOn (s : Store) (query : ListQuery) (d : DeviceId) : List KeyEntry :=
  ((s.allRecords d).filter fun r => query.keyPrefix.all fun p => p.isPrefixOf r.key).map fun r =>
    ⟨r.key, r.size, r.version⟩

def nodeEntries (C : Cluster) (s : Store) (query : ListQuery) (node : NodeId) : List KeyEntry :=
  let entries := dedupEntries (((C.opened node).flatMap (entriesOn s query)).insertionSort KeyEntry.Le)
  match query.startAfter with
  | none => entries
  | some after => entries.filter fun e => after < e.key

def nodePage (C : Cluster) (s : Store) (query : ListQuery) (node : NodeId) : LocalListPage :=
  ⟨(pageOfKeys (nodeEntries C s query node) query.limit).1, (pageOfKeys (nodeEntries C s query node) query.limit).2,
    nodeUnread C s node⟩

def ListQuery.Asks (query : ListQuery) (key : String) : Prop :=
  (query.keyPrefix.all fun p => p.isPrefixOf key) = true ∧ ∀ after ∈ query.startAfter, after < key

section Node

variable {σ : Type} {ex : (o : Op) → σ → Resp o × σ} {w : σ} {s : Store} {down : NodeId → Bool} {C : Cluster}
  {query : ListQuery}

theorem nodeEntries_sorted (C : Cluster) (s : Store) (query : ListQuery) (node : NodeId) :
    (nodeEntries C s query node).Pairwise fun a b => a.key ≤ b.key := by
  have hsorted : (dedupEntries (((C.opened node).flatMap (entriesOn s query)).insertionSort KeyEntry.Le)).Pairwise
      fun a b => a.key ≤ b.key :=
    ((List.pairwise_insertionSort KeyEntry.Le _).sublist (dedupEntries_sublist _)).imp KeyEntry.Le.key_le
  unfold nodeEntries
  dsimp only
  split
  · exact hsorted
  · exact hsorted.filter _

theorem nodeEntries_key {node : NodeId} {d : DeviceId} {r : MetadataRecord} (hd : d ∈ C.opened node)
    (hr : r ∈ s.allRecords d) (hq : query.Asks r.key) : ∃ e ∈ nodeEntries C s query node, e.key = r.key := by
  have hmem : (⟨r.key, r.size, r.version⟩ : KeyEntry) ∈ ((C.opened node).flatMap (entriesOn s query)).insertionSort
      KeyEntry.Le := by
    rw [List.mem_insertionSort, List.mem_flatMap]
    exact ⟨d, hd, List.mem_map.mpr ⟨r, List.mem_filter.mpr ⟨hr, hq.1⟩, rfl⟩⟩
  obtain ⟨e, he, hkey⟩ := dedupEntries_keys hmem
  refine ⟨e, ?_, hkey⟩
  unfold nodeEntries
  dsimp only
  cases hafter : query.startAfter with
  | none => exact he
  | some after =>
    have hlt : after < e.key := hkey ▸ hq.2 after hafter
    exact List.mem_filter.mpr ⟨he, by simpa using hlt⟩

theorem eval_listDevices (hw : Sees ex w s down) (ds : List DeviceId) :
    (listDevices query ds).run.eval ex w =
      (.ok (ds.flatMap (entriesOn s query), ds.filter fun d => (s.disk d).isNone), w) := by
  induction ds with
  | nil => rfl
  | cons d ds ih =>
    unfold listDevices
    have hop : (ExceptT.lift (Task.perform (Op.walkRecords d)) :
        NodeProc (Except DeviceError (List MetadataRecord))).run.eval ex w = (.ok (exec (.walkRecords d) s).1, w) := by
      rw [Task.eval_lift, Task.eval_perform, hw.walkRecords]
    rw [Task.eval_try_ok hop]
    cases hd : s.disk d with
    | none =>
      have hempty : entriesOn s query d = [] := by simp [entriesOn, Store.allRecords, hd]
      have hres : (exec (.walkRecords d) s).1 = .error .unavailable := by simp [exec, onDevice, hd]
      rw [hres]
      dsimp only
      rw [if_pos (by rfl), Task.eval_try_ok ih, List.flatMap_cons, hempty, List.filter_cons_of_pos (by simp [hd])]
      rfl
    | some disk =>
      have hres : (exec (.walkRecords d) s).1 = .ok (s.allRecords d) := by simp [exec, onDevice, hd]
      rw [hres]
      dsimp only
      rw [Task.eval_try_ok ih, List.flatMap_cons, List.filter_cons_of_neg (by simp [hd])]
      rfl

theorem eval_localList (hw : Sees ex w s down) (node : NodeId) :
    (localList C node query).run.eval ex w = (.ok (nodePage C s query node), w) := by
  unfold localList
  rw [Task.eval_try_ok (eval_listDevices hw (C.opened node))]
  unfold nodePage nodeEntries
  cases query.startAfter <;> rfl

end Node

/-! ## The merged pages -/

section Merge

variable {s : Store} {down : NodeId → Bool} {C : Cluster} {query : ListQuery}

theorem mergeEntry_keys (newest : List KeyEntry) (item : KeyEntry) {key : String}
    (h : key = item.key ∨ key ∈ newest.map KeyEntry.key) : key ∈ (mergeEntry newest item).map KeyEntry.key := by
  unfold mergeEntry
  cases hf : newest.find? fun e => e.key == item.key with
  | none =>
    rcases h with rfl | h
    · exact List.mem_cons_self
    · exact List.mem_cons_of_mem _ h
  | some existing =>
    have hkey : existing.key = item.key := by simpa using List.find?_some hf
    have hmem : item.key ∈ newest.map KeyEntry.key := List.mem_map.mpr ⟨existing, List.mem_of_find?_eq_some hf, hkey⟩
    dsimp only
    split_ifs with hv
    · rcases h with rfl | h
      · exact hmem
      · exact h
    · rw [List.map_cons, List.mem_cons]
      rcases h with rfl | h
      · exact .inl rfl
      · by_cases hk : key = item.key
        · exact .inl hk
        · obtain ⟨e, he, rfl⟩ := List.mem_map.mp h
          exact .inr (List.mem_map.mpr ⟨e, List.mem_filter.mpr ⟨he, by simpa using hk⟩, rfl⟩)

theorem foldl_mergeEntry_keys (entries newest : List KeyEntry) {key : String}
    (h : key ∈ newest.map KeyEntry.key ∨ key ∈ entries.map KeyEntry.key) :
    key ∈ (entries.foldl mergeEntry newest).map KeyEntry.key := by
  induction entries generalizing newest with
  | nil => simpa using h
  | cons e entries ih =>
    rw [List.foldl_cons]
    refine ih _ ?_
    rw [List.map_cons, List.mem_cons] at h
    rcases h with h | h | h
    · exact .inl (mergeEntry_keys newest e (.inr h))
    · exact .inl (mergeEntry_keys newest e (.inl h))
    · exact .inr h

theorem nearerHorizon_le {horizon : Option String} (page : LocalListPage) {h : String} (hh : horizon = some h) :
    ∃ h' ≤ h, nearerHorizon horizon page = some h' := by
  subst hh
  unfold nearerHorizon
  split_ifs
  · split
    · exact ⟨h, le_rfl, rfl⟩
    · next last _ =>
        by_cases hlt : last.key < h
        · exact ⟨last.key, hlt.le, if_pos (by simpa using hlt)⟩
        · exact ⟨h, le_rfl, if_neg (by simpa using hlt)⟩
  · exact ⟨h, le_rfl, rfl⟩

theorem nearerHorizon_last (horizon : Option String) {page : LocalListPage} (ht : page.truncated = true)
    {last : KeyEntry} (hlast : page.entries.getLast? = some last) :
    ∃ h ≤ last.key, nearerHorizon horizon page = some h := by
  unfold nearerHorizon
  rw [if_pos ht, hlast]
  dsimp only
  cases horizon with
  | none => exact ⟨last.key, le_rfl, rfl⟩
  | some h =>
    by_cases hlt : last.key < h
    · exact ⟨last.key, le_rfl, if_pos (by simpa using hlt)⟩
    · exact ⟨h, not_lt.mp hlt, if_neg (by simpa using hlt)⟩

def PageOf (C : Cluster) (s : Store) (down : NodeId → Bool) (query : ListQuery) (n : NodeEntry)
    (answer : Except ErrorDetail LocalListPage) : Prop :=
  if down n.id then ∃ e, answer = .error e ∧ e.code = .nodeUnreachable else answer = .ok (nodePage C s query n.id)

/-- What the merged pages keep of those merged so far, and of the pages that follow. -/
structure MergedFrom (C : Cluster) (s : Store) (down : NodeId → Bool) (query : ListQuery) (nodes : List NodeEntry)
    (before after : Merged) : Prop where
  keys : ∀ key, (key ∈ before.newest.map KeyEntry.key ∨
    ∃ n ∈ nodes, down n.id = false ∧ key ∈ (nodePage C s query n.id).entries.map KeyEntry.key) →
      key ∈ after.newest.map KeyEntry.key
  unread : ∀ d, (d ∈ before.unread.map UnavailableDevice.device ∨
    ∃ n ∈ nodes, if down n.id then ∃ e ∈ C.document.devices, e.node = n.id ∧ e.state ≠ .removed ∧ e.id = d
      else d ∈ nodeUnread C s n.id) → d ∈ after.unread.map UnavailableDevice.device
  near : ∀ h, before.horizon = some h → ∃ h' ≤ h, after.horizon = some h'
  nearer : ∀ n ∈ nodes, down n.id = false → (nodePage C s query n.id).truncated = true → after.anyTruncated = true ∧
    ∀ last, (nodePage C s query n.id).entries.getLast? = some last → ∃ h ≤ last.key, after.horizon = some h
  more : before.anyTruncated = true → after.anyTruncated = true
  truncated : (before.horizon.isSome → before.anyTruncated = true) → after.horizon.isSome → after.anyTruncated = true

theorem mergePages_spec {nodes : List NodeEntry} {answers : List (Except ErrorDetail LocalListPage)}
    (h : List.Forall₂ (PageOf C s down query) nodes answers) (merged : Merged) :
    ∃ merged', mergePages C merged ((nodes.map NodeEntry.id).zip answers) = .ok merged' ∧
      MergedFrom C s down query nodes merged merged' := by
  induction h generalizing merged with
  | nil =>
    refine ⟨merged, rfl, ⟨?_, ?_, fun h hh => ⟨h, le_rfl, hh⟩, nofun, id, id⟩⟩
    · rintro key (h | ⟨_, hn, _⟩)
      · exact h
      · cases hn
    · rintro d (h | ⟨_, hn, _⟩)
      · exact h
      · cases hn
  | @cons n answer nodes answers hone _ ih =>
    unfold PageOf at hone
    cases hdown : down n.id with
    | true =>
      rw [if_pos hdown] at hone
      obtain ⟨e, rfl, hcode⟩ := hone
      obtain ⟨merged', heval, hm⟩ := ih { merged with
        unread := merged.unread ++ (C.document.devices.filter fun e => e.node == n.id && e.state != .removed).map
          fun e => ⟨e.id, n.id⟩ }
      refine ⟨merged', ?_, ⟨fun key hkey => hm.keys key ?_, fun d hd => hm.unread d ?_, hm.near, fun n' hn' hup => ?_,
        hm.more, hm.truncated⟩⟩
      · rw [List.map_cons, List.zip_cons_cons, mergePages, if_pos hcode]
        exact heval
      · rcases hkey with hkey | ⟨n', hn', hup, hkey⟩
        · exact .inl hkey
        · rcases List.mem_cons.mp hn' with rfl | hn'
          · exact absurd (hup.symm.trans hdown) Bool.false_ne_true
          · exact .inr ⟨n', hn', hup, hkey⟩
      · rw [List.map_append, List.mem_append]
        rcases hd with hd | ⟨n', hn', hwhy⟩
        · exact .inl (.inl hd)
        · rcases List.mem_cons.mp hn' with rfl | hn'
          · rw [if_pos hdown] at hwhy
            obtain ⟨e', he', hnode, hstate, rfl⟩ := hwhy
            exact .inl (.inr (List.mem_map.mpr ⟨⟨e'.id, n'.id⟩, List.mem_map.mpr ⟨e', List.mem_filter.mpr
              ⟨he', by simp [hnode, hstate]⟩, rfl⟩, rfl⟩))
          · exact .inr ⟨n', hn', hwhy⟩
      · rcases List.mem_cons.mp hn' with rfl | hn'
        · exact absurd (hup.symm.trans hdown) Bool.false_ne_true
        · exact hm.nearer n' hn' hup
    | false =>
      rw [if_neg (by rw [hdown]; exact Bool.false_ne_true)] at hone
      subst hone
      obtain ⟨merged', heval, hm⟩ := ih
        { newest := (nodePage C s query n.id).entries.foldl mergeEntry merged.newest
          unread := merged.unread ++ (nodePage C s query n.id).unread.map fun d => ⟨d, n.id⟩
          anyTruncated := merged.anyTruncated || (nodePage C s query n.id).truncated
          horizon := nearerHorizon merged.horizon (nodePage C s query n.id) }
      refine ⟨merged', ?_, ⟨fun key hkey => hm.keys key ?_, fun d hd => hm.unread d ?_, fun h hh =>
        ?_, fun n' hn' hup ht => ?_, fun ht => hm.more (by rw [ht]; rfl), fun hbefore => hm.truncated fun hsome => ?_⟩⟩
      · rw [List.map_cons, List.zip_cons_cons, mergePages]
        exact heval
      · rcases hkey with hkey | ⟨n', hn', hup, hkey⟩
        · exact .inl (foldl_mergeEntry_keys _ _ (.inl hkey))
        · rcases List.mem_cons.mp hn' with rfl | hn'
          · exact .inl (foldl_mergeEntry_keys _ _ (.inr hkey))
          · exact .inr ⟨n', hn', hup, hkey⟩
      · rw [List.map_append, List.mem_append]
        rcases hd with hd | ⟨n', hn', hwhy⟩
        · exact .inl (.inl hd)
        · rcases List.mem_cons.mp hn' with rfl | hn'
          · rw [if_neg (by rw [hdown]; exact Bool.false_ne_true)] at hwhy
            exact .inl (.inr (List.mem_map.mpr ⟨⟨d, n'.id⟩, List.mem_map.mpr ⟨d, hwhy, rfl⟩, rfl⟩))
          · exact .inr ⟨n', hn', hwhy⟩
      · obtain ⟨h', hle, hh'⟩ := nearerHorizon_le (nodePage C s query n.id) hh
        obtain ⟨h'', hle', hh''⟩ := hm.near h' hh'
        exact ⟨h'', hle'.trans hle, hh''⟩
      · rcases List.mem_cons.mp hn' with rfl | hn'
        · refine ⟨hm.more (by rw [ht, Bool.or_true]), fun last hlast => ?_⟩
          obtain ⟨h', hle, hh'⟩ := nearerHorizon_last merged.horizon ht hlast
          obtain ⟨h'', hle', hh''⟩ := hm.near h' hh'
          exact ⟨h'', hle'.trans hle, hh''⟩
        · exact hm.nearer n' hn' hup ht
      · -- A horizon is an earlier one, or that of a truncated page.
        dsimp only at hsome
        rw [Bool.or_eq_true]
        cases ht : (nodePage C s query n.id).truncated with
        | true => exact .inr rfl
        | false =>
          rw [nearerHorizon, if_neg (by rw [ht]; exact Bool.false_ne_true)] at hsome
          exact .inl (hbefore hsome)

end Merge

/-! ## The whole listing -/

/-- The page goes as far as the key. -/
def ListAnswer.Covers (answer : ListAnswer) (key : String) : Prop :=
  answer.truncated = false ∨ ∃ last, answer.keys.getLast? = some last ∧ key ≤ last.key

structure Listing (C : Cluster) (s : Store) (down : NodeId → Bool) (query : ListQuery) (answer : ListAnswer) :
    Prop where
  shown : ∀ d ∈ reached C down, ∀ r ∈ s.allRecords d, query.Asks r.key → answer.Covers r.key →
    r.key ∈ answer.keys.map KeyEntry.key
  named : ∀ n ∈ C.document.activeNodes, ∀ d, (if down n.id then ∃ e ∈ C.document.devices, e.node = n.id ∧
    e.state ≠ .removed ∧ e.id = d
    else d ∈ nodeUnread C s n.id) → d ∈ answer.unread.map UnavailableDevice.device
  complete : answer.complete = decide (answer.unread.length < C.document.k + C.document.m)

section Listing

variable {σ : Type} {ex : (o : Op) → σ → Resp o × σ} {w : σ} {s : Store} {down : NodeId → Bool} {C : Cluster}
  {query : ListQuery}

/-- The merged keys in order, as far as every node's page goes. -/
def Merged.visible (merged : Merged) : List KeyEntry :=
  match merged.horizon with
  | none => merged.newest.insertionSort fun a b => a.key ≤ b.key
  | some horizon => (merged.newest.insertionSort fun a b => a.key ≤ b.key).filter fun e => e.key ≤ horizon

theorem shown_of_entry {nodes : List NodeEntry} {merged : Merged}
    (hm : MergedFrom C s down query nodes ⟨[], [], false, none⟩ merged)
    {n : NodeEntry} (hn : n ∈ nodes) (hup : down n.id = false) {e : KeyEntry} (he : e ∈ nodeEntries C s query n.id)
    {keys : List KeyEntry} (hkeys : keys = merged.visible)
    (hcovers : ((pageOfKeys keys query.limit).2 || merged.anyTruncated) = false ∨
      ∃ last, (pageOfKeys keys query.limit).1.getLast? = some last ∧ e.key ≤ last.key) :
    e.key ∈ (pageOfKeys keys query.limit).1.map KeyEntry.key := by
  obtain ⟨rest, hsplit, hflag, _⟩ := pageOfKeys_spec keys query.limit
  have htotal : Std.Total fun a b : KeyEntry => a.key ≤ b.key := ⟨fun a b => le_total a.key b.key⟩
  have htrans : IsTrans KeyEntry fun a b : KeyEntry => a.key ≤ b.key := ⟨fun a b c => le_trans⟩
  have hsorted : keys.Pairwise fun a b => a.key ≤ b.key := by
    have hall := List.pairwise_insertionSort (fun a b : KeyEntry => a.key ≤ b.key) merged.newest
    rw [hkeys, Merged.visible]
    split
    · exact hall
    · exact hall.filter _
  have hhorizon : ∀ h, merged.horizon = some h → ∀ last ∈ keys, last.key ≤ h := by
    intro h hh last hlast
    rw [hkeys, Merged.visible, hh] at hlast
    simpa using (List.mem_filter.mp hlast).2
  have hmore : merged.horizon.isSome → merged.anyTruncated = true := hm.truncated nofun
  have hmem_page : ∀ {last}, (pageOfKeys keys query.limit).1.getLast? = some last → last ∈ keys :=
      fun {last} hlast => by
    rw [hsplit]
    exact List.mem_append_left _ (List.mem_of_getLast? hlast)
  -- Whoever is not beyond the last key of the page is on it, or is that key.
  have hlast_key : ∀ {last}, (pageOfKeys keys query.limit).1.getLast? = some last → e.key = last.key →
      e.key ∈ (pageOfKeys keys query.limit).1.map KeyEntry.key := fun {last} hlast heq =>
    List.mem_map.mpr ⟨last, List.mem_of_getLast? hlast, heq.symm⟩
  obtain ⟨rest', hsplit', hflag', hfirst'⟩ := pageOfKeys_spec (nodeEntries C s query n.id) query.limit
  have hnode_sorted := nodeEntries_sorted C s query n.id
  rw [hsplit'] at he hnode_sorted
  rcases List.mem_append.mp he with he | he
  · have hnewest : e.key ∈ merged.newest.map KeyEntry.key :=
      hm.keys _ (.inr ⟨n, hn, hup, List.mem_map.mpr ⟨e, he, rfl⟩⟩)
    obtain ⟨e', he', hkey⟩ := List.mem_map.mp hnewest
    by_cases hin : e' ∈ keys
    · rw [hsplit] at hin
      rcases List.mem_append.mp hin with hin | hin
      · exact List.mem_map.mpr ⟨e', hin, hkey⟩
      · rcases hcovers with hno | ⟨last, hlast, hle⟩
        · exact absurd (hflag.mpr (List.ne_nil_of_mem hin)) (by simp [(Bool.or_eq_false_iff.mp hno).1])
        · rw [hsplit, List.pairwise_append] at hsorted
          have hge := hsorted.2.2 last (List.mem_of_getLast? hlast) e' hin
          exact hlast_key hlast (le_antisymm hle (hkey ▸ hge))
    · -- Left out only by the horizon, which the page does not reach beyond.
      rw [hkeys, Merged.visible] at hin
      cases hh : merged.horizon with
      | none =>
        rw [hh] at hin
        exact absurd ((List.mem_insertionSort _).mpr he') hin
      | some h =>
        rw [hh] at hin
        have hbeyond : h < e.key := by
          by_contra hno
          exact hin (List.mem_filter.mpr ⟨(List.mem_insertionSort _).mpr he', by simpa [hkey] using not_lt.mp hno⟩)
        rcases hcovers with hno | ⟨last, hlast, hle⟩
        · exact absurd (hmore (by rw [hh]; rfl)) (by simp [(Bool.or_eq_false_iff.mp hno).2])
        · exact absurd (hle.trans (hhorizon h hh last (hmem_page hlast))) (not_le.mpr hbeyond)
  · -- Behind the node's own page: the horizon is not beyond it.
    have hne : (nodePage C s query n.id).entries ≠ [] := hfirst' fun hnil => by
      rw [hnil] at hsplit'
      rw [(List.append_eq_nil_iff.mp hsplit'.symm).2] at he
      cases he
    obtain ⟨htr, hnear⟩ := hm.nearer n hn hup (hflag'.mpr (List.ne_nil_of_mem he))
    obtain ⟨nodeLast, hnodeLast⟩ := Option.ne_none_iff_exists'.mp (mt List.getLast?_eq_none_iff.mp hne)
    obtain ⟨h, hle, hh⟩ := hnear nodeLast hnodeLast
    have hge : nodeLast.key ≤ e.key := (List.pairwise_append.mp hnode_sorted).2.2 nodeLast
      (List.mem_of_getLast? hnodeLast) e he
    rcases hcovers with hno | ⟨last, hlast, hle'⟩
    · exact absurd htr (by simp [(Bool.or_eq_false_iff.mp hno).2])
    · exact hlast_key hlast (le_antisymm hle' ((hhorizon h hh last (hmem_page hlast)).trans (hle.trans hge)))

def Merged.answer (C : Cluster) (query : ListQuery) (merged : Merged) : ListAnswer where
  keys := (pageOfKeys merged.visible query.limit).1
  truncated := (pageOfKeys merged.visible query.limit).2 || merged.anyTruncated
  unread := merged.unread.insertionSort fun a b => a.node < b.node ∨ a.node = b.node ∧ a.device ≤ b.device
  complete := merged.unread.length < C.document.k + C.document.m

/-- Every node in reach sends its page, and the others are known to be out of reach. -/
theorem broadcastLocalList_eval (X : Crates) (C : Cluster) (query : ListQuery) (hw : Sees ex w s down) :
    ∃ answers, List.Forall₂ (PageOf C s down query) C.document.activeNodes answers ∧
      (broadcastLocalList X C query).eval ex w = (answers, w) := by
  have hanswer : ∀ n : NodeEntry, ∃ answer, n ∈ C.document.activeNodes →
      (do connectTo X C n.id; request X n.id (localList C n.id query) : NodeProc LocalListPage).run.eval ex w =
        (answer, w) ∧ PageOf C s down query n answer := by
    intro n
    by_cases hn : n ∈ C.document.activeNodes
    · cases hdown : down n.id with
      | true =>
        obtain ⟨e, he, hcode⟩ := eval_connectTo_down (X := X) hw (activeNode_listed hn) hdown
        exact ⟨_, fun _ => ⟨Task.eval_try_error he, by rw [PageOf, if_pos hdown]; exact ⟨e, rfl, hcode⟩⟩⟩
      | false =>
        refine ⟨_, fun _ => ⟨(Task.eval_try_ok (eval_connectTo_up (X := X) hw (activeNode_listed hn) hdown)).trans
          (eval_request_of hw X n.id (eval_localList hw n.id)), ?_⟩⟩
        rw [PageOf, if_neg (by rw [hdown]; exact Bool.false_ne_true)]
        rfl
    · exact ⟨.ok (nodePage C s query n.id), fun h => absurd h hn⟩
  choose answer hanswer using hanswer
  refine ⟨C.document.activeNodes.map answer,
    List.forall₂_map_right_iff.mpr (List.forall₂_same.mpr fun n hn => (hanswer n hn).2), ?_⟩
  rw [broadcastLocalList, Prog.eval_all, evalTasks_const]
  · rw [List.map_map, List.map_congr_left]
    intro n hn
    exact congrArg Prod.fst (hanswer n hn).1
  · intro t ht
    obtain ⟨n, hn, rfl⟩ := List.mem_map.mp ht
    exact congrArg Prod.snd (hanswer n hn).1

theorem listKeys_pages (X : Crates) (C : Cluster) (query : ListQuery) (hw : Sees ex w s down) :
    ∃ answers merged, List.Forall₂ (PageOf C s down query) C.document.activeNodes answers ∧
      mergePages C ⟨[], [], false, none⟩ ((C.document.activeNodes.map NodeEntry.id).zip answers) = .ok merged ∧
      (listKeys X C query).run.eval ex w = (.ok (merged.answer C query), w) := by
  obtain ⟨answers, hpages, hbroadcast⟩ := broadcastLocalList_eval X C query hw
  obtain ⟨merged, hmerge, -⟩ := mergePages_spec hpages ⟨[], [], false, none⟩
  have hall : (ExceptT.lift (broadcastLocalList X C query) :
      Coord (List (Except ErrorDetail LocalListPage))).run.eval ex w = (.ok answers, w) := by
    rw [Prog.eval_lift, hbroadcast]
  have hreq : (require (mergePages C ⟨[], [], false, none⟩
      ((C.document.activeNodes.map NodeEntry.id).zip answers))).run.eval ex w = (.ok merged, w) := by
    rw [hmerge]
    rfl
  refine ⟨answers, merged, hpages, hmerge, ?_⟩
  unfold listKeys
  rw [Prog.eval_try_ok hall, Prog.eval_try_ok hreq]
  rfl

/-- **A listing during an outage** shows every key of the devices that it reaches, as far as the page goes. -/
theorem listKeys_sees (X : Crates) (C : Cluster) (query : ListQuery) (hw : Sees ex w s down) :
    ∃ answer, (listKeys X C query).run.eval ex w = (.ok answer, w) ∧ Listing C s down query answer := by
  obtain ⟨answers, merged, hpages, hmerge, heval⟩ := listKeys_pages X C query hw
  obtain ⟨merged', hmerge', hm⟩ := mergePages_spec hpages ⟨[], [], false, none⟩
  obtain rfl := Except.ok.inj (hmerge.symm.trans hmerge')
  refine ⟨merged.answer C query, heval, fun d hd r hr hask hcovers => ?_, fun n hn d hwhy => ?_, ?_⟩
  · obtain ⟨n, hn, hup, hopen⟩ := mem_reached.mp hd
    obtain ⟨e, he, hkey⟩ := nodeEntries_key hopen hr hask
    rw [← hkey] at hcovers ⊢
    exact shown_of_entry hm hn hup he rfl hcovers
  · have hmem := hm.unread d (.inr ⟨n, hn, hwhy⟩)
    exact ((List.perm_insertionSort _ merged.unread).map _).mem_iff.mpr hmem
  · show decide (merged.unread.length < C.document.k + C.document.m) =
      decide (List.length (merged.unread.insertionSort _) < _)
    rw [List.length_insertionSort]

end Listing

end Djbod
