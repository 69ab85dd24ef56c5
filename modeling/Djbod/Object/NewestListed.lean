import Djbod.Object.Absence
import Djbod.Object.ListFrames

/-!
# Which version of a key a listing shows

A node's page may end between two versions of a key, with the newer one behind the cut.

* `Tops` : the entries kept are the newest of those seen, one for each key;
* `mergePages_tops` : the merged pages keep the newest of what the nodes sent;
* `NewestSent` : some node's page reaches the newest version of the key;
* `listed_newest_iff` : an entry shows the newest version exactly when some page reaches it.
-/

namespace Djbod

/-- The entries kept are the newest of those seen, one for each key. -/
structure Tops (seen newest : List KeyEntry) : Prop where
  nodup : (newest.map KeyEntry.key).Nodup
  kept : ∀ e ∈ newest, e ∈ seen
  top : ∀ x ∈ seen, ∃ e ∈ newest, e.key = x.key ∧ x.version ≤ e.version

namespace Tops

variable {seen newest : List KeyEntry}

theorem nil : Tops [] [] := ⟨List.nodup_nil, nofun, nofun⟩

theorem unique (h : Tops seen newest) {a b : KeyEntry} (ha : a ∈ newest) (hb : b ∈ newest) (hkey : a.key = b.key) :
    a = b :=
  List.inj_on_of_nodup_map h.nodup ha hb hkey

theorem mergeEntry (h : Tops seen newest) (item : KeyEntry) : Tops (seen ++ [item]) (mergeEntry newest item) := by
  unfold Djbod.mergeEntry
  cases hf : newest.find? fun e => e.key == item.key with
  | none =>
    have hfresh : ∀ e ∈ newest, e.key ≠ item.key := by simpa using List.find?_eq_none.mp hf
    refine ⟨List.nodup_cons.mpr ⟨by simpa using hfresh, h.nodup⟩, fun e he => ?_, fun x hx => ?_⟩
    · rcases List.mem_cons.mp he with rfl | he
      · simp
      · exact List.mem_append_left _ (h.kept e he)
    · rcases List.mem_append.mp hx with hx | hx
      · obtain ⟨e, he, htop⟩ := h.top x hx
        exact ⟨e, List.mem_cons_of_mem _ he, htop⟩
      · obtain rfl := List.mem_singleton.mp hx
        exact ⟨x, List.mem_cons_self, rfl, le_rfl⟩
  | some existing =>
    have hkey : existing.key = item.key := by simpa using List.find?_some hf
    have hmem := List.mem_of_find?_eq_some hf
    dsimp only
    split_ifs with hv
    · refine ⟨h.nodup, fun e he => List.mem_append_left _ (h.kept e he), fun x hx => ?_⟩
      rcases List.mem_append.mp hx with hx | hx
      · exact h.top x hx
      · obtain rfl := List.mem_singleton.mp hx
        exact ⟨existing, hmem, hkey, hv⟩
    · refine ⟨List.nodup_cons.mpr ⟨by simp, h.nodup.sublist (List.filter_sublist.map _)⟩, fun e he =>
        ?_, fun x hx => ?_⟩
      · rcases List.mem_cons.mp he with rfl | he
        · simp
        · exact List.mem_append_left _ (h.kept e (List.mem_of_mem_filter he))
      · rcases List.mem_append.mp hx with hx | hx
        · obtain ⟨e, he, hsame, hle⟩ := h.top x hx
          by_cases hitem : e.key = item.key
          · -- What was kept under this key is older than the new entry.
            obtain rfl := h.unique he hmem (hitem.trans hkey.symm)
            exact ⟨item, List.mem_cons_self, hkey.symm.trans hsame, hle.trans (not_le.mp hv).le⟩
          · exact ⟨e, List.mem_cons_of_mem _ (List.mem_filter.mpr ⟨he, by simpa using hitem⟩), hsame, hle⟩
        · obtain rfl := List.mem_singleton.mp hx
          exact ⟨x, List.mem_cons_self, rfl, le_rfl⟩

theorem foldl (h : Tops seen newest) (page : List KeyEntry) :
    Tops (seen ++ page) (page.foldl Djbod.mergeEntry newest) := by
  induction page generalizing seen newest with
  | nil => rwa [List.append_nil]
  | cons item page ih =>
    rw [List.foldl_cons, List.append_cons]
    exact ih (h.mergeEntry item)

end Tops

section Merge

variable {C : Cluster} {s : Store} {down : NodeId → Bool} {query : ListQuery}

def sentEntries (C : Cluster) (s : Store) (down : NodeId → Bool) (query : ListQuery) (nodes : List NodeEntry) :
    List KeyEntry :=
  (nodes.filter fun n => !down n.id).flatMap fun n => (nodePage C s query n.id).entries

theorem mergePages_tops {nodes : List NodeEntry} {answers : List (Except ErrorDetail LocalListPage)}
    (h : List.Forall₂ (PageOf C s down query) nodes answers) {merged merged' : Merged}
    (hmerge : mergePages C merged ((nodes.map NodeEntry.id).zip answers) = .ok merged') {seen : List KeyEntry}
    (htops : Tops seen merged.newest) : Tops (seen ++ sentEntries C s down query nodes) merged'.newest := by
  induction h generalizing merged seen with
  | nil =>
    cases hmerge
    simpa [sentEntries] using htops
  | @cons n answer nodes answers hone _ ih =>
    rw [List.map_cons, List.zip_cons_cons] at hmerge
    unfold PageOf at hone
    cases hdown : down n.id with
    | true =>
      rw [if_pos hdown] at hone
      obtain ⟨e, rfl, hcode⟩ := hone
      rw [mergePages, if_pos hcode] at hmerge
      rw [sentEntries, List.filter_cons_of_neg (by simp [hdown])]
      exact ih hmerge htops
    | false =>
      rw [if_neg (by rw [hdown]; exact Bool.false_ne_true)] at hone
      subst hone
      rw [mergePages] at hmerge
      rw [sentEntries, List.filter_cons_of_pos (by simp [hdown]), List.flatMap_cons, ← List.append_assoc]
      exact ih hmerge (htops.foldl _)

end Merge

/-! ## The newest version -/

/-- No record of the key on a device that is read is newer than the version. -/
def NewestRead (C : Cluster) (s : Store) (down : NodeId → Bool) (key : String) (v : VersionId) : Prop :=
  ∀ d ∈ reached C down, ∀ r ∈ s.allRecords d, r.key = key → r.version ≤ v

/-- The entry is that of a record on a device that is read. -/
def EntryRead (C : Cluster) (s : Store) (down : NodeId → Bool) (e : KeyEntry) : Prop :=
  ∃ d ∈ reached C down, ∃ r ∈ s.allRecords d, r.key = e.key ∧ r.version = e.version ∧ r.size = e.size

/-- Some node in reach has the newest version among its entries, and the page rule admits the entries as far as it. -/
def NewestSent (C : Cluster) (s : Store) (down : NodeId → Bool) (query : ListQuery) (key : String) : Prop :=
  ∃ n ∈ upNodes C down, ∃ front last back, nodeEntries C s query n.id = front ++ last :: back ∧ last.key = key ∧
    NewestRead C s down key last.version ∧ PageAdmits query.limit (front ++ [last])

section Newest

variable {C : Cluster} {s : Store} {down : NodeId → Bool} {query : ListQuery} {e : KeyEntry}

theorem nodeEntries_recorded {n : NodeEntry} (hn : n ∈ upNodes C down) (he : e ∈ nodeEntries C s query n.id) :
    EntryRead C s down e := by
  have hmem : e ∈ (C.opened n.id).flatMap (entriesOn s query) := by
    refine (List.mem_insertionSort KeyEntry.Le).mp ((dedupEntries_sublist _).subset ?_)
    unfold nodeEntries at he
    dsimp only at he
    split at he
    · exact he
    · exact List.mem_of_mem_filter he
  obtain ⟨d, hd, hon⟩ := List.mem_flatMap.mp hmem
  obtain ⟨r, hr, rfl⟩ := List.mem_map.mp hon
  exact ⟨d, List.mem_flatMap.mpr ⟨n, hn, hd⟩, r, List.mem_of_mem_filter hr, rfl, rfl, rfl⟩

theorem nodePage_front (C : Cluster) (s : Store) (query : ListQuery) (node : NodeId) :
    (nodePage C s query node).entries <+: nodeEntries C s query node := by
  obtain ⟨rest, hsplit, -⟩ := pageOfKeys_spec (nodeEntries C s query node) query.limit
  exact ⟨rest, hsplit.symm⟩

theorem mem_sentEntries : e ∈ sentEntries C s down query C.document.activeNodes ↔
    ∃ n ∈ upNodes C down, e ∈ (nodePage C s query n.id).entries := List.mem_flatMap

theorem pageAdmits_of_prefix {limit : Option ℕ} {front page : List KeyEntry} (hfront : front <+: page)
    (h : PageAdmits limit page) : PageAdmits limit front := by
  have hlen := hfront.length_le
  have htext : keyText front ≤ keyText page := by
    obtain ⟨rest, rfl⟩ := hfront
    simp [keyText]
  refine ⟨fun l hl => hlen.trans (h.1 l hl), ?_⟩
  have hroom := h.2
  omega

theorem Merged.mem_newest {merged : Merged} (h : e ∈ (merged.answer C query).keys) : e ∈ merged.newest := by
  obtain ⟨rest, hsplit, -⟩ := pageOfKeys_spec merged.visible query.limit
  have hvisible : e ∈ merged.visible := hsplit ▸ List.mem_append_left rest h
  unfold Merged.visible at hvisible
  split at hvisible
  · exact (List.mem_insertionSort _).mp hvisible
  · exact (List.mem_insertionSort _).mp (List.mem_of_mem_filter hvisible)

theorem admitted_of_sent {n : NodeEntry} (he : e ∈ (nodePage C s query n.id).entries) :
    ∃ front back, nodeEntries C s query n.id = front ++ e :: back ∧ PageAdmits query.limit (front ++ [e]) := by
  obtain ⟨front, more, hpage⟩ := List.append_of_mem he
  obtain ⟨rest, hsplit⟩ := nodePage_front C s query n.id
  refine ⟨front, more ++ rest, ?_, pageAdmits_of_prefix ⟨more, ?_⟩
    (pageOfKeys_admitted (nodeEntries C s query n.id) query.limit)⟩
  · rw [← hsplit, hpage, List.append_assoc, List.cons_append]
  · rw [List.append_assoc, List.singleton_append]
    exact hpage.symm

theorem sent_of_admitted {n : NodeEntry} {front back : List KeyEntry}
    (hsplit : nodeEntries C s query n.id = front ++ e :: back) (h : PageAdmits query.limit (front ++ [e])) :
    e ∈ (nodePage C s query n.id).entries := by
  have hfront : front ++ [e] <+: nodeEntries C s query n.id :=
    ⟨back, by rw [hsplit, List.append_assoc, List.singleton_append]⟩
  exact (prefix_pageOfKeys hfront h).subset (List.mem_append_right _ (List.mem_singleton_self e))

/-- Of what the nodes sent, the newest is the newest of all exactly when some page reaches that far. -/
theorem newest_iff_sent {kept : List KeyEntry} (h : Tops (sentEntries C s down query C.document.activeNodes) kept)
    (he : e ∈ kept) : NewestRead C s down e.key e.version ↔ NewestSent C s down query e.key := by
  constructor
  · intro hnewest
    obtain ⟨n, hn, hpage⟩ := mem_sentEntries.mp (h.kept e he)
    obtain ⟨front, back, hsplit, hadmits⟩ := admitted_of_sent hpage
    exact ⟨n, hn, front, e, back, hsplit, rfl, hnewest, hadmits⟩
  · intro hsent d hd r hr hkey
    obtain ⟨n, hn, front, last, back, hsplit, hlast, hnewest, hadmits⟩ := hsent
    obtain ⟨e', he', hsame, hle⟩ := h.top last (mem_sentEntries.mpr ⟨n, hn, sent_of_admitted hsplit hadmits⟩)
    obtain rfl := h.unique he he' (hlast.symm.trans hsame.symm)
    exact (hnewest d hd r hr hkey).trans hle

end Newest

/-- **A listing shows a record of each key, and the newest one exactly when some node's page reaches it.** -/
theorem listed_newest_iff (X : Crates) (C : Cluster) (s : Store) (down : NodeId → Bool) (query : ListQuery) :
    ∃ answer, (listKeys X C query).run.eval (execOut (nodesDown down)) ⟨s, none⟩ = (.ok answer, ⟨s, none⟩) ∧
      ∀ e ∈ answer.keys, EntryRead C s down e ∧
        (NewestRead C s down e.key e.version ↔ NewestSent C s down query e.key) := by
  obtain ⟨answers, merged, hpages, hmerge, heval⟩ := listKeys_pages X C query (execOut_sees (nodesDown down) s)
  have htops : Tops (sentEntries C s down query C.document.activeNodes) merged.newest :=
    mergePages_tops hpages hmerge Tops.nil
  refine ⟨_, heval, fun e he => ?_⟩
  have hnewest := Merged.mem_newest he
  refine ⟨?_, newest_iff_sent htops hnewest⟩
  obtain ⟨n, hn, hpage⟩ := mem_sentEntries.mp (htops.kept e hnewest)
  exact nodeEntries_recorded hn ((nodePage_front C s query n.id).subset hpage)

/-- A device with two versions of one key, the newer one longer. -/
def twoVersions : Store :=
  ⟨fun _ => some (.ofRecords [smallRecord 1 0 [0], byteRecord 2 0 [0]] (by decide +kernel)), fun _ => ⟨0, 0⟩⟩

/-- **A page of one entry ends at the older version of a key**: the listing shows it while the device that it read has
the newer one. -/
theorem older_listed : (∀ r ∈ twoVersions.allRecords 0, r.validate smallCrates.hashKey = .ok ()) ∧
    ∃ answer, (listKeys smallCrates (small 0 [.active]) ⟨none, none, some 1⟩).run.eval
        (execOut (nodesDown fun _ => false)) ⟨twoVersions, none⟩ = (.ok answer, ⟨twoVersions, none⟩) ∧
      ⟨"k", 0, 1⟩ ∈ answer.keys ∧ ¬NewestRead (small 0 [.active]) twoVersions (fun _ => false) "k" 1 := by
  refine ⟨by decide +kernel, _, rfl, by decide +kernel, fun h => ?_⟩
  have hle := h 0 (by decide +kernel) (byteRecord 2 0 [0]) (by decide +kernel) rfl
  exact absurd hle (by decide)

end Djbod
