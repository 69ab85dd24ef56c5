import Djbod.Node.Listing
import Djbod.Node.Messages
import Djbod.Object.Small

/-!
# Whether the pages of a listing fit in a frame

A page is cut by the text of its keys; what travels is their encoding.

* `PageAdmits` : the page rule admits this many keys from the front;
* `pageOfKeys_admitted`, `prefix_pageOfKeys` : a page is the longest front that the rule admits;
* `Roomy` : every front that the rule admits fits in a frame when it is encoded;
* `listing_fits_iff` : a page fits in a frame exactly when its keys leave room.
-/

namespace Djbod

open Sched Cbor

def keyText (entries : List KeyEntry) : ℕ := (entries.map fun e => e.key.utf8ByteSize).sum

/-- The page rule admits the entries: no more than the limit, which counts as one if it is zero, and one key or a
limited length of text. -/
def PageAdmits (limit : Option ℕ) (front : List KeyEntry) : Prop :=
  (∀ l, limit = some l → front.length ≤ max l 1) ∧ (front.length ≤ 1 ∨ keyText front ≤ maxListPageBytes)

/-- Every front of the entries that the page rule admits fits in a frame with what else the message carries. -/
def Roomy (limit : Option ℕ) (overhead : ℕ) (entries : List KeyEntry) : Prop :=
  ∀ front, front <+: entries → PageAdmits limit front → overhead + keyEntriesBytes front ≤ maxPayloadLen

/-! ## The page rule -/

/-- The same behind `count` entries with `bytes` bytes of text. -/
def PageAdmitsFrom (limit : Option ℕ) (count bytes : ℕ) (front : List KeyEntry) : Prop :=
  (∀ l, limit = some l → count + front.length ≤ l) ∧
    (count + front.length ≤ 1 ∨ bytes + keyText front ≤ maxListPageBytes)

variable {bytes count : ℕ} {e : KeyEntry} {front : List KeyEntry} {limit : Option ℕ}

theorem pageAdmitsFrom_cons :
    PageAdmitsFrom limit count bytes (e :: front) ↔ PageAdmitsFrom limit (count + 1)
    (bytes + e.key.utf8ByteSize) front := by
  simp only [PageAdmitsFrom, List.length_cons, keyText, List.map_cons, List.sum_cons]
  rw [Nat.add_right_comm count 1, Nat.add_assoc bytes, Nat.add_assoc count]

theorem pageAdmits_iff : PageAdmits limit front ↔ PageAdmitsFrom (limit.map fun l => max l 1) 0 0 front := by
  unfold PageAdmits PageAdmitsFrom
  cases limit <;> simp

theorem pageOfKeysFrom_full :
    ((limit.any fun l => decide (count ≥ l)) || (decide (count ≠ 0) && decide
    (bytes + e.key.utf8ByteSize > maxListPageBytes))) = false ↔
      (∀ l, limit = some l → count + 1 ≤ l) ∧ (count = 0 ∨ bytes + e.key.utf8ByteSize ≤ maxListPageBytes) := by
  rw [Bool.or_eq_false_iff, Bool.and_eq_false_iff]
  cases limit <;> simp

theorem pageOfKeysFrom_admitted (entries : List KeyEntry) (hlimit : ∀ l, limit = some l → count ≤ l)
    (hbytes : count ≤ 1 ∨ bytes ≤ maxListPageBytes) :
    PageAdmitsFrom limit count bytes (pageOfKeysFrom limit count bytes entries).1 := by
  induction entries generalizing count bytes with
  | nil => exact ⟨hlimit, hbytes⟩
  | cons e rest ih =>
    unfold pageOfKeysFrom
    split_ifs with hfull
    · exact ⟨hlimit, hbytes⟩
    · obtain ⟨hcount, htext⟩ := pageOfKeysFrom_full.mp (Bool.eq_false_of_not_eq_true hfull)
      exact pageAdmitsFrom_cons.mpr (ih hcount (htext.imp (by omega) id))

variable {entries : List KeyEntry}

theorem prefix_pageOfKeysFrom (hfront : front <+: entries) (h : PageAdmitsFrom limit count bytes front) :
    front <+: (pageOfKeysFrom limit count bytes entries).1 := by
  induction entries generalizing count bytes front with
  | nil => exact hfront
  | cons e rest ih =>
    cases front with
    | nil => exact List.nil_prefix
    | cons e' front =>
      obtain ⟨rfl, hrest⟩ := List.cons_prefix_cons.mp hfront
      have hroom : ((limit.any fun l => decide (count ≥ l)) ||
          (decide (count ≠ 0) && decide (bytes + e'.key.utf8ByteSize > maxListPageBytes))) = false := by
        refine pageOfKeysFrom_full.mpr ⟨fun l hl => ?_, ?_⟩
        · have hcount := h.1 l hl
          rw [List.length_cons] at hcount
          omega
        · have htext := h.2
          rw [List.length_cons, keyText, List.map_cons, List.sum_cons] at htext
          omega
      unfold pageOfKeysFrom
      rw [if_neg (by rw [hroom]; exact Bool.false_ne_true)]
      exact List.cons_prefix_cons.mpr ⟨rfl, ih hrest (pageAdmitsFrom_cons.mp h)⟩

theorem pageOfKeys_admitted (entries : List KeyEntry) (limit : Option ℕ) :
    PageAdmits limit (pageOfKeys entries limit).1 :=
  pageAdmits_iff.mpr (pageOfKeysFrom_admitted entries (fun _ _ => Nat.zero_le _) (.inl (by decide)))

theorem prefix_pageOfKeys (hfront : front <+: entries) (h : PageAdmits limit front) :
    front <+: (pageOfKeys entries limit).1 := prefix_pageOfKeysFrom hfront (pageAdmits_iff.mp h)

theorem keyEntriesBytes_mono {page : List KeyEntry} (h : front <+: page) :
    keyEntriesBytes front ≤ keyEntriesBytes page := by
  obtain ⟨rest, rfl⟩ := h
  unfold keyEntriesBytes
  rw [List.map_append, List.sum_append]
  have hhead := headLen_mono (show front.length ≤ (front ++
    rest).length by rw [List.length_append]; exact Nat.le_add_right _ _)
  omega

/-- **A page fits exactly when its keys leave room.** -/
theorem page_fits_iff (entries : List KeyEntry) (limit : Option ℕ) (overhead : ℕ) :
    overhead + keyEntriesBytes (pageOfKeys entries limit).1 ≤ maxPayloadLen ↔ Roomy limit overhead entries := by
  constructor
  · intro hfits front hfront hadmitted
    exact (Nat.add_le_add_left (keyEntriesBytes_mono (prefix_pageOfKeys hfront hadmitted)) _).trans hfits
  · intro hroomy
    obtain ⟨rest, hsplit, -⟩ := pageOfKeys_spec entries limit
    exact hroomy _ ⟨rest, hsplit.symm⟩ (pageOfKeys_admitted entries limit)

/-! ## The pages of a listing -/

theorem listKeys_answer {σ : Type} {ex : (o : Op) → σ → Resp o × σ} {w w' : σ} {X : Crates} {C : Cluster}
    {query : ListQuery} {answer : ListAnswer} (h : (listKeys X C query).run.eval ex w = (.ok answer, w')) :
    ∃ answers w₁ merged, (broadcastLocalList X C query).eval ex w = (answers, w₁) ∧
      mergePages C ⟨[], [], false, none⟩ ((C.document.activeNodes.map NodeEntry.id).zip answers) = .ok merged ∧
      answer = merged.answer C query := by
  unfold listKeys at h
  obtain ⟨answers, w₁, hbroadcast, h⟩ := Prog.eval_try_inv h
  obtain ⟨merged, w₂, hmerged, h⟩ := Prog.eval_try_inv h
  rw [Prog.eval_lift] at hbroadcast
  obtain ⟨hanswers, hw₁⟩ := Prod.mk.inj hbroadcast
  refine ⟨answers, w₁, merged, Prod.ext (Except.ok.inj hanswers) hw₁, congrArg Prod.fst hmerged, ?_⟩
  have hanswer : merged.answer C query = answer := Except.ok.inj (congrArg Prod.fst h)
  exact hanswer.symm

theorem nodePage_fits_iff (C : Cluster) (s : Store) (node : NodeId) (query : ListQuery) :
    (encodeLocalList (nodePage C s query node)).length ≤ maxPayloadLen ↔
      Roomy query.limit (localListOverhead (nodeUnread C s node).length) (nodeEntries C s query node) := by
  rw [encodeLocalList_length]
  exact page_fits_iff _ _ _

/-- **The pages of a listing fit in a frame exactly when their keys leave room.** A node's page is drawn from the
matching keys of the records on its devices behind the cursor, the cluster's from the keys of the pages that the nodes
answer with. -/
theorem listing_fits_iff (X : Crates) (C : Cluster) (query : ListQuery) :
    (∀ (s : Store) (node : NodeId), ∃ page, (localList C node query).run.eval exec s = (.ok page, s) ∧
      ((encodeLocalList page).length ≤ maxPayloadLen ↔
        Roomy query.limit (localListOverhead (nodeUnread C s node).length) (nodeEntries C s query node))) ∧
    ∀ {σ : Type} (ex : (o : Op) → σ → Resp o × σ) (w w' : σ) (answer : ListAnswer),
      (listKeys X C query).run.eval ex w = (.ok answer, w') →
        ∃ answers w₁ merged, (broadcastLocalList X C query).eval ex w = (answers, w₁) ∧
          (∀ s down, Sees ex w s down → List.Forall₂ (PageOf C s down query) C.document.activeNodes answers) ∧
          mergePages C ⟨[], [], false, none⟩ ((C.document.activeNodes.map NodeEntry.id).zip answers) = .ok merged ∧
          answer.keys = (pageOfKeys merged.visible query.limit).1 ∧ answer.unread.length = merged.unread.length ∧
          ((encodeListKeys answer).length ≤ maxPayloadLen ↔
            Roomy query.limit (listKeysOverhead merged.unread.length) merged.visible) := by
  refine ⟨fun s node => ⟨nodePage C s query node, eval_localList (exec_sees s) node, nodePage_fits_iff C s node query⟩,
    fun ex w w' answer h => ?_⟩
  obtain ⟨answers, w₁, merged, hbroadcast, hmerged, rfl⟩ := listKeys_answer h
  have hunread : (merged.answer C query).unread.length = merged.unread.length := List.length_insertionSort _ _
  refine ⟨answers, w₁, merged, hbroadcast, fun s down hw => ?_, hmerged, rfl, hunread, ?_⟩
  · obtain ⟨answers', hpages, heval⟩ := broadcastLocalList_eval X C query hw
    rw [hbroadcast] at heval
    exact (Prod.mk.inj heval).1 ▸ hpages
  · rw [encodeListKeys_length, hunread]
    exact page_fits_iff _ _ _

/-! ## Many short keys -/

def Disk.ofRecords (rs : List MetadataRecord) (h : (rs.map fun r => (r.keyHash, r.version)).Nodup) : Disk where
  records := ⟨rs.map fun r => ⟨(r.keyHash, r.version), .ok r⟩, by rwa [List.NodupKeys, List.keys, List.map_map]⟩
  shards := ∅
  filed place r hr := by
    obtain ⟨r', -, heq⟩ := List.mem_map.mp (AList.mem_lookup_iff.mp hr)
    cases heq
    rfl

variable {r : MetadataRecord}

theorem Disk.lookup_ofRecords {rs : List MetadataRecord} {h : (rs.map fun r => (r.keyHash, r.version)).Nodup} :
    (Disk.ofRecords rs h).records.lookup (r.keyHash, r.version) = some (.ok r) ↔ r ∈ rs := by
  refine AList.mem_lookup_iff.trans ⟨fun hmem => ?_, fun hmem => List.mem_map.mpr ⟨r, hmem, rfl⟩⟩
  obtain ⟨r', hr', heq⟩ := List.mem_map.mp hmem
  rw [← Except.ok.inj (eq_of_heq (Sigma.mk.inj heq).2)]
  exact hr'

def shortKey (i : ℕ) : String := String.ofList (FixedWidth.text hexDigit 16 6 i)

def spreadHash (key : String) : KeyHash := Fin.ofNat _ (FixedWidth.value 128 (key.toList.map Char.toNat))

def shortRecord (i : ℕ) : MetadataRecord :=
  { smallRecord (Fin.ofNat _ i) 0 [0] with key := shortKey i, keyHash := spreadHash (shortKey i) }

theorem shortRecord_valid (i : ℕ) : (shortRecord i).validate spreadHash = .ok () :=
  MetadataRecord.validate_eq_ok.mpr
    { system := rfl
      contentType := Nat.zero_le _
      formatVersion := rfl
      keyHash := rfl
      scheme := ⟨⟨1, 0, by decide, by decide, by decide, by decide⟩, rfl, rfl,
        (by decide : ∀ shard ∈ [(⟨0, 0⟩ : ShardLocation)], shard.index < 1), (by decide : ∀ index < 1, index ∈ [0])⟩
      blockSize := (by decide : 0 < 65536 ∧ 65536 % 4096 = 0)
      indices := List.nodup_singleton 0
      devices := List.nodup_singleton 0 }

def crowdSize : ℕ := 1300000

def crowd : List MetadataRecord := (List.range crowdSize).map shortRecord

theorem crowd_nodup : (crowd.map fun r => (r.keyHash, r.version)).Nodup := by
  rw [crowd, List.map_map]
  refine List.Nodup.map_on (fun i hi j hj heq => ?_) List.nodup_range
  have hversion : (Fin.ofNat (2 ^ 128) i).val = (Fin.ofNat (2 ^ 128) j).val := congrArg Fin.val (Prod.mk.inj heq).2
  rw [Fin.val_ofNat, Fin.val_ofNat, Nat.mod_eq_of_lt, Nat.mod_eq_of_lt] at hversion
  · exact hversion
  · exact (List.mem_range.mp hj).trans (by norm_num [crowdSize])
  · exact (List.mem_range.mp hi).trans (by norm_num [crowdSize])

def crowdStore : Store := ⟨fun _ => some (.ofRecords crowd crowd_nodup), fun _ => ⟨0, 0⟩⟩

theorem mem_crowdStore {d : DeviceId} : r ∈ crowdStore.allRecords d ↔ r ∈ crowd := by
  rw [mem_allRecords, Store.getRecord, crowdStore, Option.bind_some, Disk.lookup_ofRecords]

theorem shortKey_injective : ∀ i < crowdSize, ∀ j < crowdSize, shortKey i = shortKey j → i = j := by
  have hlt : ∀ {i j : ℕ}, j < crowdSize → i < j → shortKey i ≠ shortKey j := by
    intro i j hj hij heq
    have htext : FixedWidth.text hexDigit 16 6 i < FixedWidth.text hexDigit 16 6 j :=
        FixedWidth.text_lt (by decide) hexDigit_lt (by
      rw [Nat.mod_eq_of_lt, Nat.mod_eq_of_lt]
      · exact hij
      · exact hj.trans (by norm_num [crowdSize])
      · exact (hij.trans hj).trans (by norm_num [crowdSize]))
    exact htext.ne (String.ofList_injective heq)
  intro i hi j hj heq
  rcases lt_trichotomy i j with h | h | h
  · exact absurd heq (hlt hj h)
  · exact h
  · exact absurd heq.symm (hlt hi h)

section Crowd

variable {e : KeyEntry}

theorem crowd_key (he : e ∈ nodeEntries (small 0 [.active]) crowdStore ⟨none, none, none⟩ 0) :
    e.key.utf8ByteSize = 6 := by
  have hmem := (List.mem_insertionSort _).mp ((dedupEntries_sublist _).subset he)
  obtain ⟨d, -, hd⟩ := List.mem_flatMap.mp hmem
  obtain ⟨r, hr, rfl⟩ := List.mem_map.mp hd
  obtain ⟨i, -, rfl⟩ := List.mem_map.mp (mem_crowdStore.mp (List.mem_filter.mp hr).1)
  exact hexText_size 6 i

theorem crowd_length : crowdSize ≤ (nodeEntries (small 0 [.active]) crowdStore ⟨none, none, none⟩ 0).length := by
  have hnodup : ((List.range crowdSize).map shortKey).Nodup :=
    List.Nodup.map_on (fun i hi j hj => shortKey_injective i (List.mem_range.mp hi) j (List.mem_range.mp hj))
    List.nodup_range
  have hsub : (List.range crowdSize).map shortKey ⊆
      (nodeEntries (small 0 [.active]) crowdStore ⟨none, none, none⟩ 0).map KeyEntry.key := by
    intro key hkey
    obtain ⟨i, hi, rfl⟩ := List.mem_map.mp hkey
    have hasks : (⟨none, none, none⟩ : ListQuery).Asks (shortRecord i).key := ⟨rfl, nofun⟩
    have hopened : 0 ∈ (small 0 [.active]).opened 0 := by decide
    obtain ⟨e, he, hkey⟩ := nodeEntries_key hopened (mem_crowdStore.mpr (List.mem_map_of_mem hi)) hasks
    exact List.mem_map.mpr ⟨e, he, hkey⟩
  have hle := (hnodup.subperm hsub).length_le
  rwa [List.length_map, List.length_map, List.length_range] at hle

theorem keyText_of_six (h : ∀ e ∈ front, e.key.utf8ByteSize = 6) : keyText front = 6 * front.length := by
  induction front with
  | nil => rfl
  | cons e front ih =>
    have htail := ih fun e' he' => h e' (List.mem_cons_of_mem _ he')
    rw [keyText] at htail ⊢
    rw [List.map_cons, List.sum_cons, htail, h e List.mem_cons_self, List.length_cons]
    omega

theorem keyEntriesBytes_of_six (h : ∀ e ∈ front, e.key.utf8ByteSize = 6) :
    54 * front.length ≤ keyEntriesBytes front := by
  have hsum : (front.map keyEntryBytes).length • 54 ≤ (front.map keyEntryBytes).sum := by
    refine List.card_nsmul_le_sum _ _ fun n hn => ?_
    obtain ⟨e, he, rfl⟩ := List.mem_map.mp hn
    have hpos := headLen_pos e.size
    have hhead : headLen 6 = 1 := rfl
    rw [keyEntryBytes, Cbor.textLen, h e he, hhead]
    omega
  rw [List.length_map, smul_eq_mul] at hsum
  rw [keyEntriesBytes]
  omega

end Crowd

/-- **A node with many short keys has a page that no frame carries**: 1.3 million keys of six bytes are less than 8 MiB
of text, and more than 64 MiB when encoded. -/
theorem listing_overflows : (∀ r ∈ crowdStore.allRecords 0, r.validate spreadHash = .ok ()) ∧
    ∃ page, (localList (small 0 [.active]) 0 ⟨none, none, none⟩).run.eval exec crowdStore = (.ok page, crowdStore) ∧
      ¬(encodeLocalList page).length ≤ maxPayloadLen := by
  refine ⟨fun r hr => ?_, nodePage (small 0 [.active]) crowdStore ⟨none, none, none⟩ 0, eval_localList (exec_sees _) 0,
    fun hfits => ?_⟩
  · obtain ⟨i, -, rfl⟩ := List.mem_map.mp (mem_crowdStore.mp hr)
    exact shortRecord_valid i
  · have hroomy := (nodePage_fits_iff _ _ _ _).mp hfits
    have hsix : ∀ e ∈ (nodeEntries (small 0 [.active]) crowdStore ⟨none, none, none⟩ 0).take crowdSize,
        e.key.utf8ByteSize = 6 :=
      fun e he => crowd_key (List.mem_of_mem_take he)
    have hlen := List.length_take_of_le crowd_length
    have hbytes := hroomy _ (List.take_prefix crowdSize _) ⟨nofun, .inr (by
      rw [keyText_of_six hsix, hlen]
      decide)⟩
    have hmany := keyEntriesBytes_of_six hsix
    rw [hlen] at hmany
    have hover : maxPayloadLen < 54 * crowdSize := by decide
    omega

end Djbod
