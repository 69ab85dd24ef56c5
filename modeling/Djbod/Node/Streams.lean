import Djbod.Node.Outage

/-!
# Opening shards and reading their streams

A read that runs alone, over a store in which shards may be missing and whose streams may break off.

* `shardAt` : the shard file a read can open for an index; `blockAt` : what it reads of it for a stripe;
* `Shows` : an executor under which the shards of a store can be opened and some of their blocks arrive,
  `exec_shows` and `execOut_shows` : with nothing failing, and during an outage;
* `openShards_eval` : the streams of the shards that can be opened, or the failure of a short one;
* `readStripeBlocks_eval` : one block from every stream, or the failure of one that breaks off.
-/

namespace Djbod

open Sched

variable {X : Crates} {C : Cluster} {s : Store}

/-! ## Evaluating requests -/

theorem device_listed {d : DeviceId} {entry : DeviceEntry} (h : C.document.device d = some entry) :
    (C.document.node entry.node).isSome := C.owner_listed entry (List.mem_of_find?_eq_some h)

/-! ## Opening shards -/

def shardAt (C : Cluster) (r : MetadataRecord) (s : Store) (i : ℕ) : Option ShardFile :=
  (r.deviceFor i).bind fun d => (C.document.device d).bind fun entry =>
    if d ∈ C.opened entry.node then
      match s.getShard d r.keyHash r.version i with
      | some (.ok file) => some file
      | _ => none
    else none

def sourceAt (C : Cluster) (r : MetadataRecord) (i : ℕ) (file : ShardFile) (next stop : ℕ) : ShardSource where
  index := i
  device := (r.deviceFor i).getD 0
  owner := (((r.deviceFor i).bind C.document.device).map DeviceEntry.node).getD 0
  file := file
  next := next
  stop := stop

def sourcesAt (C : Cluster) (r : MetadataRecord) (s : Store) (next stop : ℕ) (indices : List ℕ) : List ShardSource :=
  indices.filterMap fun i => (shardAt C r s i).map fun file => sourceAt C r i file next stop

/-- The store as nodes that are not down show it. -/
def Store.behind (s : Store) (C : Cluster) (down : NodeId → Bool) : Store :=
  { s with disk := fun d => if (C.document.device d).any fun e => down e.node then none else s.disk d }

theorem Store.behind_up (s : Store) (C : Cluster) : s.behind C (fun _ => false) = s := by
  unfold Store.behind
  congr
  funext d
  cases C.document.device d <;> rfl

/-- An executor under which the shards of `s` can be opened, and the blocks that `arrives` marks arrive. -/
structure Shows {σ : Type} (ex : (o : Op) → σ → Resp o × σ) (w : σ) (X : Crates) (C : Cluster) (s : Store)
    (r : MetadataRecord) (arrives : ShardFile → ℕ → Prop) : Prop where
  opened : ∀ (key : String) (i first count : ℕ) (file : ShardFile), shardAt C r s i = some file →
    first + count ≤ file.footer.blockCount →
    (openShardSource X C r key i first count).run.eval ex w = (.ok (sourceAt C r i file first (first + count)), w)
  short : ∀ (key : String) (i first count : ℕ) (file : ShardFile), shardAt C r s i = some file →
    file.footer.blockCount < first + count →
    ∃ e e', (openShardSource X C r key i first count).run.eval ex w = (.error e, w) ∧ openFault e = .error e'
  closed : ∀ (key : String) (i first count : ℕ), shardAt C r s i = none → (r.deviceFor i).isSome →
    ∃ e fault, (openShardSource X C r key i first count).run.eval ex w = (.error e, w) ∧ openFault e = .ok fault
  block : ∀ source : ShardSource, source.next < source.stop → source.stop ≤ source.file.footer.blockCount →
    arrives source.file source.next → (readStreamItem X r source).run.eval ex w = (.ok (.data
      ⟨source.next, source.file.footer.checksums.getD source.next 0, source.file.blocks.getD source.next []⟩), w)
  broken : ∀ source : ShardSource, source.next < source.stop → source.stop ≤ source.file.footer.blockCount →
    ¬ arrives source.file source.next → ∃ res, (readStreamItem X r source).run.eval ex w = (res, w) ∧
    ∀ frame, res ≠ .ok (.data frame)
  ended : ∀ source : ShardSource, source.next = source.stop →
    (readStreamItem X r source).run.eval ex w = (.ok (.ended none), w)

/-- The codes of a device's error are never those of a node that answers wrongly. -/
theorem openFault_device (e : DeviceError) (node : Option NodeId) (d : DeviceId) :
    ∃ fault, openFault { withDevice (deviceErrorDetail e) d with node := node } = .ok fault := by
  cases e with
  | io kind => cases kind <;> exact ⟨_, rfl⟩
  | shardFile e =>
    cases e with
    | io kind => cases kind <;> exact ⟨_, rfl⟩
    | _ => exact ⟨_, rfl⟩
  | _ => exact ⟨_, rfl⟩

section Opening

variable {σ : Type} {ex : (o : Op) → σ → Resp o × σ} {w : σ} {down : NodeId → Bool} {r : MetadataRecord} {i : ℕ}

theorem eval_openOwn (hw : Sees ex w s down) {node : NodeId} {d : DeviceId} (hd : d ∈ C.opened node) (kh : KeyHash)
    (v : VersionId) : (onOwnDevice X C node d (Device.file (Task.perform (Op.openShard d kh v i)))).run.eval ex w =
      (match s.getShard d kh v i with
        | none => .error (withDevice (deviceErrorDetail (.shardFile (.io .notFound))) d)
        | some (.error e) => .error (withDevice (deviceErrorDetail (.shardFile e)) d)
        | some (.ok file) => .ok file, w) := by
  have hop : (Device.file (Task.perform (Op.openShard d kh v i))).run.eval ex w = _ := hw.openShard d kh v i
  unfold onOwnDevice
  rw [if_pos hd, ExceptT.run_mk, Task.eval_bind, hop]
  simp only [exec]
  cases s.getShard d kh v i with
  | none => rfl
  | some content => cases content <;> rfl

theorem shardAt_behind {file : ShardFile} (h : shardAt C r (s.behind C down) i = some file) :
    ∃ d entry, r.deviceFor i = some d ∧ C.document.device d = some entry ∧ down entry.node = false ∧
      d ∈ C.opened entry.node ∧ s.getShard d r.keyHash r.version i = some (.ok file) := by
  obtain ⟨d, hd, h⟩ := Option.bind_eq_some_iff.mp h
  obtain ⟨entry, hentry, h⟩ := Option.bind_eq_some_iff.mp h
  split_ifs at h with hopen
  cases hdown : down entry.node with
  | true =>
    have hgone : (s.behind C down).getShard d r.keyHash r.version i = none := by
      simp [Store.getShard, Store.behind, hentry, hdown]
    rw [hgone] at h
    cases h
  | false =>
    have hsame : (s.behind C down).getShard d r.keyHash r.version i = s.getShard d r.keyHash r.version i := by
      simp [Store.getShard, Store.behind, hentry, hdown]
    rw [hsame] at h
    refine ⟨d, entry, hd, hentry, hdown, hopen, ?_⟩
    split at h
    · next file' hf => cases h; exact hf
    · cases h

/-- A file with too few blocks is an answer out of protocol, which fails the read. -/
theorem openShardSource_some (hw : Sees ex w s down) (key : String) {first count : ℕ} {file : ShardFile}
    (h : shardAt C r (s.behind C down) i = some file) :
    (first + count ≤ file.footer.blockCount →
      (openShardSource X C r key i first count).run.eval ex w = (.ok (sourceAt C r i file first (first + count)), w)) ∧
    (file.footer.blockCount < first + count →
      ∃ e e', (openShardSource X C r key i first count).run.eval ex w = (.error e, w) ∧ openFault e = .error e') := by
  obtain ⟨d, entry, hd, hentry, hup, hopen, hshard⟩ := shardAt_behind h
  have hget : ∀ {res}, (if file.footer.blockCount < first + count then .error (.new .protocolViolation
        s!"blocks {first}..{first}+{count} requested but the shard has {file.footer.blockCount}") else .ok file) = res →
      (getShard X C entry.node d r.keyHash r.version i first count).run.eval ex w = (res, w) := by
    rintro _ rfl
    unfold getShard
    rw [Task.eval_try_ok ((eval_openOwn hw hopen _ _).trans (by rw [hshard]))]
    split_ifs <;> rfl
  unfold openShardSource
  simp only [hd, hentry]
  rw [Task.eval_try_ok (eval_connectTo_up hw (device_listed hentry) hup)]
  constructor
  · intro hcount
    rw [Task.eval_try_ok (eval_request_of hw X entry.node (hget (if_neg (Nat.not_lt.mpr hcount))))]
    simp only [sourceAt, hd, hentry, Option.bind_some, Option.map_some, Option.getD_some]
    rfl
  · exact fun hcount => ⟨_, _, Task.eval_try_error (eval_request_of hw X entry.node (hget (if_pos hcount))), rfl⟩

theorem openShardSource_none (hw : Sees ex w s down) (key : String) (first count : ℕ)
    (h : shardAt C r (s.behind C down) i = none) (hd : (r.deviceFor i).isSome) :
    ∃ e fault, (openShardSource X C r key i first count).run.eval ex w = (.error e, w) ∧ openFault e = .ok fault := by
  obtain ⟨d, hd⟩ := Option.isSome_iff_exists.mp hd
  unfold openShardSource
  simp only [hd]
  cases hentry : C.document.device d with
  | none => exact ⟨_, _, rfl, rfl⟩
  | some entry =>
    dsimp only
    cases hdown : down entry.node with
    | true =>
      obtain ⟨e, he, hcode⟩ := eval_connectTo_down (X := X) hw (device_listed hentry) hdown
      exact ⟨e, .unavailable e.message, Task.eval_try_error he, by rw [openFault, hcode]⟩
    | false =>
      rw [Task.eval_try_ok (eval_connectTo_up hw (device_listed hentry) hdown)]
      have hsame : (s.behind C down).getShard d r.keyHash r.version i = s.getShard d r.keyHash r.version i := by
        simp [Store.getShard, Store.behind, hentry, hdown]
      simp only [shardAt, hd, hentry, Option.bind_some, hsame] at h
      obtain ⟨e, hown, hfault⟩ : ∃ e, (onOwnDevice X C entry.node d
          (Device.file (Task.perform (Op.openShard d r.keyHash r.version i)))).run.eval ex w = (.error e, w) ∧
            ∀ node, ∃ fault, openFault { e with node := node } = .ok fault := by
        by_cases hopen : d ∈ C.opened entry.node
        · rw [if_pos hopen] at h
          rw [eval_openOwn hw hopen]
          cases hs : s.getShard d r.keyHash r.version i with
          | none => exact ⟨_, rfl, fun node => openFault_device _ node d⟩
          | some content =>
            cases content with
            | error e => exact ⟨_, rfl, fun node => openFault_device _ node d⟩
            | ok file => rw [hs] at h; cases h
        · unfold onOwnDevice
          rw [if_neg hopen]
          exact ⟨_, rfl, fun node => ⟨_, rfl⟩⟩
      have hget : (getShard X C entry.node d r.keyHash r.version i first count).run.eval ex w = (.error e, w) :=
        Task.eval_try_error hown
      obtain ⟨fault, hfault⟩ := hfault (e.node <|> some entry.node)
      exact ⟨_, fault, Task.eval_try_error (eval_request_of hw X entry.node hget), hfault⟩

theorem readBlock_ok {file : ShardFile} {t : ℕ} (h : t < file.footer.blockCount) :
    file.readBlock t = .ok ⟨file.header.shardIndex, file.blocks.getD t [], file.footer.checksums.getD t 0⟩ := by
  have hb : t < file.blocks.length := by rw [file.blocks_length]; exact h
  have hc : t < file.footer.checksums.length := by rw [file.checksums_length]; exact hb
  simp [ShardFile.readBlock, List.getElem?_eq_getElem hb, List.getElem?_eq_getElem hc]

theorem eval_readStreamItem {w' w'' : σ} {source : ShardSource} (hnext : source.next < source.stop)
    {res : Except DeviceError ShardBlock} {sent : Except String Unit}
    (hread : ex (.readBlock source.file source.next) w = (res, w'))
    (hsent : ex (.transfer source.owner) w' = (sent, w'')) :
    ∃ item, (readStreamItem X r source).run.eval ex w = (item, w'') ∧
      ((∃ block, res = .ok block ∧ sent = .ok () ∧ item = .ok (.data ⟨source.next, block.checksum, block.bytes⟩)) ∨
        ((∃ e, res = .error e) ∨ ∃ e, sent = .error e) ∧ ∀ frame, item ≠ .ok (.data frame)) := by
  unfold readStreamItem
  rw [if_pos hnext]
  generalize hhandler : (ExceptT.mk _ : NodeProc StreamItem) = handler
  have hitem : ∃ item, handler.run.eval ex w = (.ok item, w') ∧
      ((∃ block, res = .ok block ∧ item = .data ⟨source.next, block.checksum, block.bytes⟩) ∨
        (∃ e, res = .error e) ∧ ∀ frame, item ≠ .data frame) := by
    rw [← hhandler, ExceptT.run_mk, Task.eval_bind, Task.eval_perform, hread]
    cases res with
    | ok block => exact ⟨_, rfl, .inl ⟨block, rfl, rfl⟩⟩
    | error e => exact ⟨_, rfl, .inr ⟨⟨e, rfl⟩, nofun⟩⟩
  obtain ⟨item, hitem, hcase⟩ := hitem
  cases sent with
  | error reason =>
    obtain ⟨e, he⟩ := eval_request_lost X hitem hsent
    exact ⟨_, he, .inr ⟨.inr ⟨_, rfl⟩, nofun⟩⟩
  | ok u =>
    refine ⟨_, eval_request_sent X hitem hsent, ?_⟩
    rcases hcase with ⟨block, hres, rfl⟩ | ⟨hres, hno⟩
    · exact .inl ⟨block, hres, rfl, rfl⟩
    · exact .inr ⟨.inl hres, fun frame hframe => hno frame (Except.ok.inj hframe)⟩

theorem eval_readStreamItem_end {source : ShardSource} (h : source.next = source.stop)
    (hsent : ex (.transfer source.owner) w = (.ok (), w)) :
    (readStreamItem X r source).run.eval ex w = (.ok (.ended none), w) := by
  unfold readStreamItem
  rw [if_neg (by omega)]
  have hpure : (pure (.ended none) : NodeProc StreamItem).run.eval ex w = (.ok (.ended none), w) := rfl
  exact eval_request_sent X hpure hsent

theorem exec_shows (X : Crates) (C : Cluster) (s : Store) (r : MetadataRecord) :
    Shows exec s X C s r fun _ _ => True where
  opened key i first count file h := (openShardSource_some (exec_sees s) key (by rwa [Store.behind_up])).1
  short key i first count file h := (openShardSource_some (exec_sees s) key (by rwa [Store.behind_up])).2
  closed key i first count h hd := openShardSource_none (exec_sees s) key first count (by rwa [Store.behind_up]) hd
  block source hnext hstop _ := by
    have hread : exec (.readBlock source.file source.next) s = (.ok ⟨source.file.header.shardIndex,
        source.file.blocks.getD source.next [], source.file.footer.checksums.getD source.next 0⟩, s) := by
      simp only [exec, readBlock_ok (hnext.trans_le hstop)]
    obtain ⟨item, hitem, ⟨_, hres, _, rfl⟩ | ⟨⟨_, hres⟩ | ⟨_, hres⟩, _⟩⟩ := eval_readStreamItem hnext hread rfl
    · cases hres
      exact hitem
    · cases hres
    · cases hres
  broken _ _ _ h := absurd trivial h
  ended source h := eval_readStreamItem_end h rfl

/-- During an outage, a block arrives that its device can read and whose connection holds. -/
def Outage.Arrives (out : Outage) (file : ShardFile) (n : ℕ) : Prop :=
  out.unread file n = none ∧ out.lost file n = false

theorem execOut_shows (X : Crates) (C : Cluster) (s : Store) (r : MetadataRecord) (out : Outage) :
    Shows (execOut out) ⟨s, none⟩ X C (s.behind C out.down) r out.Arrives where
  opened key i first count file h := (openShardSource_some (execOut_sees out s) key h).1
  short key i first count file h := (openShardSource_some (execOut_sees out s) key h).2
  closed key i first count h hd := openShardSource_none (execOut_sees out s) key first count h hd
  block source hnext hstop h := by
    have hread : execOut out (.readBlock source.file source.next) ⟨s, none⟩ = (.ok ⟨source.file.header.shardIndex,
        source.file.blocks.getD source.next [], source.file.footer.checksums.getD source.next 0⟩,
          ⟨s, some (source.file, source.next)⟩) := by
      simp only [execOut, exec, h.1, readBlock_ok (hnext.trans_le hstop)]
    have hsent : execOut out (.transfer source.owner) ⟨s, some (source.file, source.next)⟩ = (.ok (), ⟨s, none⟩) := by
      simp only [execOut, h.2, Bool.false_eq_true, if_false]
    obtain ⟨item, hitem, ⟨_, hres, _, rfl⟩ | ⟨⟨_, hres⟩ | ⟨_, hres⟩, _⟩⟩ := eval_readStreamItem hnext hread hsent
    · cases hres
      exact hitem
    · cases hres
    · cases hres
  broken source hnext _ h := by
    obtain ⟨item, hitem, ⟨block, hres, hsent, _⟩ | ⟨_, hno⟩⟩ :=
      @eval_readStreamItem X _ (execOut out) ⟨s, none⟩ r _ _ source hnext _ _ rfl rfl
    · cases hun : out.unread source.file source.next with
      | some e => simp [hun] at hres
      | none =>
        refine absurd ⟨hun, ?_⟩ h
        simpa [execOut, hun] using hsent
    · exact ⟨item, hitem, hno⟩
  ended source h := eval_readStreamItem_end h rfl

end Opening

/-- The streams open before a stripe are long enough. -/
def Long (C : Cluster) (r : MetadataRecord) (s : Store) (n : ℕ) (indices : List ℕ) : Prop :=
  ∀ i ∈ indices, ∀ file, shardAt C r s i = some file → n ≤ file.footer.blockCount

section Streams

variable {σ : Type} {ex : (o : Op) → σ → Resp o × σ} {w : σ} {arrives : ShardFile → ℕ → Prop} {r : MetadataRecord}

/-- Opening shards gives the streams of those that can be opened and names the others, unless one of them is short. -/
theorem openShards_eval (hw : Shows ex w X C s r arrives) (key : String) (first count : ℕ) (indices : List ℕ)
    (hdev : ∀ i ∈ indices, (r.deviceFor i).isSome) :
    (Long C r s (first + count) indices ∧ ∃ unreadable, (openShards X C r key first count indices).run.eval ex w =
        (.ok (sourcesAt C r s first (first + count) indices, unreadable), w) ∧
      (unreadable.map UnreadableShard.index = indices.filter fun i => (shardAt C r s i).isNone) ∧
      ∀ u ∈ unreadable, u.firstStripe = first) ∨
    ¬ Long C r s (first + count) indices ∧ ∃ e, (openShards X C r key first count indices).run.eval ex w =
    (.error e, w) := by
  induction indices with
  | nil => exact .inl ⟨nofun, [], rfl, rfl, nofun⟩
  | cons i indices ih =>
    have ih := ih fun j hj => hdev j (List.mem_cons_of_mem _ hj)
    have hlift : ∀ {res}, (openShardSource X C r key i first count).run.eval ex w = (res, w) →
        (ExceptT.lift (openShardSource X C r key i first count).run : NodeProc
        (Except ErrorDetail ShardSource)).run.eval ex w =
          (.ok res, w) := fun hone => by rw [Task.eval_lift, hone]
    have hcons : Long C r s (first + count) (i :: indices) ↔ (∀ file, shardAt C r s i = some file →
        first + count ≤ file.footer.blockCount) ∧ Long C r s (first + count) indices := List.forall_mem_cons
    rw [hcons]
    unfold openShards
    cases hs : shardAt C r s i with
    | some file =>
      by_cases hlen : first + count ≤ file.footer.blockCount
      · rw [Task.eval_try_ok (hlift (hw.opened key i first count file hs hlen))]
        dsimp only
        rcases ih with ⟨hlong, unreadable, hrest, hidx, hfirst⟩ | ⟨hshort, e, hrest⟩
        · refine .inl ⟨⟨fun _ heq => Option.some.inj heq ▸ hlen, hlong⟩, unreadable, ?_, ?_, hfirst⟩
          · rw [Task.eval_try_ok hrest]
            simp only [sourcesAt, List.filterMap_cons, hs, Option.map_some]
            rfl
          · rw [hidx, List.filter_cons, hs]
            rfl
        · exact .inr ⟨fun hlong => hshort hlong.2, e, Task.eval_try_error hrest⟩
      · obtain ⟨e, e', hone, hfault⟩ := hw.short key i first count file hs (Nat.not_le.mp hlen)
        rw [Task.eval_try_ok (hlift hone)]
        dsimp only
        rw [hfault]
        exact .inr ⟨fun hlong => hlen (hlong.1 file rfl), e', rfl⟩
    | none =>
      obtain ⟨e, fault, hone, hfault⟩ := hw.closed key i first count hs (hdev i List.mem_cons_self)
      rw [Task.eval_try_ok (hlift hone)]
      dsimp only
      rw [hfault]
      dsimp only
      rcases ih with ⟨hlong, unreadable, hrest, hidx, hfirst⟩ | ⟨hshort, e, hrest⟩
      · refine .inl ⟨⟨nofun, hlong⟩, ⟨i, (r.deviceFor i).getD 0, fault, first⟩ :: unreadable, ?_, ?_,
          List.forall_mem_cons.mpr ⟨rfl, hfirst⟩⟩
        · rw [Task.eval_try_ok hrest]
          simp only [sourcesAt, List.filterMap_cons, hs, Option.map_none]
          rfl
        · rw [List.map_cons, hidx, List.filter_cons, hs]
          rfl
      · exact .inr ⟨fun hlong => hshort hlong.2, e, Task.eval_try_error hrest⟩

end Streams

/-! ## Reading a stripe -/

def blockAt (i : ℕ) (file : ShardFile) (t : ℕ) : ShardBlock :=
  ⟨i, file.blocks.getD t [], file.footer.checksums.getD t 0⟩

/-- The blocks of a stripe from the shards that can be opened. -/
def blocksAt (C : Cluster) (r : MetadataRecord) (s : Store) (t : ℕ) (indices : List ℕ) : List ShardBlock :=
  indices.filterMap fun i => (shardAt C r s i).map fun file => blockAt i file t

/-- Every stream that is open has all the object's blocks, and the one for the stripe arrives. -/
def Steady (C : Cluster) (r : MetadataRecord) (s : Store) (arrives : ShardFile → ℕ → Prop) (n t : ℕ)
    (indices : List ℕ) : Prop :=
  ∀ i ∈ indices, ∀ file, shardAt C r s i = some file → n ≤ file.footer.blockCount ∧ arrives file t

section Streams

variable {σ : Type} {ex : (o : Op) → σ → Resp o × σ} {w : σ} {arrives : ShardFile → ℕ → Prop}
  {r : MetadataRecord} {t stop : ℕ}

/-- One block from every stream, and every stream one block further, unless a block does not arrive. -/
theorem readStripeBlocks_eval (hw : Shows ex w X C s r arrives) (key : String) (indices : List ℕ) (ht : t < stop)
    (hlong : Long C r s stop indices) :
    (Steady C r s arrives stop t indices ∧ (readStripeBlocks X r key t (sourcesAt C r s t stop indices)).run.eval ex w =
      (.ok (blocksAt C r s t indices, sourcesAt C r s (t + 1) stop indices), w)) ∨
    ¬ Steady C r s arrives stop t indices ∧
      ∃ e, (readStripeBlocks X r key t (sourcesAt C r s t stop indices)).run.eval ex w = (.error e, w) := by
  induction indices with
  | nil => exact .inl ⟨nofun, rfl⟩
  | cons i indices ih =>
    obtain ⟨hone, hrest⟩ := List.forall_mem_cons.mp hlong
    have ih := ih hrest
    have hcons : Steady C r s arrives stop t (i :: indices) ↔ (∀ file, shardAt C r s i = some file →
        stop ≤ file.footer.blockCount ∧ arrives file t) ∧ Steady C r s arrives stop t indices := List.forall_mem_cons
    rw [hcons]
    cases hs : shardAt C r s i with
    | none =>
      simp only [sourcesAt, blocksAt, List.filterMap_cons, hs, Option.map_none]
      exact ih.imp (fun h => ⟨⟨nofun, h.1⟩, h.2⟩) fun h => ⟨fun hsteady => h.1 hsteady.2, h.2⟩
    | some file =>
      have hlen := hone file hs
      simp only [sourcesAt, blocksAt, List.filterMap_cons, hs, Option.map_some] at ih ⊢
      unfold readStripeBlocks
      dsimp only
      by_cases harrives : arrives file t
      · rw [Task.eval_try_ok (hw.block (sourceAt C r i file t stop) ht hlen harrives)]
        dsimp only [sourceAt] at ih ⊢
        rw [if_neg (not_not.mpr rfl)]
        rcases ih with ⟨hsteady, heval⟩ | ⟨hno, e, heval⟩
        · rw [Task.eval_try_ok heval]
          exact .inl ⟨⟨fun _ heq => Option.some.inj heq ▸ ⟨hlen, harrives⟩, hsteady⟩, rfl⟩
        · exact .inr ⟨fun h => hno h.2, e, Task.eval_try_error heval⟩
      · refine .inr ⟨fun h => harrives (h.1 file rfl).2, ?_⟩
        obtain ⟨res, hitem, hres⟩ := hw.broken (sourceAt C r i file t stop) ht hlen harrives
        cases res with
        | error e => exact ⟨e, Task.eval_try_error hitem⟩
        | ok item =>
          cases item with
          | data frame => exact absurd rfl (hres frame)
          | ended error =>
            rw [Task.eval_try_ok hitem]
            exact ⟨_, rfl⟩

end Streams

end Djbod
