import Djbod.Node.PutTrace
import Djbod.Node.Repair

/-!
# Requests that may fail

* `Trying faults` : operations answered as the store is, or, where `faults`, failing with or without effect. Looking for
  record files does not fail by itself: a device that cannot be read is one whose disk is gone;
* `Fails B` : a failure in a state with `B` that does not report damage;
* one rule for each request: connections, shard files, records, removal, status, lookups.
-/

namespace Djbod

open Sched

/-- An answer the store does not give: a failure, or a free space that is not the present one. -/
def Op.Odd : (o : Op) → Resp o → Prop
  | .space _, _ => True
  | .readDir _ _, _ => False
  | .readRecord _ _ _, _ => False
  | o, r => o.Failed r

/-- An operation is executed, or fails with or without effect if that may happen. -/
def Trying (faults : Prop) (o : Op) (s : Store) (r : Resp o) (s' : Store) : Prop :=
  (r, s') = exec o s ∨ faults ∧ o.Odd r ∧ (s' = s ∨ s' = (exec o s).2)

/-- The operation is about record files and their directories. -/
def Op.Looks : Op → Prop
  | .readDir _ _ => True
  | .readRecord _ _ _ => True
  | .recordExists _ _ _ => True
  | .keyDirExists _ _ => True
  | _ => False

/-- The code of a failure that does not report damage to the object. -/
def ErrorCode.Plain (c : ErrorCode) : Prop := c ≠ .blockChecksumMismatch ∧ c ≠ .objectChecksumMismatch

/-- A failure that does not report damage, in a state with `B`. -/
def Fails (B : Store → Prop) (e : ErrorDetail) (s : Store) : Prop := e.code.Plain ∧ B s

theorem forall₂_right_of_mem {α β : Type} {R : α → β → Prop} {xs : List α} {ys : List β}
    (h : List.Forall₂ R xs ys) {x : α} (hx : x ∈ xs) : ∃ y ∈ ys, R x y := by
  induction h with
  | nil => cases hx
  | @cons a b as bs hab _ ih =>
    rcases List.mem_cons.mp hx with rfl | hx
    · exact ⟨b, List.mem_cons_self, hab⟩
    · obtain ⟨y, hy, hxy⟩ := ih hx
      exact ⟨y, List.mem_cons_of_mem _ hy, hxy⟩

theorem forall₂_of_mem {α β : Type} {P Q : α → β → Prop} {xs : List α} {ys : List β} (h : List.Forall₂ P xs ys)
    (hPQ : ∀ x ∈ xs, ∀ y ∈ ys, P x y → Q x y) : List.Forall₂ Q xs ys := by
  induction h with
  | nil => exact .nil
  | cons hxy _ ih =>
    exact .cons (hPQ _ List.mem_cons_self _ List.mem_cons_self hxy)
      (ih fun x hx y hy => hPQ x (List.mem_cons_of_mem _ hx) y (List.mem_cons_of_mem _ hy))

section Rules

variable {faults : Prop} {o : Op} {s s' : Store} {r : Resp o}

theorem Trying.store (h : Trying faults o s r s') : s' = s ∨ s' = (exec o s).2 := by
  rcases h with h | ⟨_, _, h⟩
  · exact .inr (congrArg Prod.snd h)
  · exact h

theorem Trying.quiet (h : Trying faults o s r s') (hq : o.Quiet) : s' = s := by
  rcases h.store with rfl | rfl
  · rfl
  · exact exec_quiet hq s

theorem Trying.exact (h : Trying faults o s r s') (hl : o.Looks) : r = (exec o s).1 ∧ s' = s := by
  rcases h with h | ⟨_, hodd, _⟩
  · refine ⟨congrArg Prod.fst h, (congrArg Prod.snd h).trans (exec_quiet ?_ s)⟩
    cases o <;> trivial
  · cases o <;> first | exact absurd hodd not_false | exact absurd hl not_false

theorem Op.Looks.quiet (h : o.Looks) : o.Quiet := by
  cases o <;> trivial

variable {X : Crates} {C : Cluster} {I B : Store → Prop} {α : Type} {Q : α → Store → Prop}
  {E : ErrorDetail → Store → Prop}

theorem meets_fails {x : NodeProc α} (h : Task.Meets (Trying faults) I Q (Fails B) x s)
    (hE : ∀ e s, I s → e.code.Plain → B s → E e s) : Task.Meets (Trying faults) I Q E x s :=
  h.mono (fun _ hi => hi) (fun _ _ _ hq => hq) fun e s hi he => hE e s hi he.1 he.2

theorem wp_looks {β : Type} {t : Task Op Resp β} {Q : β → Store → Prop} (ht : t.Uses Op.Looks) (hI : I s)
    (hQ : Q (t.eval exec s).1 s) : t.Wp (Trying faults) I Q s :=
  Task.wp_exact ht (fun _ hl _ _ hx => hx.exact hl) (fun _ hl => exec_quiet hl.quiet s) hI hQ

theorem connectTo_meets {Q : Unit → Store → Prop} {target : NodeId} (hnode : (C.document.node target).isSome) (hI : I s)
    (hQ : Q () s) (hB : faults → B s) : Task.Meets (Trying faults) I Q (Fails B) (connectTo X C target) s := by
  unfold connectTo
  obtain ⟨entry, hentry⟩ := Option.isSome_iff_exists.mp hnode
  rw [hentry]
  refine ⟨hI, fun answer s' hx => ?_⟩
  obtain rfl := hx.quiet trivial
  rcases hx with hx | ⟨hf, _, _⟩
  · obtain rfl : answer = .ok () := congrArg Prod.fst hx
    exact ⟨hI, hQ⟩
  · cases answer with
    | ok u => exact ⟨hI, hQ⟩
    | error reason => exact ⟨hI, ⟨nofun, nofun⟩, hB hf⟩

theorem request_meets {handler : NodeProc α} (target : NodeId) (h : Task.Meets (Trying faults) I Q (Fails B) handler s)
    (hB : faults → ∀ s, I s → B s) : Task.Meets (Trying faults) I Q (Fails B) (request X target handler) s := by
  refine Task.Wp.bind h fun result s' hr hi => ⟨hi, fun answer s'' hx => ?_⟩
  obtain rfl := hx.quiet trivial
  have hanswer : answer = .ok () ∨ faults := by
    rcases hx with hx | ⟨hf, _, _⟩
    · exact .inl (congrArg Prod.fst hx)
    · exact .inr hf
  cases answer with
  | error reason =>
    rcases hanswer with h | hf
    · cases h
    · exact ⟨hi, ⟨nofun, nofun⟩, hB hf s'' hi⟩
  | ok u =>
    cases result with
    | ok a => exact ⟨hi, hr⟩
    | error detail => exact ⟨hi, hr⟩

theorem askNode_meets {handler : NodeProc α} (target : NodeId) (h : Task.Meets (Trying faults) I Q E handler s)
    (hB : faults → ∀ s, I s → B s) :
    Task.Meets (Trying faults) I (Outcome Q E) (Fails B) (askNode X target handler) s := by
  refine Task.Wp.bind h fun result s' hr hi => ⟨hi, fun answer s'' hx => ?_⟩
  obtain rfl := hx.quiet trivial
  cases answer with
  | error reason =>
    rcases hx with hx | ⟨hf, _, _⟩
    · cases congrArg Prod.fst hx
    · exact ⟨hi, ⟨nofun, nofun⟩, hB hf s'' hi⟩
  | ok u => exact ⟨hi, hr⟩

theorem deviceErrorDetail_plain (e : DeviceError) : (deviceErrorDetail e).code.Plain := by
  have hcode : ∀ e : DeviceError, (deviceErrorDetail e).code ≠ .blockChecksumMismatch ∧
      (deviceErrorDetail e).code ≠ .objectChecksumMismatch := by
    intro e
    cases e with
    | io kind => cases kind <;> exact ⟨nofun, nofun⟩
    | shardFile e => cases e with
      | io kind => cases kind <;> exact ⟨nofun, nofun⟩
      | _ => exact ⟨nofun, nofun⟩
    | _ => exact ⟨nofun, nofun⟩
  exact hcode e

theorem onOwnDevice_meets {node : NodeId} {d : DeviceId} {proc : Device.Proc α} (hd : d ∈ C.opened node)
    (h : Task.Meets (Trying faults) I Q (fun _ s => B s) proc s) :
    Task.Meets (Trying faults) I Q (Fails B) (onOwnDevice X C node d proc) s := by
  unfold onOwnDevice
  rw [if_pos hd]
  refine Task.Wp.bind h fun result s' hr hi => ?_
  cases result with
  | ok a => exact ⟨hi, hr⟩
  | error e => exact ⟨hi, deviceErrorDetail_plain e, hr⟩

theorem onOwnDevice_closed {node : NodeId} {d : DeviceId} {proc : Device.Proc α} (hd : d ∉ C.opened node) (hI : I s)
    (hB : B s) : Task.Meets (Trying faults) I Q (Fails B) (onOwnDevice X C node d proc) s := by
  unfold onOwnDevice
  rw [if_neg hd]
  exact ⟨hI, ⟨nofun, nofun⟩, hB⟩

theorem readRecord_looks (d : DeviceId) {kh : KeyHash} {v : VersionId} :
    (Device.readRecord d kh v).run.Uses Op.Looks := by
  refine Task.uses_try (Task.uses_perform trivial) fun record => ?_
  split_ifs
  · exact Task.uses_ret _
  · exact Task.uses_ret _

end Rules

/-! ## Shard files -/

section Shards

variable {faults : Prop} {X : Crates} {C : Cluster} {s : Store} {I : Store → Prop} {node : NodeId}
  {d : DeviceId} {kh : KeyHash} {v : VersionId} {i : ℕ}

/-- The node can send blocks of a shard file: it is there, it opens, and it is long enough. -/
def Offers (C : Cluster) (s : Store) (node : NodeId) (d : DeviceId) (kh : KeyHash) (v : VersionId) (i stop : ℕ)
    (file : ShardFile) : Prop :=
  d ∈ C.opened node ∧ s.getShard d kh v i = some (.ok file) ∧ stop ≤ file.footer.blockCount

theorem getShard_meets (first count : ℕ) (hI : I s) : Task.Meets (Trying faults) I
    (fun file s' => s' = s ∧ Offers C s node d kh v i (first + count) file)
    (Fails fun s' => s' = s ∧ (faults ∨ ∀ file, ¬ Offers C s node d kh v i (first + count) file))
    (getShard X C node d kh v i first count) s := by
  by_cases hd : d ∈ C.opened node
  · refine Task.Meets.bind (onOwnDevice_meets hd
      (Q := fun file s' => s' = s ∧ s.getShard d kh v i = some (.ok file)) ⟨hI, fun answer s' hx => ?_⟩) ?_
    · obtain rfl := hx.quiet trivial
      refine ⟨hI, ?_⟩
      rcases hx with hx | ⟨hf, hodd, _⟩
      · have hanswer := congrArg Prod.fst hx
        simp only [exec] at hanswer
        cases hfile : s'.getShard d kh v i with
        | none =>
          rw [hfile] at hanswer
          cases hanswer
          exact ⟨rfl, .inr fun file h => by rw [h.2.1] at hfile; cases hfile⟩
        | some content =>
          rw [hfile] at hanswer
          cases content with
          | error e =>
            cases hanswer
            exact ⟨rfl, .inr fun file h => by rw [h.2.1] at hfile; cases hfile⟩
          | ok file =>
            cases hanswer
            exact ⟨rfl, rfl⟩
      · obtain ⟨e, rfl⟩ := hodd
        exact ⟨rfl, .inl hf⟩
    · rintro file s' ⟨rfl, hfile⟩ hi
      by_cases hshort : first + count > file.footer.blockCount
      · rw [if_pos hshort]
        refine ⟨hi, by simp [ErrorCode.Plain, ErrorDetail.new], rfl, .inr fun file' h => ?_⟩
        obtain rfl : file' = file := Except.ok.inj (Option.some.inj (h.2.1.symm.trans hfile))
        exact absurd h.2.2 (Nat.not_le.mpr hshort)
      · rw [if_neg hshort]
        exact ⟨hi, rfl, hd, hfile, Nat.le_of_not_gt hshort⟩
  · exact Task.Meets.bind (Q := fun _ _ => False) (onOwnDevice_closed hd hI ⟨rfl, .inr fun file h => hd h.1⟩)
      fun _ _ h => h.elim

/-- The device takes a shard: its node has it, it is active and there. -/
def Takes (C : Cluster) (s : Store) (node : NodeId) (d : DeviceId) : Prop :=
  d ∈ C.opened node ∧ (C.document.device d).map DeviceEntry.state = some .active ∧ (s.disk d).isSome

theorem beginShard_meets {scheme : Scheme} {blockLength size : ℕ} (hi : i < scheme.totalShards)
    (hsize : (shardFileLength scheme blockLength size).isSome) (hI : I s) : Task.Meets (Trying faults) I
      (fun _ s' => s' = s ∧ d ∈ C.opened node ∧ (C.document.device d).map DeviceEntry.state = some .active)
      (Fails fun s' => s' = s ∧ (faults ∨ ¬ Takes C s node d))
      (beginShard X C node d kh v i scheme.dataShards scheme.parityShards blockLength size) s := by
  unfold beginShard
  by_cases hd : d ∈ C.opened node
  · rw [if_neg (not_not_intro hd)]
    by_cases hstate : (C.document.device d).map DeviceEntry.state = some .active
    · rw [if_neg (not_not_intro hstate), Scheme.new_self]
      have hcontains : (!scheme.contains i) = false := by simp [Scheme.contains, hi]
      obtain ⟨length, hlength⟩ := Option.isSome_iff_exists.mp hsize
      simp only [hcontains, Bool.false_eq_true, if_false, hlength]
      refine onOwnDevice_meets hd ⟨hI, fun answer s' hx => ?_⟩
      obtain rfl := hx.quiet trivial
      refine ⟨hI, ?_⟩
      cases answer with
      | ok u => exact ⟨rfl, hd, hstate⟩
      | error e =>
        refine ⟨rfl, ?_⟩
        rcases hx with hx | ⟨hf, _, _⟩
        · have hanswer := congrArg Prod.fst hx
          simp only [exec, onDevice] at hanswer
          refine .inr fun h => ?_
          rw [if_pos h.2.2] at hanswer
          cases hanswer
        · exact .inl hf
    · rw [if_pos hstate]
      exact ⟨hI, by simp [ErrorCode.Plain, withDevice, ErrorDetail.new], rfl, .inr fun h => hstate h.2.1⟩
  · rw [if_pos hd]
    exact onOwnDevice_closed hd hI ⟨rfl, .inr fun h => hd h.1⟩

end Shards

/-! ## Lookups -/

section Lookups

variable {faults : Prop} {X : Crates} {C : Cluster} {s : Store} {kh : KeyHash} {node : NodeId}

theorem readEach_looks (d : DeviceId) (vs : List VersionId) : (Device.readEach d kh vs).run.Uses Op.Looks := by
  induction vs with
  | nil => exact Task.uses_ret _
  | cons v vs ih => exact Task.uses_try (readRecord_looks d) fun _ => Task.uses_try ih fun _ => Task.uses_ret _

theorem readDevices_looks (ds : List DeviceId) : (readDevices kh ds).run.Uses Op.Looks := by
  induction ds with
  | nil => exact Task.uses_ret _
  | cons d ds ih =>
    refine Task.uses_try (Task.uses_lift (Task.uses_try (Task.uses_perform trivial) fun vs => readEach_looks d _))
      fun found => ?_
    cases found with
    | ok records => exact Task.uses_try ih fun _ => Task.uses_ret _
    | error e =>
      dsimp only
      split_ifs
      · exact Task.uses_try ih fun _ => Task.uses_ret _
      · exact Task.uses_ret _

theorem localLookup_meets (after : Option LookupCursor) : Task.Meets (Trying faults) (· = s)
    (fun page _ => page = ⟨(takePage X.encodedLen maxListPageBytes false 0
    (pageSource after (copiesIn s kh (C.opened node)))).1,
        (takePage X.encodedLen maxListPageBytes false 0 (pageSource after (copiesIn s kh (C.opened node)))).2,
        nodeUnread C s node⟩ ∧ ∀ d ∈ C.opened node, Undamaged s kh d)
    (Fails fun _ => ¬ ∀ d ∈ C.opened node, Undamaged s kh d) (localLookup X C node kh after) s := by
  refine wp_looks (Task.uses_try (readDevices_looks _) fun _ => Task.uses_ret _) rfl ?_
  rcases eval_localLookup (X := X) (exec_sees s) node after with ⟨hgood, heval⟩ | ⟨⟨d, hd, hno⟩, e, heval, hcode⟩
  · rw [heval]
    exact ⟨rfl, hgood⟩
  · rw [heval]
    exact ⟨by rw [hcode]; exact ⟨nofun, nofun⟩, fun hgood => hno (hgood d hd)⟩

theorem lookupPages_meets (hnodup : (C.opened node).Nodup) (fuel : ℕ) (after : Option LookupCursor)
    (all : List LocatedRecord) : Task.Meets (Trying faults) (· = s)
      (fun res _ => res = (all ++ pageSource after (copiesIn s kh (C.opened node)), nodeUnread C s node) ∧
        ∀ d ∈ C.opened node, Undamaged s kh d)
      (Fails fun _ => faults ∨ (¬ ∀ d ∈ C.opened node, Undamaged s kh d) ∨
        fuel ≤ (pageSource after (copiesIn s kh (C.opened node))).length)
        (lookupPages X C node kh fuel after all) s := by
  induction fuel generalizing after all with
  | zero => exact ⟨rfl, ⟨nofun, nofun⟩, .inr (.inr (Nat.zero_le _))⟩
  | succ fuel ih =>
    have hplaces : ((copiesIn s kh (C.opened node)).map LocatedRecord.place).Nodup := (copiesOn_copiesIn hnodup).places
    obtain ⟨rest, hpage, htrunc, hne⟩ := takePage_spec X.encodedLen maxListPageBytes false 0
      (pageSource after (copiesIn s kh (C.opened node)))
    refine Task.Meets.bind (request_meets node ((localLookup_meets after).mono_error
      fun _ _ _ h => ⟨h.1, .inr (.inl h.2)⟩) fun hf _ _ => .inl hf) ?_
    rintro page s' ⟨rfl, hgood⟩ rfl
    generalize takePage X.encodedLen maxListPageBytes false 0 (pageSource after (copiesIn s' kh (C.opened node))) =
      taken at hpage htrunc hne ⊢
    obtain ⟨page, truncated⟩ := taken
    dsimp only at hpage htrunc hne ⊢
    cases hlast : page.getLast? with
    | none =>
      obtain rfl : page = [] := List.getLast?_eq_none_iff.mp hlast
      have hnil : pageSource after (copiesIn s' kh (C.opened node)) = [] := by
        by_contra h
        exact hne rfl h rfl
      rw [hnil, if_pos (by simp)]
      exact ⟨rfl, rfl, hgood⟩
    | some last =>
      cases truncated with
      | false =>
        have hrest : rest = [] := by
          by_contra h
          cases htrunc.mpr h
        rw [hrest, List.append_nil] at hpage
        rw [hpage, if_pos (by simp)]
        exact ⟨rfl, rfl, hgood⟩
      | true =>
        have hnext := pageSource_next hplaces hpage hlast
        rw [if_neg (by simp)]
        refine (ih _ _).mono (fun _ h => h) (fun _ _ _ h => ?_) fun _ _ _ h =>
          ⟨h.1, h.2.imp id (Or.imp id fun hle => ?_)⟩
        · rw [h.1, Option.map_some, hnext, hpage, List.append_assoc]
          exact ⟨rfl, hgood⟩
        · rw [Option.map_some, hnext] at hle
          rw [hpage, List.length_append]
          have hpos : 0 < page.length := by
            cases page with
            | nil => cases hlast
            | cons c page => exact Nat.succ_pos _
          omega

/-- What may go wrong in a lookup: an operation fails, a record file cannot be read, or the pages are too few. -/
def LookupFails (faults : Prop) (C : Cluster) (kh : KeyHash) (s : Store) (fuel : ℕ) : Prop :=
  faults ∨ (¬ ∀ d ∈ C.attached, Undamaged s kh d) ∨ fuel ≤ copyCount C kh s

theorem lookupOn_meets {n : NodeEntry} (hn : n ∈ C.document.activeNodes) (fuel : ℕ) : Task.Meets (Trying faults) (· = s)
    (fun res _ => res = (pageSource none (copiesIn s kh (C.opened n.id)), nodeUnread C s n.id) ∧
      ∀ d ∈ C.opened n.id, Undamaged s kh d)
    (Fails fun _ => LookupFails faults C kh s fuel) (lookupOn X C fuel n.id kh) s := by
  refine Task.Meets.bind (Q := fun _ _ => True) (connectTo_meets (activeNode_listed hn) rfl trivial .inl) ?_
  rintro _ s' _ rfl
  refine (lookupPages_meets (opened_nodup_of_active hn) fuel none []).mono_error
    fun e s' _ h => ⟨h.1, h.2.imp id (Or.imp (fun hbad hgood => hbad fun d hd => hgood d ?_) fun hle => hle.trans ?_)⟩
  · exact List.mem_flatMap.mpr ⟨n, hn, hd⟩
  · rw [pageSource, List.length_insertionSort]
    exact copiesIn_opened_le hn

theorem lookupOn_uses {P : Op → Prop} (hP : ∀ o : Op, o.Quiet → P o) (fuel : ℕ) (n : NodeId) :
    (lookupOn X C fuel n kh).run.Uses P :=
  Task.uses_try (connectTo_uses hP n) fun _ => lookupPages_uses hP n fuel none []

/-- Once a node could not be reached, or a node failed, the collection does not come out clean. -/
theorem collectLookup_tried {B : Prop} {targets : List NodeId}
    {answers : List (Except ErrorDetail (List LocatedRecord × List DeviceId))}
    {found : Lookup} (hfound : ∀ e ∈ found.unreachable, e.code.Plain ∧ B)
    (h : ∀ a ∈ answers, ∀ e, a = .error e → e.code.Plain ∧ B)
    (hbad : found.unreachable ≠ [] ∨ ∃ e, .error e ∈ answers) (hlen : answers.length = targets.length) :
    (∃ e, collectLookup X C found (targets.zip answers) = .error e ∧ e.code.Plain ∧ B) ∨
      ∃ out, collectLookup X C found (targets.zip answers) = .ok out ∧ out.unreachable ≠ [] ∧
        ∀ e ∈ out.unreachable, e.code.Plain ∧ B := by
  induction answers generalizing targets found with
  | nil =>
    refine .inr ⟨found, by rw [List.zip_nil_right]; rfl, ?_, hfound⟩
    rcases hbad with hbad | ⟨e, he⟩
    · exact hbad
    · cases he
  | cons answer answers ih =>
    cases targets with
    | nil => cases hlen
    | cons n targets =>
      have hrest : ∀ a ∈ answers, ∀ e, a = .error e → e.code.Plain ∧ B := fun a ha => h a (List.mem_cons_of_mem _ ha)
      have hlen' : answers.length = targets.length := Nat.succ.inj hlen
      cases answer with
      | ok page =>
        rw [List.zip_cons_cons, collectLookup]
        refine ih ?_ hrest (hbad.imp id ?_) hlen'
        · exact hfound
        · rintro ⟨e, he⟩
          rcases List.mem_cons.mp he with he | he
          · cases he
          · exact ⟨e, he⟩
      | error e =>
        have he := h _ List.mem_cons_self e rfl
        rw [List.zip_cons_cons, collectLookup]
        split_ifs with hcode
        · refine ih ?_ hrest (.inl (by simp)) hlen'
          intro e' he'
          rcases List.mem_append.mp he' with he' | he'
          · exact hfound e' he'
          · obtain rfl := List.mem_singleton.mp he'
            exact he
        · exact .inl ⟨e, rfl, he⟩

/-- **A lookup on its own** returns the copies on the attached devices, none of which is damaged, or fails. -/
theorem lookup_meets (fuel : ℕ) : Prog.Meets (Trying faults) (· = s)
    (fun located _ => CopiesOn C.attached kh s located ∧ ∀ d ∈ C.attached, Undamaged s kh d)
    (Fails fun _ => LookupFails faults C kh s fuel) (lookup X C fuel kh) s := by
  refine Prog.Meets.bind (Q := fun found _ => found.unreachable = [] ∧ (CopiesOn C.attached kh s found.records ∧
      ∀ d ∈ C.attached, Undamaged s kh d) ∨
    found.unreachable ≠ [] ∧ ∀ e ∈ found.unreachable, e.code.Plain ∧ LookupFails faults C kh s fuel) ?_ ?_
  · unfold lookupReachable
    refine Prog.Meets.bind (Q := fun answers _ => List.Forall₂ (fun (n : NodeEntry) answer =>
      (∀ res, answer = .ok res → res = (pageSource none (copiesIn s kh (C.opened n.id)), nodeUnread C s n.id) ∧
          ∀ d ∈ C.opened n.id, Undamaged s kh d) ∧
        ∀ e, answer = .error e → e.code.Plain ∧ LookupFails faults C kh s fuel) C.document.activeNodes answers) ?_ ?_
    · refine Prog.Meets.lift ?_
      rw [List.map_map]
      refine (Prog.wp_all_readOnly (I := (· = s)) (R := Op.Quiet)
        (f := fun n : NodeEntry => (lookupOn X C fuel n.id kh).run) (fun n _ => ?_)
        (fun o hq r s' hx => hx.quiet hq) rfl fun n hn => ?_).mono (fun _ h => h) fun _ _ _ h => h.2
      · exact lookupOn_uses (fun _ h => h) fuel n.id
      · refine Task.Wp.mono (lookupOn_meets hn fuel) (fun _ _ => trivial) fun answer _ _ h => ?_
        cases answer with
        | ok res => exact ⟨fun _ hres => (Except.ok.inj hres) ▸ h, nofun⟩
        | error e => exact ⟨nofun, fun _ he => (Except.error.inj he) ▸ h⟩
    · rintro answers s' hanswers rfl
      by_cases hbad : ∃ e, .error e ∈ answers
      · have htried := @collectLookup_tried X C (LookupFails faults C kh s' fuel)
          (C.document.activeNodes.map NodeEntry.id) answers ⟨[], [], []⟩ (by simp) (fun a ha e he => ?_) (.inr hbad)
          (by rw [List.length_map]; exact hanswers.length_eq.symm)
        · rcases htried with ⟨e, he, hplain⟩ | ⟨out, hout, hne, hall⟩
          · rw [he]
            exact ⟨rfl, hplain⟩
          · rw [hout]
            exact ⟨rfl, .inr ⟨hne, hall⟩⟩
        · obtain ⟨_, _, _, h⟩ := forall₂_left_of_mem hanswers ha
          exact h e he
      · have hup : List.Forall₂ (Answered C s' (fun _ => false) kh) C.document.activeNodes answers := by
          refine forall₂_of_mem hanswers fun n hn answer ha h => ?_
          cases answer with
          | ok res => exact congrArg Except.ok (h.1 res rfl).1
          | error e => exact absurd ⟨e, ha⟩ hbad
        obtain ⟨out, hout, hrec, _, _, hreach⟩ := collectLookup_answered (X := X) ⟨[], [], []⟩ List.nodup_nil hup
        rw [hout]
        have hgood : ∀ d ∈ C.attached, Undamaged s' kh d := by
          intro d hd
          obtain ⟨n, hn, hd⟩ := List.mem_flatMap.mp hd
          obtain ⟨answer, ha, h⟩ := forall₂_right_of_mem hanswers hn
          cases answer with
          | ok res => exact (h.1 res rfl).2 d hd
          | error e => exact absurd ⟨e, ha⟩ hbad
        refine ⟨rfl, .inl ⟨hreach.mpr (by simp), ?_, hgood⟩⟩
        have hattached : reached C (fun _ => false) = C.attached := by
          simp [reached, upNodes, Cluster.attached]
        rw [← hattached]
        refine (copiesOn_copiesIn reached_nodup).perm ((List.perm_insertionSort _ _).trans ?_)
        rw [hrec]
        exact flatMap_copiesIn _
  · rintro found s' (⟨hnone, hcopies⟩ | ⟨hne, hall⟩) rfl
    · rw [hnone]
      exact ⟨rfl, hcopies⟩
    · cases hun : found.unreachable with
      | nil => exact absurd hun hne
      | cons e rest => exact ⟨rfl, hall e (hun ▸ List.mem_cons_self)⟩

end Lookups

/-! ## Status -/

section Status

variable {faults : Prop} {X : Crates} {C : Cluster} {s : Store}

def nodeStatuses (C : Cluster) (s : Store) (n : NodeId) : List DeviceStatus :=
  ((C.opened n).map fun d => openedStatus C n d (exec (.space d) s).1) ++ unopenedStatus C n

def statusesAt (C : Cluster) (s : Store) : List DeviceStatus :=
  C.document.activeNodes.flatMap fun n => nodeStatuses C s n.id

theorem eval_statusOf (n : NodeId) (ds : List DeviceId) : (statusOf C n ds).run.eval exec s =
    (.ok (ds.map fun d => openedStatus C n d (exec (.space d) s).1), s) := by
  induction ds with
  | nil => rfl
  | cons d ds ih =>
    unfold statusOf
    rw [Task.eval_try_ok (Task.eval_lift _ _), Task.eval_perform, exec_quiet (o := .space d) trivial,
      Task.eval_try_ok ih]
    rfl

theorem eval_broadcastStatus : (broadcastStatus X C).run.eval exec s = (.ok (statusesAt C s), s) := by
  have hone : ∀ n ∈ C.document.activeNodes, (do connectTo X C n.id; request X n.id (localStatus C n.id) :
      NodeProc (List DeviceStatus)).run.eval exec s = (.ok (nodeStatuses C s n.id), s) := by
    intro n hn
    rw [Task.eval_try_ok (eval_connectTo_up (exec_sees s) (activeNode_listed hn) rfl)]
    have hlocal : (localStatus C n.id).run.eval exec s = (.ok (nodeStatuses C s n.id), s) := by
      unfold localStatus
      rw [Task.eval_try_ok (eval_statusOf n.id _)]
      rfl
    exact eval_request_of (exec_sees s) X n.id hlocal
  unfold broadcastStatus
  have hall : evalTasks exec ((C.document.activeNodes.map NodeEntry.id).map fun n =>
      (do connectTo X C n; request X n (localStatus C n) : NodeProc (List DeviceStatus)).run) s =
        (C.document.activeNodes.map fun n => .ok (nodeStatuses C s n.id), s) := by
    rw [List.map_map, evalTasks_const, List.map_map]
    · refine Prod.ext (List.map_congr_left fun n hn => ?_) rfl
      exact congrArg Prod.fst (hone n hn)
    · intro t ht
      obtain ⟨n, hn, rfl⟩ := List.mem_map.mp ht
      exact congrArg Prod.snd (hone n hn)
  rw [Prog.eval_try_ok (Prog.eval_lift _ _), Prog.eval_all, hall]
  have hmap : (C.document.activeNodes.map fun n => (.ok (nodeStatuses C s n.id) : Except ErrorDetail
    (List DeviceStatus))).mapM
      (fun answer => answer) = .ok (C.document.activeNodes.map fun n => nodeStatuses C s n.id) := by
    rw [mapM_eq_ok, List.forall₂_map_left_iff, List.forall₂_map_right_iff, List.forall₂_same]
    exact fun _ _ => rfl
  dsimp only
  rw [hmap, statusesAt, List.flatMap_def]
  rfl

/-- **Asking for status.** Whatever free space is reported, a device that is reported as there is one its node has. -/
theorem broadcastStatus_meets : Prog.Meets (Trying faults) (· = s)
    (fun statuses _ => ((statuses.filter DeviceStatus.available).map DeviceStatus.device).Nodup ∧
      (∀ status ∈ statuses, status.available → ∃ n ∈ C.document.activeNodes, Reported C n.id status) ∧
      (¬ faults → statuses = statusesAt C s))
    (fun _ _ => faults) (broadcastStatus X C) s := by
  by_cases hf : faults
  · refine Prog.wp_readOnly (broadcastStatus_uses (P := Op.Quiet) fun _ h => h) rfl (fun o hq r s' hx => hx.quiet hq)
      fun es res ht _ => ?_
    cases res with
    | ok statuses => exact ⟨(broadcastStatus_done ht).1, (broadcastStatus_done ht).2, fun h => absurd hf h⟩
    | error e => exact hf
  · refine Prog.wp_exact (broadcastStatus_uses (P := Op.Quiet) fun _ h => h) (fun o hq r s' hx => ?_)
      (fun o hq => exec_quiet hq s) rfl ?_
    · rcases hx with hx | ⟨hf', _⟩
      · exact ⟨congrArg Prod.fst hx, (congrArg Prod.snd hx).trans (exec_quiet hq s)⟩
      · exact absurd hf' hf
    · obtain ⟨es, ht, _⟩ := (broadcastStatus X C).run.eval_trace exec s
      rw [eval_broadcastStatus] at ht ⊢
      exact ⟨(broadcastStatus_done ht).1, (broadcastStatus_done ht).2, fun _ => rfl⟩

end Status

end Djbod
