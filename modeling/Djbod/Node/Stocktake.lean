import Djbod.Data.Merge
import Djbod.Node.Inventory
import Djbod.Node.Outage

/-!
# What an inventory sees

* `allRecords_sorted`, `recordsAfter_next` : pages follow one another without a gap;
* `pending`, `DeviceStream.next_live` : a stream of a device that can be read yields its records one by one;
* `mergeLoop_rounds` : the merge over the streams is the merge over their answers;
* `inventoryMerge_groups` : an inventory during an outage classifies each version from the copies on the devices it
  reads.
-/

namespace Djbod

open Sched

/-! ## The records of a device -/

/-- A record's key hash and version, compared in that order. -/
def MetadataRecord.filing (r : MetadataRecord) : KeyHash ×ₗ VersionId := toLex (r.keyHash, r.version)

theorem mem_allRecords {s : Store} {d : DeviceId} {r : MetadataRecord} :
    r ∈ s.allRecords d ↔ s.getRecord d r.keyHash r.version = some (.ok r) := by
  unfold Store.allRecords Store.getRecord
  cases hd : s.disk d with
  | none => simp
  | some disk =>
    dsimp only
    rw [List.mem_filterMap, Option.bind_some]
    constructor
    · rintro ⟨key, _, hkey⟩
      split at hkey
      · next r' hr' =>
          cases hkey
          rw [disk.filed _ _ hr'] at hr'
          exact hr'
      · cases hkey
    · intro h
      refine ⟨(r.keyHash, r.version), (List.mem_insertionSort _).mpr ?_, by rw [h]⟩
      exact AList.mem_keys.mp (AList.lookup_isSome.mp (by rw [h]; rfl))

theorem allRecords_sorted (s : Store) (d : DeviceId) : (s.allRecords d).Pairwise fun a b => a.filing < b.filing := by
  unfold Store.allRecords
  cases hd : s.disk d with
  | none => exact .nil
  | some disk =>
    let le : KeyHash × VersionId → KeyHash × VersionId → Prop := fun a b => a.1 < b.1 ∨ a.1 = b.1 ∧ a.2 ≤ b.2
    have hle : ∀ a b, le a b ↔ toLex a ≤ toLex b := fun a b => (Prod.Lex.le_iff ..).symm
    have htotal : Std.Total le := ⟨fun a b => by rw [hle, hle]; exact le_total _ _⟩
    have htrans : IsTrans _ le := ⟨fun a b c hab hbc => by rw [hle] at hab hbc ⊢; exact hab.trans hbc⟩
    have hsorted : (disk.records.keys.insertionSort le).Pairwise le := List.pairwise_insertionSort le _
    have hnodup : (disk.records.keys.insertionSort le).Nodup :=
      (List.perm_insertionSort le _).nodup_iff.mpr disk.records.nodupKeys
    refine List.pairwise_filterMap.mpr ((hsorted.and hnodup).imp ?_)
    rintro a b ⟨hab, hne⟩ r hr r' hr'
    have hfiled : ∀ {key r}, disk.records.lookup key = some (.ok r) → r.filing = toLex key :=
      fun hkey => (congrArg toLex (disk.filed _ _ hkey)).symm
    split at hr
    · split at hr'
      · next _ _ ha _ _ hb =>
          cases hr
          cases hr'
          rw [hfiled ha, hfiled hb]
          exact lt_of_le_of_ne ((hle a b).mp hab) hne
      · cases hr'
    · cases hr

theorem RecordCursor.before_iff {cursor : RecordCursor} {r : MetadataRecord} :
    cursor.before r = true ↔ toLex (cursor.keyHash, cursor.version) < r.filing := by
  rw [RecordCursor.before, MetadataRecord.filing, Prod.Lex.lt_iff]
  simp

theorem recordsAfter_next {s : Store} {d : DeviceId} {after : Option RecordCursor} {page rest : List MetadataRecord}
    {last : MetadataRecord} (hpage : recordsAfter after (s.allRecords d) = page ++ rest)
    (hlast : page.getLast? = some last) : recordsAfter (some ⟨last.keyHash, last.version⟩) (s.allRecords d) = rest := by
  have hsorted : (recordsAfter after (s.allRecords d)).Pairwise fun a b => a.filing < b.filing := by
    cases after with
    | none => exact allRecords_sorted s d
    | some cursor => exact (allRecords_sorted s d).filter _
  -- What lies behind the last record lies behind the cursor before it.
  have hfilter : recordsAfter (some ⟨last.keyHash, last.version⟩) (s.allRecords d) =
      (recordsAfter after (s.allRecords d)).filter fun r => decide (last.filing < r.filing) := by
    have hmem : last ∈ recordsAfter after (s.allRecords d) := by
      rw [hpage]
      exact List.mem_append_left _ (List.mem_of_getLast? hlast)
    cases after with
    | none =>
      refine List.filter_congr fun r _ => ?_
      exact Bool.eq_iff_iff.mpr (RecordCursor.before_iff.trans (decide_eq_true_iff).symm)
    | some cursor =>
      rw [recordsAfter, recordsAfter, List.filter_filter]
      refine List.filter_congr fun r _ => ?_
      have hcursor := RecordCursor.before_iff.mp (List.mem_filter.mp hmem).2
      rw [Bool.eq_iff_iff, RecordCursor.before_iff, Bool.and_eq_true, decide_eq_true_iff, RecordCursor.before_iff]
      exact ⟨fun h => ⟨h, hcursor.trans h⟩, And.left⟩
  rw [hfilter, hpage]
  rw [hpage, List.pairwise_append] at hsorted
  obtain ⟨hfront, _, hcross⟩ := hsorted
  obtain ⟨init, rfl⟩ := List.getLast?_eq_some_iff.mp hlast
  rw [List.filter_append, List.filter_eq_nil_iff.mpr, List.nil_append, List.filter_eq_self.mpr]
  · intro r hr
    exact decide_eq_true (hcross last (by simp) r hr)
  · intro r hr hlt
    rcases List.mem_append.mp hr with hr | hr
    · exact absurd (of_decide_eq_true hlt) (not_lt_of_gt ((List.pairwise_append.mp hfront).2.2 r hr last (by simp)))
    · rw [List.mem_singleton.mp hr] at hlt
      exact lt_irrefl _ (of_decide_eq_true hlt)

/-! ## A stream -/

section Stream

variable {X : Crates} {C : Cluster} {recordSize : MetadataRecord → ℕ} {s : Store} {out : Outage}

def Store.shardHere (s : Store) (d : DeviceId) (r : MetadataRecord) : Bool :=
  (r.shardOn d).any fun index => index ∈ s.shardIndices d r.keyHash r.version

theorem eval_shardPresent (s : Store) (out : Outage) (d : DeviceId) (r : MetadataRecord) :
    (shardPresent d r).eval (execOut out) ⟨s, none⟩ = (s.shardHere d r, ⟨s, none⟩) := by
  unfold shardPresent Store.shardHere
  cases r.shardOn d with
  | none => rfl
  | some index =>
    have hop : execOut out (.listShards d r.keyHash r.version) ⟨s, none⟩ =
        ((exec (.listShards d r.keyHash r.version) s).1, ⟨s, none⟩) := rfl
    dsimp only
    rw [Task.eval_bind, Task.eval_perform, hop]
    simp only [exec, onDevice, Option.any_some]
    cases hdisk : s.disk d with
    | none =>
      simp only [Option.isSome_none, Bool.false_eq_true, if_false, Store.shardIndices, hdisk,
        List.not_mem_nil, decide_false]
      rfl
    | some disk =>
      simp only [Option.isSome_some, if_true]
      rfl

theorem eval_withPresence (s : Store) (out : Outage) (d : DeviceId) (rs : List MetadataRecord) :
    (withPresence d rs).eval (execOut out) ⟨s, none⟩ = (rs.map fun r => ⟨r, s.shardHere d r⟩, ⟨s, none⟩) := by
  induction rs with
  | nil => rfl
  | cons r rs ih =>
    rw [withPresence, Task.eval_bind, eval_shardPresent, Task.eval_bind, ih]
    rfl

/-- Every record of the page comes with whether its shard file is there. -/
def Flagged (s : Store) (d : DeviceId) (page : List DeviceRecord) : Prop :=
  ∀ x ∈ page, x.shardPresent = s.shardHere d x.record

theorem eval_localRecords {node : NodeId} {d : DeviceId} (hd : d ∈ C.opened node) (hdisk : (s.disk d).isSome)
    (after : Option RecordCursor) :
    ∃ page, (localRecords X C recordSize node d after).run.eval (execOut out) ⟨s, none⟩ =
        (.ok (page, (takePage recordSize maxListPageBytes false 0 (recordsAfter after (s.allRecords d))).2),
        ⟨s, none⟩) ∧
      page.map DeviceRecord.record = (takePage recordSize maxListPageBytes false 0
      (recordsAfter after (s.allRecords d))).1 ∧ Flagged s d page := by
  have hpage := eval_withPresence s out d (takePage recordSize maxListPageBytes false 0
    (recordsAfter after (s.allRecords d))).1
  refine ⟨(takePage recordSize maxListPageBytes false 0 (recordsAfter after (s.allRecords d))).1.map fun r =>
    ⟨r, s.shardHere d r⟩, ?_, (List.map_map ..).trans (List.map_id _), fun x hx => ?_⟩
  · have hwalk : (Device.file (Task.perform (Op.walkRecords d))).run.eval (execOut out) (⟨s, none⟩ : Wire) =
        (.ok (s.allRecords d), ⟨s, none⟩) := by
      show execOut out (.walkRecords d) ⟨s, none⟩ = _
      simp only [execOut, exec, onDevice, hdisk, if_true]
    have hlift : (ExceptT.lift (withPresence d
        (takePage recordSize maxListPageBytes false 0 (recordsAfter after (s.allRecords d))).1) :
          Device.Proc (List DeviceRecord)).run.eval (execOut out) ⟨s, none⟩ =
            (.ok ((takePage recordSize maxListPageBytes false 0 (recordsAfter after (s.allRecords d))).1.map fun r =>
              ⟨r, s.shardHere d r⟩), ⟨s, none⟩) := by
      rw [Task.eval_lift, hpage]
    rw [localRecords, onOwnDevice, if_pos hd]
    refine (Task.eval_bind _ _ _).trans ?_
    rw [Task.eval_try_ok hwalk, Task.eval_try_ok hlift]
    rfl
  · obtain ⟨r, _, rfl⟩ := List.mem_map.mp hx
    rfl

theorem eval_localRecords_gone {node : NodeId} {d : DeviceId} (h : d ∉ C.opened node ∨ s.disk d = none)
    (after : Option RecordCursor) :
    ∃ e, (localRecords X C recordSize node d after).run.eval (execOut out) ⟨s, none⟩ = (.error e, ⟨s, none⟩) := by
  unfold localRecords onOwnDevice
  by_cases hd : d ∈ C.opened node
  · rw [if_pos hd]
    have hdisk := h.resolve_left (not_not_intro hd)
    have hwalk : (Device.file (Task.perform (Op.walkRecords d))).run.eval (execOut out) (⟨s, none⟩ : Wire) =
        (.error .unavailable, ⟨s, none⟩) := by
      show execOut out (.walkRecords d) ⟨s, none⟩ = _
      simp [execOut, exec, onDevice, hdisk]
    exact ⟨_, (Task.eval_bind _ _ _).trans (by rw [Task.eval_try_error hwalk]; rfl)⟩
  · rw [if_neg hd]
    exact ⟨_, rfl⟩

def pending (s : Store) (stream : DeviceStream) : List MetadataRecord :=
  stream.page.map DeviceRecord.record ++ if stream.exhausted then [] else recordsAfter stream.after
    (s.allRecords stream.device)

def Live (C : Cluster) (s : Store) (stream : DeviceStream) : Prop :=
  stream.device ∈ C.opened stream.owner ∧ (s.disk stream.device).isSome

def SameStream (a b : DeviceStream) : Prop := b.owner = a.owner ∧ b.device = a.device

theorem SameStream.live {a b : DeviceStream} (h : SameStream a b) : Live C s b ↔ Live C s a := by
  rw [Live, Live, h.1, h.2]

theorem DeviceStream.fill_live {stream : DeviceStream} (hlive : Live C s stream) :
    ∃ stream', (stream.fill X C recordSize).run.eval (execOut out) ⟨s, none⟩ = (.ok stream', ⟨s, none⟩) ∧
      SameStream stream stream' ∧ pending s stream' = pending s stream ∧ (stream'.page = [] → pending s stream = []) ∧
      (Flagged s stream.device stream.page → Flagged s stream'.device stream'.page) := by
  unfold DeviceStream.fill
  by_cases hempty : (stream.page.isEmpty && !stream.exhausted) = true
  · rw [if_pos hempty]
    obtain ⟨hpage, hmore⟩ := Bool.and_eq_true_iff.mp hempty
    rw [List.isEmpty_iff] at hpage
    rw [Bool.not_eq_true'] at hmore
    obtain ⟨page, heval, hmap, hflag'⟩ := @eval_localRecords X C recordSize s out _ _ hlive.1 hlive.2 stream.after
    have hreq := eval_request_of (execOut_sees out s) X stream.owner heval
    obtain ⟨rest, hsplit, hflag, hfirst⟩ := takePage_spec recordSize maxListPageBytes false 0
      (recordsAfter stream.after (s.allRecords stream.device))
    refine ⟨_, Task.eval_try_ok hreq, ⟨rfl, rfl⟩, ?_, ?_, fun _ => hflag'⟩
    · have hbefore : pending s stream = recordsAfter stream.after (s.allRecords stream.device) := by
        simp [pending, hpage, hmore]
      rw [hbefore]
      conv_rhs => rw [hsplit]
      unfold pending
      dsimp only
      rw [hmap]
      congr 1
      cases hlast : page.getLast? with
      | none =>
        have hnil := List.getLast?_eq_none_iff.mp hlast
        subst hnil
        rw [List.map_nil] at hmap
        have hall : recordsAfter stream.after (s.allRecords stream.device) = [] := by
          by_contra hne
          exact hfirst rfl hne hmap.symm
        rw [← hmap, List.nil_append] at hsplit
        simp [← hsplit, hall]
      | some last =>
        have hne : page.isEmpty = false := by
          cases page with
          | nil => cases hlast
          | cons => rfl
        have hnext : recordsAfter (some ⟨last.record.keyHash, last.record.version⟩)
            (s.allRecords stream.device) = rest := by
          refine recordsAfter_next hsplit ?_
          rw [← hmap, List.getLast?_map, hlast]
          rfl
        rw [hne, Bool.or_false, Option.map_some, hnext]
        cases htr : (takePage recordSize maxListPageBytes false 0
          (recordsAfter stream.after (s.allRecords stream.device))).2 with
        | true => rfl
        | false =>
          have : rest = [] := by
            by_contra hrest
            exact absurd (hflag.mpr hrest) (by rw [htr]; exact Bool.false_ne_true)
          rw [this]
          rfl
    · intro hnil
      dsimp only at hnil
      subst hnil
      by_contra hne
      refine hfirst rfl (fun hall => hne ?_) hmap.symm
      simp [pending, hpage, hall]
  · rw [if_neg hempty]
    refine ⟨stream, rfl, ⟨rfl, rfl⟩, rfl, fun hnil => ?_, id⟩
    rw [hnil, List.isEmpty_nil, Bool.true_and, Bool.not_eq_true', Bool.not_eq_false] at hempty
    simp [pending, hnil, hempty]

theorem DeviceStream.next_live {stream : DeviceStream} (hlive : Live C s stream) :
    ∃ item stream', (stream.next X C recordSize).run.eval (execOut out) ⟨s, none⟩ = (.ok (item, stream'), ⟨s, none⟩) ∧
      SameStream stream stream' ∧ item.map StreamedRecord.record = (pending s stream).head? ∧
      (∀ r ∈ item, r.device = stream.device) ∧ pending s stream' = (pending s stream).tail ∧
      (Flagged s stream.device stream.page →
        (∀ r ∈ item, r.shardPresent = s.shardHere r.device r.record) ∧ Flagged s stream'.device stream'.page) := by
  obtain ⟨filled, heval, hsame, hpending, hend, hflags⟩ := @DeviceStream.fill_live X C recordSize s out _ hlive
  unfold DeviceStream.next
  rw [Task.eval_try_ok heval, ← hpending]
  rw [← hpending] at hend
  cases hpage : filled.page with
  | nil =>
    have hnone := hend hpage
    refine ⟨none, filled, rfl, hsame, ?_, nofun, ?_, fun h => ⟨nofun, hflags h⟩⟩
    · rw [hnone]
      rfl
    · rw [hnone]
      rfl
  | cons r rest =>
    refine ⟨_, _, rfl, hsame, ?_, ?_, ?_, fun h => ?_⟩
    · simp [pending, hpage]
    · rintro _ ⟨⟩
      exact hsame.2
    · simp [pending, hpage]
    · have hfilled := hflags h
      rw [hpage] at hfilled
      refine ⟨?_, fun x hx => hfilled x (List.mem_cons_of_mem _ hx)⟩
      rintro _ ⟨⟩
      exact hfilled r List.mem_cons_self

/-- A device that cannot be read fails when its first record is asked for. -/
theorem DeviceStream.next_gone {stream : DeviceStream} (hlive : ¬ Live C s stream) (hpage : stream.page = [])
    (hmore : stream.exhausted = false) :
    ∃ e, (stream.next X C recordSize).run.eval (execOut out) ⟨s, none⟩ = (.error e, ⟨s, none⟩) := by
  have hgone : stream.device ∉ C.opened stream.owner ∨ s.disk stream.device = none := by
    by_contra hno
    push Not at hno
    exact hlive ⟨hno.1, Option.isSome_iff_ne_none.mpr hno.2⟩
  obtain ⟨e, heval⟩ := @eval_localRecords_gone X C recordSize s out _ _ hgone stream.after
  have hreq := eval_request_of (execOut_sees out s) X stream.owner heval
  have hfill : (stream.fill X C recordSize).run.eval (execOut out) ⟨s, none⟩ =
      (.error { e with node := e.node <|> some stream.owner }, ⟨s, none⟩) := by
    unfold DeviceStream.fill
    rw [if_pos (by rw [hpage, hmore]; rfl)]
    exact Task.eval_try_error hreq
  exact ⟨_, Task.eval_try_error hfill⟩

end Stream

/-! ## The merge -/

section Merge

open Merging (Line rounds delivered failure failAll failedAt groupAt places foldPlaces outlookOf)

variable {X : Crates} {C : Cluster} {recordSize : MetadataRecord → ℕ} {s : Store} {out : Outage} {stream : DeviceStream}
  {rest : List (Except Unit StreamedRecord)} {heads : List Head}
    {ls : List (Line UnavailableDevice Unit StreamedRecord)}

/-- What a stream of a device that can be read is going to yield. -/
def yields (s : Store) (stream : DeviceStream) : List StreamedRecord :=
  (pending s stream).map fun r => ⟨stream.device, r, s.shardHere stream.device r⟩

/-- The answers of a stream: its records, or a failure when it is asked for the first. -/
def StreamAnswers (C : Cluster) (s : Store) (stream : DeviceStream) (rest : List (Except Unit StreamedRecord)) : Prop :=
  (Live C s stream ∧ Flagged s stream.device stream.page ∧ rest = (yields s stream).map .ok) ∨
    (¬ Live C s stream ∧ stream.page = [] ∧ stream.exhausted = false ∧ rest = [.error ()])

/-- A stream with its next record, and the same as a source of answers; a stream without a record is not asked again. -/
structure Stands (C : Cluster) (s : Store) (head : Head) (l : Line UnavailableDevice Unit StreamedRecord) : Prop where
  tag : l.tag = ⟨head.stream.device, head.stream.owner⟩
  item : l.head = head.item
  answers : head.item.isSome → StreamAnswers C s head.stream l.rest

/-- A failed source is named once. -/
def named (unread : List UnavailableDevice) (u : UnavailableDevice) : List UnavailableDevice :=
  u :: unread.filter fun u' => u'.device != u.device

/-- The stream as a source, with its next record and the answers behind it. -/
def DeviceStream.line (stream : DeviceStream) (item : Option StreamedRecord)
    (rest : List (Except Unit StreamedRecord)) : Line UnavailableDevice Unit StreamedRecord :=
    ⟨⟨stream.device, stream.owner⟩, item, rest⟩

theorem advance_line (h : StreamAnswers C s stream rest) (unread : List UnavailableDevice)
    (item : Option StreamedRecord) : ∃ head', (advance X C recordSize stream unread).eval (execOut out) ⟨s, none⟩ =
        ((head', ((stream.line item rest).advance.2.map fun _ => named unread ⟨stream.device, stream.owner⟩).getD
        unread), ⟨s, none⟩) ∧
      Stands C s head' (stream.line item rest).advance.1 := by
  unfold advance
  rcases h with ⟨hlive, hflag, rfl⟩ | ⟨hlive, hpage, hmore, rfl⟩
  · obtain ⟨item', stream', heval, hsame, hitem, hdevice, hpending, hflags⟩ :=
      @DeviceStream.next_live X C recordSize s out _ hlive
    obtain ⟨hhere, hflag'⟩ := hflags hflag
    rw [Task.eval_bind, heval]
    cases hyield : pending s stream with
    | nil =>
      obtain rfl : item' = none := by simpa [hyield] using hitem
      refine ⟨⟨stream', none⟩, by simp [yields, hyield, Line.advance, DeviceStream.line], ?_, ?_, nofun⟩
      · simp [yields, hyield, Line.advance, DeviceStream.line, hsame.1, hsame.2]
      · simp [yields, hyield, Line.advance, DeviceStream.line]
    | cons r more =>
      obtain ⟨x, rfl, hx⟩ : ∃ x, item' = some x ∧ x.record = r := by simpa [hyield] using hitem
      have heq : x = ⟨stream.device, r, s.shardHere stream.device r⟩ := by
        have h₁ := hdevice x rfl
        have h₂ := hhere x rfl
        cases x
        simp_all
      have hrest : yields s stream' = more.map fun r => ⟨stream.device, r, s.shardHere stream.device r⟩ := by
        rw [yields, hpending, hyield, hsame.2]
        rfl
      refine ⟨⟨stream', some x⟩, by simp [yields, hyield, Line.advance, DeviceStream.line], ?_, ?_, fun _ => ?_⟩
      · simp [yields, hyield, Line.advance, DeviceStream.line, hsame.1, hsame.2]
      · simp [yields, hyield, Line.advance, DeviceStream.line, heq]
      · refine .inl ⟨hsame.live.mpr hlive, hflag', ?_⟩
        rw [hrest, yields, hyield]
        rfl
  · obtain ⟨e, heval⟩ := @DeviceStream.next_gone X C recordSize s out _ hlive hpage hmore
    rw [Task.eval_bind, heval]
    exact ⟨⟨stream, none⟩, rfl, rfl, rfl, nofun⟩

def nameFailed {γ : Type} (b : γ × List UnavailableDevice) (u : UnavailableDevice) (_ : Unit) :
    γ × List UnavailableDevice :=
  (b.1, named b.2 u)

def goOn {γ : Type} (b : γ × List UnavailableDevice) (u : UnavailableDevice) (e : Unit) :
    Except (γ × List UnavailableDevice) (γ × List UnavailableDevice) := .ok (nameFailed b u e)

theorem advanceAll_lines {γ : Type} {used : Head → Bool} {used' : Line UnavailableDevice Unit StreamedRecord →
    Bool} (done : γ) (h : List.Forall₂ (fun head l => Stands C s head l ∧ used' l = used head ∧
    (used head = true → StreamAnswers C s head.stream l.rest)) heads ls) (unread : List UnavailableDevice) :
    ∃ heads' ls' unread', (advanceAll X C recordSize used unread heads).eval (execOut out)
    ⟨s, none⟩ = ((heads', unread'), ⟨s, none⟩) ∧
      Merging.advanceAll goOn used' ls (done, unread) = .ok (ls', (done, unread')) ∧
      List.Forall₂ (Stands C s) heads' ls' := by
  induction h generalizing unread with
  | nil => exact ⟨[], [], unread, rfl, rfl, .nil⟩
  | @cons head l heads ls hone _ ih =>
    obtain ⟨hstands, hused, hanswers⟩ := hone
    unfold advanceAll Merging.advanceAll
    by_cases hu : used head = true
    · have hline : head.stream.line l.head l.rest = l := by rw [DeviceStream.line, ← hstands.tag]
      obtain ⟨head', hhead, hstands'⟩ := @advance_line X C recordSize s out _ _ (hanswers hu) unread l.head
      rw [hline] at hhead hstands'
      obtain ⟨heads', ls', unread', heval, hpure, hall⟩ := ih ((l.advance.2.map fun _ =>
        named unread ⟨head.stream.device, head.stream.owner⟩).getD unread)
      refine ⟨head' :: heads', l.advance.1 :: ls', unread', ?_, ?_, .cons hstands' hall⟩
      · rw [if_pos hu, Task.eval_bind, hhead, Task.eval_bind, heval]
        rfl
      · have hnote : Merging.note goOn (done, unread) l.tag l.advance.2 = .ok (done,
            (l.advance.2.map fun _ => named unread ⟨head.stream.device, head.stream.owner⟩).getD unread) := by
          rw [hstands.tag]
          cases l.advance.2 <;> rfl
        rw [if_pos (hused.trans hu), hnote]
        dsimp only
        rw [hpure]
    · obtain ⟨heads', ls', unread', heval, hpure, hall⟩ := ih unread
      refine ⟨head :: heads', l :: ls', unread', ?_, ?_, .cons hstands hall⟩
      · rw [if_neg hu, Task.eval_bind, heval]
        rfl
      · rw [if_neg (by rwa [hused]), hpure]

theorem Stands.at_eq {head : Head} {l : Line UnavailableDevice Unit StreamedRecord} (h : Stands C s head l)
    (p : KeyHash ×ₗ VersionId) : Line.at StreamedRecord.place p l = Head.at p head := by
  rw [Line.at, Head.at, h.item]
  cases head.item with
  | none => rfl
  | some r => rw [Option.any_some, Option.any_some, Bool.eq_iff_iff, decide_eq_true_iff, beq_iff_eq]

theorem group_lines (h : List.Forall₂ (Stands C s) heads ls) (p : KeyHash ×ₗ VersionId) :
    (heads.filter (Head.at p)).filterMap Head.item = (ls.filter (Line.at StreamedRecord.place p)).filterMap
    Line.head := by
  induction h with
  | nil => rfl
  | cons hone _ ih =>
    rw [List.filter_cons, List.filter_cons, hone.at_eq p]
    split_ifs
    · rw [List.filterMap_cons, List.filterMap_cons, hone.item, ih]
    · exact ih

theorem smallest_lines (h : List.Forall₂ (Stands C s) heads ls) :
    smallest heads = Merging.smallest StreamedRecord.place ls := by
  have hitems : heads.map Head.item = ls.map Line.head := by
    induction h with
    | nil => rfl
    | cons hone _ ih => rw [List.map_cons, List.map_cons, hone.item, ih]
  have hmap := congrArg (List.filterMap fun o : Option StreamedRecord => o.map StreamedRecord.place) hitems
  rw [List.filterMap_map, List.filterMap_map] at hmap
  exact congrArg List.min? hmap

def classifyNext (X : Crates) (unread known : List DeviceId) (group : List StreamedRecord) : List Classified :=
  match group.map fun r => (⟨r.device, r.record⟩ : LocatedRecord) with
  | [] => []
  | first :: rest => [classifyGroup X group unread known first rest]

theorem mem_classifyNext {unread known : List DeviceId} {group : List StreamedRecord} {v : Classified} :
    v ∈ classifyNext X unread known group ↔ ∃ first rest,
    group.map (fun r => (⟨r.device, r.record⟩ : LocatedRecord)) = first :: rest ∧
      v = classifyGroup X group unread known first rest := by
  unfold classifyNext
  split <;> simp_all

def classify (X : Crates) (known : List DeviceId) (b : List Classified × List UnavailableDevice)
    (group : List StreamedRecord) : List Classified × List UnavailableDevice :=
  (b.1 ++ classifyNext X (b.2.map UnavailableDevice.device) known group, b.2)

/-- **The merge over streams is the merge over their answers.** -/
theorem mergeLoop_rounds (known : List DeviceId) (fuel : ℕ) (h : List.Forall₂ (Stands C s) heads ls)
    (unread : List UnavailableDevice) (done : List Classified) :
    ∃ r, (mergeLoop X C recordSize known fuel heads unread done).eval (execOut out) ⟨s, none⟩ = (r, ⟨s, none⟩) ∧
      rounds goOn StreamedRecord.place (classify X known) fuel ls (done, unread) = .ok r := by
  induction fuel generalizing heads ls unread done with
  | zero => exact ⟨_, rfl, rfl⟩
  | succ fuel ih =>
    unfold mergeLoop rounds
    rw [smallest_lines h]
    cases hsmall : Merging.smallest StreamedRecord.place ls with
    | none => exact ⟨_, rfl, rfl⟩
    | some p =>
      dsimp only
      rw [group_lines h]
      have hgroup : (ls.filter (Line.at StreamedRecord.place p)).filterMap Line.head ≠ [] := by
        obtain ⟨l, hl, hat⟩ := Merging.smallest_mem hsmall
        obtain ⟨r, hr, -⟩ := (Option.any_eq_true _ _).mp hat
        exact List.ne_nil_of_mem (List.mem_filterMap.mpr ⟨l, List.mem_filter.mpr ⟨hl, hat⟩, hr⟩)
      generalize (ls.filter (Line.at StreamedRecord.place p)).filterMap Line.head = group at hgroup
      obtain ⟨r, more, rfl⟩ := List.exists_cons_of_ne_nil hgroup
      obtain ⟨heads', ls', unread', heval, hpure, hall⟩ := @advanceAll_lines X C recordSize s out heads ls _ (Head.at p)
        (Line.at StreamedRecord.place p) (done ++ classifyNext X (unread.map UnavailableDevice.device)
        known (r :: more)) (h.imp fun head l hone => ⟨hone, hone.at_eq p, fun hat => hone.answers (by
          obtain ⟨x, hx, -⟩ := (Option.any_eq_true _ _).mp hat
          rw [hx]
          rfl)⟩) unread
      obtain ⟨result, hloop, hrounds⟩ := ih hall unread' (done ++ classifyNext X (unread.map UnavailableDevice.device)
        known (r :: more))
      refine ⟨result, ?_, ?_⟩
      · rw [List.map_cons]
        dsimp only
        rw [Task.eval_bind, heval]
        exact hloop
      · rw [classify, hpure]
        exact hrounds

def Counted (versions : List Classified) (copy : LocatedRecord) : Prop := ∃ v ∈ versions, copy ∈ v.group

theorem classifyGroup_group (group : List StreamedRecord) (unread known : List DeviceId) (first : LocatedRecord)
    (rest : List LocatedRecord) : (classifyGroup X group unread known first rest).group = first :: rest := by
  unfold classifyGroup
  dsimp only
  split
  · rfl
  · rfl

/-- The version was classified from all the copies of it that were to come. -/
def ClassifiedFrom (X : Crates) (unread known : List DeviceId) (s : Store) (come : LocatedRecord → Prop)
    (v : Classified) : Prop :=
  ∃ place group first rest, v = classifyGroup X group unread known first rest ∧
    group.map (fun r => (⟨r.device, r.record⟩ : LocatedRecord)) = first :: rest ∧
    (∀ copy, copy ∈ first :: rest ↔ come copy ∧ copy.record.filing = place) ∧
    ∀ r ∈ group, r.shardPresent = s.shardHere r.device r.record

/-! ## The whole inventory -/

/-- The device can be read by its own node, which answers. -/
def InStock (C : Cluster) (s : Store) (out : Outage) (e : DeviceEntry) : Prop :=
  out.down e.node = false ∧ e.id ∈ C.opened e.node ∧ (s.disk e.id).isSome

theorem openStreams_eval (entries : List DeviceEntry) (hlisted : ∀ e ∈ entries, (C.document.node e.node).isSome) :
    (openStreams X C entries).eval (execOut out) ⟨s, none⟩ =
      (((entries.filter fun e => !out.down e.node).map fun e => (⟨e.node, e.id, [], none, false⟩ : DeviceStream),
        (entries.filter fun e => out.down e.node).map fun e => (⟨e.id, e.node⟩ : UnavailableDevice)), ⟨s, none⟩) := by
  induction entries with
  | nil => rfl
  | cons e entries ih =>
    have hrest := ih fun e' he' => hlisted e' (List.mem_cons_of_mem _ he')
    have hnode := hlisted e List.mem_cons_self
    unfold openStreams
    cases hdown : out.down e.node with
    | true =>
      obtain ⟨detail, hconn, _⟩ := eval_connectTo_down (X := X) (execOut_sees out s) hnode hdown
      have hopen : (DeviceStream.open X C e.node e.id).run.eval (execOut out) ⟨s, none⟩ = (.error detail, ⟨s, none⟩) :=
        Task.eval_try_error hconn
      rw [Task.eval_bind, hopen]
      dsimp only
      rw [Task.eval_bind, hrest, List.filter_cons_of_neg (by simp [hdown]), List.filter_cons_of_pos (by simp [hdown])]
      rfl
    | false =>
      have hconn := eval_connectTo_up (X := X) (execOut_sees out s) hnode hdown
      have hopen : (DeviceStream.open X C e.node e.id).run.eval (execOut out) ⟨s, none⟩ =
          (.ok ⟨e.node, e.id, [], none, false⟩, ⟨s, none⟩) := Task.eval_try_ok hconn
      rw [Task.eval_bind, hopen]
      dsimp only
      rw [Task.eval_bind, hrest, List.filter_cons_of_pos (by simp [hdown]), List.filter_cons_of_neg (by simp [hdown])]
      rfl

def stockOf (s : Store) (e : DeviceEntry) : List StreamedRecord :=
  (s.allRecords e.id).map fun r => ⟨e.id, r, s.shardHere e.id r⟩

def sourceOf (C : Cluster) (s : Store) (e : DeviceEntry) : UnavailableDevice × List (Except Unit StreamedRecord) :=
  (⟨e.id, e.node⟩, if e.id ∈ C.opened e.node ∧ (s.disk e.id).isSome then (stockOf s e).map .ok else [.error ()])

theorem answers_fresh (e : DeviceEntry) : StreamAnswers C s ⟨e.node, e.id, [], none, false⟩ (sourceOf C s e).2 := by
  unfold sourceOf
  by_cases hlive : e.id ∈ C.opened e.node ∧ (s.disk e.id).isSome
  · rw [if_pos hlive]
    exact .inl ⟨hlive, nofun, rfl⟩
  · rw [if_neg hlive]
    exact .inr ⟨hlive, rfl, rfl, rfl⟩

theorem nameFailed_spec {γ : Type} (fs : List (UnavailableDevice × Unit)) (done : γ) {unread : List UnavailableDevice}
    (hnodup : (unread.map UnavailableDevice.device).Nodup) :
    ∃ unread', failAll nameFailed (done, unread) fs = (done, unread') ∧ (unread'.map UnavailableDevice.device).Nodup ∧
      ∀ d, d ∈ unread'.map UnavailableDevice.device ↔ d ∈ unread.map UnavailableDevice.device ∨
      ∃ f ∈ fs, f.1.device = d := by
  induction fs generalizing unread with
  | nil => exact ⟨unread, rfl, hnodup, by simp⟩
  | cons f fs ih =>
    have hnamed : ∀ d, d ∈ (named unread f.1).map UnavailableDevice.device ↔ d ∈ unread.map UnavailableDevice.device ∨
        f.1.device = d := by
      intro d
      by_cases hd : f.1.device = d
      · simp [named, hd]
      · simp only [named, List.map_cons, List.mem_cons, List.mem_map, List.mem_filter, bne_iff_ne, hd, or_false,
          Ne.symm hd, false_or]
        refine exists_congr fun u => and_congr_left fun hu => and_iff_left ?_
        rw [hu]
        exact Ne.symm hd
    have hnodup' : ((named unread f.1).map UnavailableDevice.device).Nodup := by
      refine List.nodup_cons.mpr ⟨?_, (List.filter_sublist.map _).nodup hnodup⟩
      simp
    obtain ⟨unread', heval, hnd, hmem⟩ := ih hnodup'
    refine ⟨unread', heval, hnd, fun d => ?_⟩
    rw [hmem, hnamed, List.exists_mem_cons_iff, or_assoc]

theorem failedAt_sources (entries : List DeviceEntry) (p : Option (KeyHash ×ₗ VersionId))
    (u : UnavailableDevice × Unit) : u ∈ failedAt StreamedRecord.place p ((entries.map (sourceOf C s)).map outlookOf) ↔
      p = none ∧ ∃ e ∈ entries, ¬ (e.id ∈ C.opened e.node ∧ (s.disk e.id).isSome) ∧
      (⟨e.id, e.node⟩ : UnavailableDevice) = u.1 := by
  rw [List.map_map]
  obtain ⟨u, ⟨⟩⟩ := u
  simp only [Merging.mem_failedAt, List.mem_map, exists_exists_and_eq_and, Function.comp_apply, outlookOf, sourceOf]
  constructor
  · rintro ⟨e, he, rfl, hfail, hlast⟩
    split_ifs at hfail hlast with hlive
    · rw [Merging.failure_ok] at hfail
      cases hfail
    · exact ⟨hlast.symm, e, he, hlive, rfl⟩
  · rintro ⟨rfl, e, he, hlive, rfl⟩
    exact ⟨e, he, rfl, by rw [if_neg hlive]; rfl, by rw [if_neg hlive]; rfl⟩

theorem mem_delivered {e : DeviceEntry} {x : StreamedRecord} : x ∈ delivered (sourceOf C s e).2 ↔
    (e.id ∈ C.opened e.node ∧ (s.disk e.id).isSome) ∧ x.record ∈ s.allRecords e.id ∧
    x = ⟨e.id, x.record, s.shardHere e.id x.record⟩ := by
  unfold sourceOf
  by_cases hlive : e.id ∈ C.opened e.node ∧ (s.disk e.id).isSome
  · rw [if_pos hlive, Merging.delivered_ok, stockOf, List.mem_map]
    constructor
    · rintro ⟨r, hr, rfl⟩
      exact ⟨hlive, hr, rfl⟩
    · rintro ⟨-, hr, heq⟩
      exact ⟨x.record, hr, heq.symm⟩
  · rw [if_neg hlive]
    exact ⟨nofun, fun h => absurd h.1 hlive⟩

abbrev stockAt (C : Cluster) (s : Store) (entries : List DeviceEntry) (p : KeyHash ×ₗ VersionId) :
    List StreamedRecord :=
  groupAt StreamedRecord.place p ((entries.map (sourceOf C s)).map outlookOf)

theorem mem_stockAt {entries : List DeviceEntry} {p : KeyHash ×ₗ VersionId} {x : StreamedRecord} :
    x ∈ stockAt C s entries p ↔ (∃ e ∈ entries, x ∈ delivered (sourceOf C s e).2) ∧ x.record.filing = p := by
  rw [stockAt, groupAt, List.map_map, List.flatMap_map, List.mem_flatMap]
  simp only [Function.comp_apply, outlookOf, List.mem_filter, decide_eq_true_eq]
  constructor
  · rintro ⟨e, he, hx, hp⟩
    exact ⟨⟨e, he, hx⟩, hp⟩
  · rintro ⟨⟨e, he, hx⟩, hp⟩
    exact ⟨e, he, hx, hp⟩

/-- **The streams of devices, asked and merged**: every version is classified from what the devices that can be read
hold of it. -/
theorem streams_merged (known : List DeviceId) {fuel : ℕ} (entries : List DeviceEntry) {unread : List UnavailableDevice}
    (hnodup : (unread.map UnavailableDevice.device).Nodup)
    (hfuel : (entries.map fun e => (s.allRecords e.id).length).sum < fuel) :
    ∃ heads unread' versions, (advanceAll X C recordSize (fun _ => true) unread
        (entries.map fun e => (⟨⟨e.node, e.id, [], none, false⟩, none⟩ : Head))).eval (execOut out) ⟨s, none⟩ =
          ((heads, unread'), ⟨s, none⟩) ∧
      (mergeLoop X C recordSize known fuel heads unread' []).eval (execOut out)
      ⟨s, none⟩ = ((versions, unread'), ⟨s, none⟩) ∧
      versions = ((places StreamedRecord.place ((entries.map (sourceOf C s)).map outlookOf)).sort (· ≤ ·)).flatMap
      (fun p =>
        classifyNext X (unread'.map UnavailableDevice.device) known (stockAt C s entries p)) ∧
      (unread'.map UnavailableDevice.device).Nodup ∧
      ∀ d, d ∈ unread'.map UnavailableDevice.device ↔ d ∈ unread.map UnavailableDevice.device ∨
        ∃ e ∈ entries, e.id = d ∧ ¬ (e.id ∈ C.opened e.node ∧ (s.disk e.id).isSome) := by
  obtain ⟨unread', hnames, hnd, hun⟩ := nameFailed_spec
    (failedAt StreamedRecord.place none ((entries.map (sourceOf C s)).map outlookOf)) ([] : List Classified) hnodup
  have hasked := @Merging.advanceAll_fresh _ _ _ _ _ _ nameFailed goOn (entries.map (sourceOf C s)) StreamedRecord.place
    (fun _ _ _ _ _ => rfl) (([] : List Classified), unread)
  obtain ⟨heads, ls, unread₁, heval, hpure, hstand⟩ := @advanceAll_lines X C recordSize s out
    (entries.map fun e => ⟨⟨e.node, e.id, [], none, false⟩, none⟩) ((entries.map (sourceOf C s)).map fun src =>
    ⟨src.1, none, src.2⟩) _ (fun _ => true) (fun _ => true) ([] : List Classified) (by
      rw [List.map_map, List.forall₂_map_left_iff, List.forall₂_map_right_iff, List.forall₂_same]
      exact fun e _ => ⟨⟨rfl, rfl, nofun⟩, rfl, fun _ => answers_fresh e⟩) unread
  rw [hpure, hnames] at hasked
  obtain ⟨rfl, hunread⟩ := Prod.mk.inj (Except.ok.inj hasked)
  obtain rfl : unread₁ = unread' := congrArg Prod.snd hunread
  obtain ⟨r, hloop, hrounds⟩ := @mergeLoop_rounds X C recordSize s out _ _ known fuel hstand unread₁ []
  have hsorted : ∀ src ∈ entries.map (sourceOf C s), (delivered src.2).Pairwise fun a b => a.place < b.place := by
    intro src hsrc
    obtain ⟨e, -, rfl⟩ := List.mem_map.mp hsrc
    unfold sourceOf
    dsimp only
    split_ifs
    · rw [Merging.delivered_ok, stockOf, List.pairwise_map]
      exact allRecords_sorted s e.id
    · exact .nil
  have hlen : ((entries.map (sourceOf C s)).map fun src => (delivered src.2).length).sum ≤
      (entries.map fun e => (s.allRecords e.id).length).sum := by
    rw [List.map_map]
    refine List.sum_le_sum fun e _ => ?_
    unfold sourceOf
    dsimp only [Function.comp_apply]
    split_ifs
    · rw [Merging.delivered_ok, stockOf, List.length_map]
    · exact Nat.zero_le _
  have hfold := @Merging.rounds_fresh _ _ _ _ _ _ StreamedRecord.place (classify X known) nameFailed goOn _ _ hsorted
    (fun _ _ _ _ _ => rfl) (hlen.trans_lt hfuel) ([], unread₁)
  have hpass : ∀ (ps : List (KeyHash ×ₗ VersionId)) (done : List Classified), ps.foldl (fun b p => failAll nameFailed
      (classify X known b (stockAt C s entries p)) (failedAt StreamedRecord.place (some p)
      ((entries.map (sourceOf C s)).map outlookOf)))
        (done, unread₁) = (done ++ ps.flatMap fun p => classifyNext X (unread₁.map UnavailableDevice.device)
        known (stockAt C s entries p),
          unread₁) := by
    intro ps
    induction ps with
    | nil => intro done; simp
    | cons p ps ih =>
      intro done
      have hnone : failedAt StreamedRecord.place (some p) ((entries.map (sourceOf C s)).map outlookOf) = [] :=
        List.eq_nil_iff_forall_not_mem.mpr fun u hu =>
        Option.some_ne_none p ((failedAt_sources entries (some p) u).mp hu).1
      rw [List.foldl_cons, hnone, List.flatMap_cons, ← List.append_assoc]
      exact ih _
  rw [hrounds, foldPlaces, hpass, List.nil_append] at hfold
  rw [Except.ok.inj hfold] at hloop
  refine ⟨heads, unread₁, _, heval, hloop, rfl, hnd, fun d => ?_⟩
  rw [hun]
  refine or_congr_right ?_
  simp only [failedAt_sources, true_and]
  constructor
  · rintro ⟨u, ⟨e, he, hlive, hu⟩, rfl⟩
    exact ⟨e, he, congrArg UnavailableDevice.device hu, hlive⟩
  · rintro ⟨e, he, rfl, hlive⟩
    exact ⟨(⟨e.id, e.node⟩, ()), ⟨e, he, hlive, rfl⟩, rfl⟩

def recordCount (C : Cluster) (s : Store) : ℕ := ((inventoryDevices C).map fun e => (s.allRecords e.id).length).sum

def Stocked (C : Cluster) (s : Store) (out : Outage) (copy : LocatedRecord) : Prop :=
  ∃ e ∈ inventoryDevices C, InStock C s out e ∧ e.id = copy.device ∧ copy.record ∈ s.allRecords copy.device

/-- **An inventory during an outage** classifies every version from the copies on the devices it can read, and names the
others. -/
theorem inventoryMerge_groups {fuel : ℕ} (hfuel : recordCount C s < fuel) :
    ∃ inventory unread known, (inventoryMerge X C recordSize fuel).eval (execOut out)
    ⟨s, none⟩ = (inventory, ⟨s, none⟩) ∧
      (∀ copy, Counted inventory.versions copy ↔ Stocked C s out copy) ∧
      (inventory.unread.map UnavailableDevice.device).Perm unread ∧ unread.Nodup ∧
      (∀ d, d ∈ unread ↔ ∃ e ∈ inventoryDevices C, ¬ InStock C s out e ∧ e.id = d) ∧
      (∀ d, d ∈ known ↔ ∃ e ∈ inventoryDevices C, out.down e.node = false ∧ e.id = d) ∧
      ∀ v ∈ inventory.versions, ClassifiedFrom X unread known s (Stocked C s out) v := by
  have hlisted : ∀ e ∈ inventoryDevices C, (C.document.node e.node).isSome := fun e he =>
    C.owner_listed e (List.mem_filter.mp he).1
  have hopen := @openStreams_eval X C s out (inventoryDevices C) hlisted
  have hdown : (((inventoryDevices C).filter fun e => out.down e.node).map fun e =>
      (⟨e.id, e.node⟩ : UnavailableDevice)).map UnavailableDevice.device =
        ((inventoryDevices C).filter fun e => out.down e.node).map DeviceEntry.id := by
    rw [List.map_map]
    rfl
  have hids : ((inventoryDevices C).map DeviceEntry.id).Nodup :=
    (List.Sublist.map _ List.filter_sublist).nodup C.devices_nodup
  have hle : (((inventoryDevices C).filter fun e => !out.down e.node).map fun e => (s.allRecords e.id).length).sum ≤
      recordCount C s := (List.Sublist.map _ List.filter_sublist).sum_le_sum fun _ _ => Nat.zero_le _
  let known := (((inventoryDevices C).filter fun e => !out.down e.node).map fun e =>
    (⟨e.node, e.id, [], none, false⟩ : DeviceStream)).map DeviceStream.device
  obtain ⟨heads, unread, versions, hfirst, hloop, hversions, hnd, hun⟩ :=
    @streams_merged X C recordSize s out known fuel
    ((inventoryDevices C).filter fun e => !out.down e.node)
    (((inventoryDevices C).filter fun e => out.down e.node).map fun e => ⟨e.id, e.node⟩)
    (by rw [hdown]; exact (List.Sublist.map _ List.filter_sublist).nodup hids) (hle.trans_lt hfuel)
  have hstocked : ∀ copy, (∃ e ∈ (inventoryDevices C).filter fun e => !out.down e.node,
      (⟨copy.device, copy.record, s.shardHere copy.device copy.record⟩ : StreamedRecord) ∈ delivered
      (sourceOf C s e).2) ↔
        Stocked C s out copy := by
    intro copy
    simp only [Stocked, List.mem_filter, Bool.not_eq_true', InStock, mem_delivered]
    constructor
    · rintro ⟨e, ⟨he, hup⟩, ⟨hin, hdisk⟩, hmem, heq⟩
      have hid : copy.device = e.id := congrArg StreamedRecord.device heq
      exact ⟨e, he, ⟨hup, hin, hdisk⟩, hid.symm, hid ▸ hmem⟩
    · rintro ⟨e, he, ⟨hup, hin, hdisk⟩, hid, hmem⟩
      exact ⟨e, ⟨he, hup⟩, ⟨hin, hdisk⟩, hid ▸ hmem, by rw [hid]⟩
  -- The copies of a group are those that are stocked of its version.
  have hcopies : ∀ p copy, copy ∈ (stockAt C s ((inventoryDevices C).filter fun e => !out.down e.node) p).map
      (fun r => (⟨r.device, r.record⟩ : LocatedRecord)) ↔ Stocked C s out copy ∧ copy.record.filing = p := by
    intro p copy
    rw [List.mem_map, ← hstocked]
    constructor
    · rintro ⟨x, hx, rfl⟩
      obtain ⟨⟨e, he, hmem⟩, hp⟩ := mem_stockAt.mp hx
      have heq := (mem_delivered.mp hmem).2.2
      refine ⟨⟨e, he, ?_⟩, hp⟩
      have hdev : x.device = e.id := congrArg StreamedRecord.device heq
      rwa [hdev, ← heq]
    · rintro ⟨⟨e, he, hmem⟩, hp⟩
      exact ⟨_, mem_stockAt.mpr ⟨⟨e, he, hmem⟩, hp⟩, rfl⟩
  have hmem : ∀ {v}, v ∈ versions ↔ ∃ p first rest,
    (stockAt C s ((inventoryDevices C).filter fun e => !out.down e.node) p).map
      (fun r => (⟨r.device, r.record⟩ : LocatedRecord)) = first :: rest ∧
        v = classifyGroup X (stockAt C s ((inventoryDevices C).filter fun e => !out.down e.node) p)
          (unread.map UnavailableDevice.device) known first rest := by
    intro v
    rw [hversions]
    simp only [List.mem_flatMap, Finset.mem_sort, mem_classifyNext]
    constructor
    · rintro ⟨p, -, hv⟩
      exact ⟨p, hv⟩
    · rintro ⟨p, first, rest, hgroup, hv⟩
      refine ⟨p, ?_, first, rest, hgroup, hv⟩
      obtain ⟨x, hx, -⟩ := List.mem_map.mp (hgroup ▸ List.mem_cons_self : first ∈ _)
      obtain ⟨o, ho, hx⟩ := List.mem_flatMap.mp hx
      exact Merging.mem_places.mpr ⟨o, ho, x, (List.mem_filter.mp hx).1, of_decide_eq_true (List.mem_filter.mp hx).2⟩
  refine ⟨⟨versions, unread.insertionSort fun a b => a.device ≤ b.device⟩, unread.map UnavailableDevice.device, known,
    ?_, fun copy => ?_, (List.perm_insertionSort _ unread).map _, hnd, fun d => ?_, fun d => ?_, fun v hv => ?_⟩
  · unfold inventoryMerge
    rw [Task.eval_bind, hopen]
    dsimp only
    have hheads : (((inventoryDevices C).filter fun e => !out.down e.node).map fun e =>
        (⟨e.node, e.id, [], none, false⟩ : DeviceStream)).map (fun stream => (⟨stream, none⟩ : Head)) =
          ((inventoryDevices C).filter fun e => !out.down e.node).map fun e =>
          ⟨⟨e.node, e.id, [], none, false⟩, none⟩ := by
      rw [List.map_map]
      rfl
    rw [hheads, Task.eval_bind, hfirst]
    dsimp only
    rw [Task.eval_bind, hloop]
    rfl
  · constructor
    · rintro ⟨v, hv, hcopy⟩
      obtain ⟨p, first, rest, hgroup, rfl⟩ := hmem.mp hv
      rw [classifyGroup_group, ← hgroup] at hcopy
      exact ((hcopies p copy).mp hcopy).1
    · intro hcopy
      have hin := (hcopies copy.record.filing copy).mpr ⟨hcopy, rfl⟩
      obtain ⟨first, rest, hgroup⟩ := List.exists_cons_of_ne_nil (List.ne_nil_of_mem hin)
      refine ⟨_, hmem.mpr ⟨_, first, rest, hgroup, rfl⟩, ?_⟩
      rwa [classifyGroup_group, ← hgroup]
  · rw [hun, hdown]
    simp only [List.mem_map, List.mem_filter, Bool.not_eq_true', InStock]
    constructor
    · rintro (⟨e, ⟨he, hd⟩, rfl⟩ | ⟨e, ⟨he, _⟩, rfl, hno⟩)
      · exact ⟨e, he, fun h => Bool.false_ne_true (h.1.symm.trans hd), rfl⟩
      · exact ⟨e, he, fun h => hno h.2, rfl⟩
    · rintro ⟨e, he, hno, rfl⟩
      cases hd : out.down e.node with
      | true => exact .inl ⟨e, ⟨he, hd⟩, rfl⟩
      | false => exact .inr ⟨e, ⟨he, hd⟩, rfl, fun h => hno ⟨hd, h⟩⟩
  · simp only [known, List.map_map, List.mem_map, List.mem_filter, Bool.not_eq_true', Function.comp_apply, and_assoc]
  · obtain ⟨p, first, rest, hgroup, rfl⟩ := hmem.mp hv
    refine ⟨p, _, first, rest, rfl, hgroup, fun copy => ?_, fun x hx => ?_⟩
    · rw [← hgroup]
      exact hcopies p copy
    · obtain ⟨⟨e, -, hx⟩, -⟩ := mem_stockAt.mp hx
      have heq := (mem_delivered.mp hx).2.2
      rw [heq]

theorem inventoryMerge_sees {fuel : ℕ} (hfuel : recordCount C s < fuel) :
    ∃ inventory, (inventoryMerge X C recordSize fuel).eval (execOut out) ⟨s, none⟩ = (inventory, ⟨s, none⟩) ∧
      (∀ copy, Counted inventory.versions copy ↔ ∃ e ∈ inventoryDevices C, InStock C s out e ∧ e.id = copy.device ∧
        copy.record ∈ s.allRecords copy.device) ∧
      (inventory.unread.map UnavailableDevice.device).Nodup ∧
      ∀ d, d ∈ inventory.unread.map UnavailableDevice.device ↔ ∃ e ∈ inventoryDevices C, ¬ InStock C s out e ∧
      e.id = d := by
  obtain ⟨inventory, unread, _, heval, hcounted, hperm, hnodup, hunread, _⟩ :=
    @inventoryMerge_groups X C recordSize s out fuel hfuel
  exact ⟨inventory, heval, hcounted, hperm.nodup_iff.mpr hnodup, fun d => hperm.mem_iff.trans (hunread d)⟩

end Merge

end Djbod
