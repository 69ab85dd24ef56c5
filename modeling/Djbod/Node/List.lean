import Djbod.Node.Put

/-!
# Listing keys

* `pageOfKeys` : the first page of some entries and whether any were left over;
* `localList` : one node's page of the keys on its devices;
* `listKeys` : the nodes' pages merged, newest version per key, cut at the nearest horizon.
-/

namespace Djbod

open Sched

/-- Key, then version. -/
def KeyEntry.Le (a b : KeyEntry) : Prop := a.key < b.key ∨ a.key = b.key ∧ a.version ≤ b.version

instance : DecidableRel KeyEntry.Le := fun _ _ => inferInstanceAs (Decidable (_ ∨ _))

/-- The entries that fit behind `count` entries with `bytes` bytes of key text, and whether any were left
over. -/
def pageOfKeysFrom (limit : Option ℕ) : ℕ → ℕ → List KeyEntry → List KeyEntry × Bool
  | _, _, [] => ([], false)
  | count, bytes, entry :: rest =>
    if (limit.any fun l => count ≥ l) || (count ≠ 0 && bytes + entry.key.utf8ByteSize > maxListPageBytes) then
      ([], true)
    else
      let (page, truncated) := pageOfKeysFrom limit (count + 1) (bytes + entry.key.utf8ByteSize) rest
      (entry :: page, truncated)

/-- The first page of the entries: at most `limit` of them, a limit of zero counting as one, and at most
`maxListPageBytes` of key text. -/
def pageOfKeys (entries : List KeyEntry) (limit : Option ℕ) : List KeyEntry × Bool :=
  pageOfKeysFrom (limit.map fun l => max l 1) 0 0 entries

/-- Neighbours with the same key and version collapse to the first. -/
def dedupEntries : List KeyEntry → List KeyEntry
  | [] => []
  | [e] => [e]
  | a :: b :: rest =>
    if a.key = b.key ∧ a.version = b.version then
      match dedupEntries (b :: rest) with
      | [] => [a]
      | _ :: more => a :: more
    else a :: dedupEntries (b :: rest)

structure LocalListPage where
  entries : List KeyEntry
  truncated : Bool
  unread : List DeviceId

structure ListAnswer where
  keys : List KeyEntry
  truncated : Bool
  unread : List UnavailableDevice
  complete : Bool

/-- The merged listing so far: the newest entry per key, the devices not read, whether any node had more
and the smallest last key of such a node. -/
structure Merged where
  newest : List KeyEntry
  unread : List UnavailableDevice
  anyTruncated : Bool
  horizon : Option String

def mergeEntry (newest : List KeyEntry) (item : KeyEntry) : List KeyEntry :=
  match newest.find? fun e => e.key == item.key with
  | none => item :: newest
  | some existing =>
    if existing.version ≥ item.version then newest else item :: newest.filter fun e => e.key != item.key

/-- The nearer of a horizon and the last key of a page. -/
def nearerHorizon (horizon : Option String) (page : LocalListPage) : Option String :=
  if page.truncated then
    match page.entries.getLast? with
    | none => horizon
    | some last => if horizon.all fun h => last.key < h then some last.key else horizon
  else horizon

section

variable (X : Crates) (C : Cluster)

def localList (node : NodeId) (query : ListQuery) : NodeProc LocalListPage := do
  let (entries, unread) ← listDevices query (C.opened node)
  let entries := dedupEntries (entries.insertionSort KeyEntry.Le)
  let entries :=
    match query.startAfter with
    | none => entries
    | some after => entries.filter fun e => after < e.key
  let (page, truncated) := pageOfKeys entries query.limit
  pure ⟨page, truncated, unavailableDevices C node ++ unread⟩

/-- Put the nodes' pages together. A node that cannot be reached leaves its devices unread. -/
def mergePages : Merged → List (NodeId × Except ErrorDetail LocalListPage) → Except ErrorDetail Merged
  | merged, [] => .ok merged
  | merged, (target, .ok page) :: rest =>
    mergePages
      { newest := page.entries.foldl mergeEntry merged.newest
        unread := merged.unread ++ page.unread.map fun d => ⟨d, target⟩
        anyTruncated := merged.anyTruncated || page.truncated
        horizon := nearerHorizon merged.horizon page } rest
  | merged, (target, .error detail) :: rest =>
    if detail.code = .nodeUnreachable then
      mergePages
        { merged with
          unread := merged.unread ++ (C.document.devices.filter fun e => e.node == target && e.state != .removed).map
            fun e => ⟨e.id, target⟩ } rest
    else .error detail

/-- Every active node is asked for its page. -/
def broadcastLocalList (query : ListQuery) : Prog Op Resp (List (Except ErrorDetail LocalListPage)) :=
  Prog.all (C.document.activeNodes.map fun n =>
    (do connectTo X C n.id; request X n.id (localList C n.id query) : NodeProc LocalListPage).run)

def listKeys (query : ListQuery) : Coord ListAnswer := do
  let answers ← (ExceptT.lift (broadcastLocalList X C query) : Coord (List (Except ErrorDetail LocalListPage)))
  let merged ← require (mergePages C ⟨[], [], false, none⟩ ((C.document.activeNodes.map NodeEntry.id).zip answers))
  let keys := merged.newest.insertionSort fun a b => a.key ≤ b.key
  let keys :=
    match merged.horizon with
    | none => keys
    | some horizon => keys.filter fun e => e.key ≤ horizon
  let (keys, cut) := pageOfKeys keys query.limit
  pure
    { keys := keys
      truncated := cut || merged.anyTruncated
      unread := merged.unread.insertionSort fun a b => a.node < b.node ∨ a.node = b.node ∧ a.device ≤ b.device
      complete := merged.unread.length < C.document.k + C.document.m }

end

end Djbod
