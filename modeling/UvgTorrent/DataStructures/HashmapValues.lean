import UvgTorrent.DataStructures.HashmapDestroy

/-!
# A map through a function on its values

Nothing that a map does depends on its values, so each of its functions can be
run before the values are read through a function, or behind it.
-/

namespace UvgTorrent

open CProgram CText

variable {α β : Type} {view : α → β}

def Bucket.mapValues (view : α → β) : Bucket α → Bucket β
  | .null => .null
  | .node key value next =>
      .node key (value.map view) (next.mapValues view)

def Hashmap.mapValues (view : α → β) (this : Hashmap α) : Hashmap β where
  bucketCount := this.bucketCount
  buckets := fun slot => (this.buckets slot).mapValues view

end UvgTorrent
