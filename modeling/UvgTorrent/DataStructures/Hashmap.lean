import UvgTorrent.DataStructures.Bucket

/-!
# The hash map

The slot array is a function on the slot numbers, the stored objects are of
any type, and the key of a slot chain is compared by `strcmp`, that is as a
`CString`.
-/

namespace UvgTorrent

open CProgram CText

/-- `_MAX_HASHTABLE_KEYS`. -/
def maxHashtableKeys : Nat := 10000

structure Hashmap (α : Type) where
  bucketCount : Nat
  buckets : Fin maxHashtableKeys → Bucket α

variable {α : Type}

def hashmapNew : Hashmap α where
  bucketCount := 0
  buckets := fun _ => .null

/-- A `char` is signed, and is widened with its sign. -/
def widenChar (byte : UInt8) : UInt32 :=
  byte.toInt8.toInt32.toUInt32

def hashRound (hash : UInt32) (byte : UInt8) : UInt32 :=
  let added := hash + widenChar byte
  let shifted := added + (added <<< 10)
  shifted ^^^ (shifted >>> 6)

/-- The hash of a key whose loop counter does not wrap. -/
def hashValue (key : List UInt8) : UInt32 :=
  let hash := key.foldl hashRound 0
  let shifted := hash + (hash <<< 3)
  let mixed := shifted ^^^ (shifted >>> 11)
  mixed + (mixed <<< 15)

/-- `Hashmap_get_hash`.  The counter is a `uint32_t` and never reaches a
length of `2 ^ 32` or more. -/
def hashmapGetHash (key : List UInt8) : Exec UInt32 :=
  if key.length < 2 ^ 32 then
    .ok (hashValue key)
  else
    .error .unfinished

def bucketIndex (hash : UInt32) : Fin maxHashtableKeys :=
  ⟨hash.toNat % maxHashtableKeys, Nat.mod_lt _ (by decide)⟩

def slotOf (key : CString) : Fin maxHashtableKeys :=
  bucketIndex (hashValue key.bytes)

/-- The branch of `Hashmap_set` that has found its slot. -/
def storeInSlot (this : Hashmap α) (index : Fin maxHashtableKeys)
    (key : CString) (value : α) : Hashmap α :=
  match this.buckets index with
  | .null => {
      bucketCount := this.bucketCount + 1
      buckets :=
        Function.update this.buckets index (bucketNew key value) }
  | .node heldKey heldValue next => {
      bucketCount := this.bucketCount
      buckets := Function.update this.buckets index
        (bucketSet (.node heldKey heldValue next) key value) }

/-- `Hashmap_set`; `none` is a `NULL` argument. -/
def hashmapSet (this : Hashmap α) :
    Option CString → Option α → Exec (ExitCode × Hashmap α)
  | some key, some value =>
      if this.bucketCount < maxHashtableKeys then do
        let hash ← hashmapGetHash key.bytes
        pure (.success, storeInSlot this (bucketIndex hash) key value)
      else
        pure (.failure, this)
  | _, _ => pure (.failure, this)

/-- The branch of `Hashmap_get` that has found its slot. -/
def readSlot (slot : Bucket α) (key : CString) (depth : Nat) :
    Exec (Option α) :=
  match slot with
  | .null => pure none
  | .node heldKey heldValue next =>
      bucketGet (.node heldKey heldValue next) key depth

/-- `Hashmap_get`, with at most `depth` nested calls of `Bucket_get`. -/
def hashmapGet (this : Hashmap α) :
    Option CString → Nat → Exec (Option α)
  | none, _ => pure none
  | some key, depth => do
      let hash ← hashmapGetHash key.bytes
      readSlot (this.buckets (bucketIndex hash)) key depth

/-- `Hashmap_get_bucket`: the first bucket of the slot. -/
def hashmapGetBucket (this : Hashmap α) :
    Option CString → Exec (Bucket α)
  | none => pure .null
  | some key => do
      let hash ← hashmapGetHash key.bytes
      pure (this.buckets (bucketIndex hash))

theorem hashmapSet_of_room
    {this : Hashmap α} {key : CString}
    (room : this.bucketCount < maxHashtableKeys)
    (short : key.bytes.length < 2 ^ 32) (value : α) :
    hashmapSet this (some key) (some value) =
      .ok (.success, storeInSlot this (slotOf key) key value) := by
  simp only [hashmapSet, if_pos room, hashmapGetHash, if_pos short, ok_bind]
  rfl

theorem hashmapSet_success
    {before after : Hashmap α} {key : CString} {value : α}
    (stored :
      hashmapSet before (some key) (some value) = .ok (.success, after)) :
    before.bucketCount < maxHashtableKeys ∧
      key.bytes.length < 2 ^ 32 ∧
      after = storeInSlot before (slotOf key) key value := by
  by_cases room : before.bucketCount < maxHashtableKeys
  · by_cases short : key.bytes.length < 2 ^ 32
    · rw [hashmapSet_of_room room short] at stored
      cases stored
      exact ⟨room, short, rfl⟩
    · rw [hashmapSet, if_pos room, hashmapGetHash, if_neg short] at stored
      cases stored
  · rw [hashmapSet, if_neg room] at stored
    cases stored

theorem storeInSlot_buckets
    {this : Hashmap α} {index : Fin maxHashtableKeys}
    {entries : List (CString × α)}
    (held : this.buckets index = Bucket.ofEntries entries)
    (key : CString) (value : α) :
    (storeInSlot this index key value).buckets =
      Function.update this.buckets index
        (Bucket.ofEntries (entries ++ [(key, value)])) := by
  unfold storeInSlot
  rw [held]
  cases entries with
  | nil =>
      rfl
  | cons first rest =>
      rw [← bucketSet_ofEntries]
      rfl

theorem hashmapGet_of_short
    {map : Hashmap α} {key : CString}
    (short : key.bytes.length < 2 ^ 32) (depth : Nat) :
    hashmapGet map (some key) depth =
      readSlot (map.buckets (slotOf key)) key depth := by
  simp only [hashmapGet, hashmapGetHash, if_pos short, ok_bind]
  rfl

theorem hashmapGet_long
    {map : Hashmap α} {key : CString}
    (long : ¬ key.bytes.length < 2 ^ 32) (depth : Nat) :
    hashmapGet map (some key) depth = .error .unfinished := by
  simp only [hashmapGet, hashmapGetHash, if_neg long, error_bind]

/-- A value that is found is in the first bucket of the slot. -/
theorem hashmapGet_some_iff {map : Hashmap α} {key : CString} {value : α}
    {depth : Nat} (short : key.bytes.length < 2 ^ 32) :
    hashmapGet map (some key) depth = .ok (some value) ↔
      0 < depth ∧ ∃ next,
        map.buckets (slotOf key) = .node (some key) (some value) next := by
  rw [hashmapGet_of_short short]
  constructor
  · intro found
    cases first : map.buckets (slotOf key) with
    | null =>
        rw [first] at found
        cases found
    | node held kept next =>
        rw [first] at found
        exact bucketGet_some found
  · rintro ⟨positive, next, first⟩
    rw [first, ← Nat.succ_pred_eq_of_pos positive]
    exact bucketGet_found key (some value) next _

theorem hashmapGetBucket_of_short {map : Hashmap α} {key : CString}
    (short : key.bytes.length < 2 ^ 32) :
    hashmapGetBucket map (some key) = .ok (map.buckets (slotOf key)) := by
  rw [hashmapGetBucket, hashmapGetHash, if_pos short, ok_bind]
  rfl

theorem hashmapGetBucket_short {map : Hashmap α} {key : CString}
    {bucket : Bucket α}
    (answered : hashmapGetBucket map (some key) = .ok bucket) :
    key.bytes.length < 2 ^ 32 ∧ bucket = map.buckets (slotOf key) := by
  by_cases short : key.bytes.length < 2 ^ 32
  · rw [hashmapGetBucket_of_short short] at answered
    exact ⟨short, (Except.ok.inj answered).symm⟩
  · rw [hashmapGetBucket, hashmapGetHash, if_neg short] at answered
    cases answered

theorem hashmapGet_new
    {key : CString} (short : key.bytes.length < 2 ^ 32) (depth : Nat) :
    hashmapGet (hashmapNew : Hashmap α) (some key) depth = .ok none :=
  hashmapGet_of_short short depth

end UvgTorrent
