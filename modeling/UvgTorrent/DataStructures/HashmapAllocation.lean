import UvgTorrent.DataStructures.HashmapDestroy
import UvgTorrent.Library.Allocation

/-!
# A hash map whose allocations may fail

`Bucket_new` asks for three blocks and answers `NULL` when one of them is
refused.  Neither `Bucket_set` nor `Hashmap_set` looks at its answer.
-/

namespace UvgTorrent

open CProgram CText Allocation

variable {α : Type}

/-! ## Stores that may fail -/

/-- Whether the next block is allocated. -/
def allocate : Prog (Stream' Bool) Bool := do
  let grants ← getState
  setState grants.tail
  pure grants.head

/-- The branch of `Bucket_set` for a bucket without a key. -/
def bucketFill (next : Bucket α) (key : CString) (value : α) :
    Prog (Stream' Bool) (ExitCode × Bucket α) := do
  match ← allocate with
  | true =>
      match ← allocate with
      | true => pure (.success, .node (some key) (some value) next)
      | false => pure (.failure, .node (some key) none next)
  | false => pure (.failure, .node none none next)

/-- `Bucket_new`. -/
def bucketNewIn (key : CString) (value : α) :
    Prog (Stream' Bool) (Bucket α) := do
  match ← allocate with
  | true =>
      match ← bucketFill .null key value with
      | (.success, bucket) => pure bucket
      | (.failure, _) => pure .null
  | false => pure .null

/-- `Bucket_set`. -/
def bucketSetIn : Bucket α → CString → α →
    Prog (Stream' Bool) (ExitCode × Bucket α)
  | .null, _, _ => liftExec (.error .nullPointer)
  | .node none _ next, key, value => bucketFill next key value
  | .node (some held) kept .null, key, value => do
      -- the bucket that was not allocated is linked like any other
      let next ← bucketNewIn key value
      pure (.success, .node (some held) kept next)
  | .node (some held) kept (.node nextKey nextValue nextNext), key,
      value => do
      let (code, next) ←
        bucketSetIn (.node nextKey nextValue nextNext) key value
      pure (code, .node (some held) kept next)

/-- The branch of `Hashmap_set` that has found its slot. -/
def storeInSlotIn (this : Hashmap α) (index : Fin maxHashtableKeys)
    (key : CString) (value : α) :
    Prog (Stream' Bool) (ExitCode × Hashmap α) :=
  match this.buckets index with
  | .null => do
      let bucket ← bucketNewIn key value
      pure (.success, {
        bucketCount := this.bucketCount + 1
        buckets := Function.update this.buckets index bucket })
  | .node heldKey heldValue next => do
      let (_, bucket) ←
        bucketSetIn (.node heldKey heldValue next) key value
      pure (.success, {
        bucketCount := this.bucketCount
        buckets := Function.update this.buckets index bucket })

/-- `Hashmap_set`; `none` is a `NULL` argument. -/
def hashmapSetIn (this : Hashmap α) : Option CString → Option α →
    Prog (Stream' Bool) (ExitCode × Hashmap α)
  | some key, some value =>
      if this.bucketCount < maxHashtableKeys then do
        let hash ← liftExec (hashmapGetHash key.bytes)
        storeInSlotIn this (bucketIndex hash) key value
      else
        pure (.failure, this)
  | _, _ => pure (.failure, this)

/-- The maps that stores and clearings reach, whatever allocations fail. -/
inductive HashmapBuilt : Hashmap α → Prop
  | new : HashmapBuilt hashmapNew
  | set {before after : Hashmap α} {key : Option CString}
      {value : Option α} {code : ExitCode} {grants rest : Stream' Bool} :
      HashmapBuilt before →
      (hashmapSetIn before key value).from grants =
        (.ok (code, after), rest) →
      HashmapBuilt after
  | clear {before after : Hashmap α} {key : CString} :
      HashmapBuilt before → hashmapClear before key = .ok after →
      HashmapBuilt after

/-! ## Chains -/

/-- Every bucket of the chain has a key of the slot. -/
def Bucket.Keyed (slot : Fin maxHashtableKeys) : Bucket α → Prop
  | .null => True
  | .node key _ next =>
      (∃ held, key = some held ∧ slotOf held = slot) ∧ next.Keyed slot

/-- One chain behind another. -/
def Bucket.append : Bucket α → Bucket α → Bucket α
  | .null, tail => tail
  | .node key value next, tail => .node key value (next.append tail)

/-- A bucket of its own. -/
def Bucket.single (key : CString) (value : α) : Bucket α :=
  .node (some key) (some value) .null

/-- What `Bucket_new` answers, its blocks being allocated or not. -/
def freshBucket (grants : Stream' Bool) (key : CString) (value : α) :
    Bucket α :=
  if false ∈ attempts 3 grants then .null else .single key value

/-- The map with a chain behind the one of a slot. -/
def chainedMap (this : Hashmap α) (index : Fin maxHashtableKeys)
    (tail : Bucket α) : Hashmap α where
  bucketCount :=
    match this.buckets index with
    | .null => this.bucketCount + 1
    | .node _ _ _ => this.bucketCount
  buckets := Function.update this.buckets index
    ((this.buckets index).append tail)

/-- Every chain has the keys of its slot. -/
def Hashmap.Keyed (this : Hashmap α) : Prop :=
  ∀ slot, (this.buckets slot).Keyed slot

section Stores

variable {slot : Fin maxHashtableKeys} {chain tail : Bucket α}
  {this : Hashmap α} {key : CString} {value : α}
  {grants : Stream' Bool}

theorem allocate_from (grants : Stream' Bool) :
    allocate.from grants = (.ok grants.head, grants.tail) :=
  rfl

theorem Bucket.Keyed.append (keyed : chain.Keyed slot)
    (tailKeyed : tail.Keyed slot) : (chain.append tail).Keyed slot := by
  induction chain with
  | null =>
      exact tailKeyed
  | node key value next inductionHypothesis =>
      exact ⟨keyed.1, inductionHypothesis keyed.2⟩

theorem freshBucket_keyed (grants : Stream' Bool) (key : CString)
    (value : α) : (freshBucket grants key value).Keyed (slotOf key) := by
  rw [freshBucket]
  split
  · exact trivial
  · exact ⟨⟨key, rfl, rfl⟩, trivial⟩

theorem bucketNewIn_from (grants : Stream' Bool) (key : CString)
    (value : α) :
    (bucketNewIn key value).from grants =
      (.ok (freshBucket grants key value),
        grants.drop (attempts 3 grants).length) := by
  cases first : grants.head with
  | false =>
      rw [freshBucket, attempts_refused first, if_pos List.mem_cons_self,
        bucketNewIn, bind_from_ok (allocate_from grants), first]
      rfl
  | true =>
      rw [freshBucket, attempts_granted first, bucketNewIn,
        bind_from_ok (allocate_from grants), first]
      cases second : grants.tail.head with
      | false =>
          rw [attempts_refused second, if_pos (by decide)]
          simp only [bucketFill, bind_from, allocate_from, second]
          rfl
      | true =>
          rw [attempts_granted second]
          cases third : grants.tail.tail.head with
          | false =>
              rw [attempts_refused third, if_pos (by decide)]
              simp only [bucketFill, bind_from, allocate_from, second,
                third]
              rfl
          | true =>
              rw [attempts_granted third, attempts, if_neg (by decide)]
              simp only [bucketFill, bind_from, allocate_from, second,
                third]
              rfl

/-- A set goes to the end of the chain and answers success, whatever has
become of the new bucket. -/
theorem bucketSetIn_from (keyed : chain.Keyed slot)
    (nonempty : chain ≠ .null) (grants : Stream' Bool) (key : CString)
    (value : α) :
    (bucketSetIn chain key value).from grants =
      (.ok (.success, chain.append (freshBucket grants key value)),
        grants.drop (attempts 3 grants).length) := by
  induction chain with
  | null =>
      exact absurd rfl nonempty
  | node held kept next inductionHypothesis =>
      rcases keyed with ⟨⟨name, rfl, _⟩, nextKeyed⟩
      cases next with
      | null =>
          rw [bucketSetIn, bind_from_ok (bucketNewIn_from grants key value)]
          rfl
      | node nextKey nextValue rest =>
          have further := inductionHypothesis nextKeyed
            (fun null => by cases null)
          rw [bucketSetIn, bind_from_ok further]
          rfl

theorem storeInSlotIn_from (keyed : this.Keyed)
    (index : Fin maxHashtableKeys) (grants : Stream' Bool) (key : CString)
    (value : α) :
    (storeInSlotIn this index key value).from grants =
      (.ok (.success,
          chainedMap this index (freshBucket grants key value)),
        grants.drop (attempts 3 grants).length) := by
  have held := keyed index
  rw [storeInSlotIn, chainedMap]
  cases chain : this.buckets index with
  | null =>
      simp only []
      rw [bind_from_ok (bucketNewIn_from grants key value)]
      rfl
  | node heldKey heldValue next =>
      rw [chain] at held
      have stored := bucketSetIn_from held (fun null => by cases null)
        grants key value
      simp only []
      rw [bind_from_ok stored]
      rfl

/-- A store that is not refused answers success, too. -/
theorem hashmapSetIn_from (keyed : this.Keyed)
    (room : this.bucketCount < maxHashtableKeys)
    (short : key.bytes.length < 2 ^ 32) (grants : Stream' Bool)
    (value : α) :
    (hashmapSetIn this (some key) (some value)).from grants =
      (.ok (.success,
          chainedMap this (slotOf key) (freshBucket grants key value)),
        grants.drop (attempts 3 grants).length) := by
  have hashed : (liftExec (hashmapGetHash key.bytes) :
      Prog (Stream' Bool) UInt32).from grants =
        (.ok (hashValue key.bytes), grants) := by
    rw [liftExec_from, hashmapGetHash, if_pos short]
  rw [hashmapSetIn, if_pos room, bind_from_ok hashed]
  exact storeInSlotIn_from keyed (slotOf key) grants key value

theorem chainedMap_keyed (keyed : this.Keyed)
    (tailKeyed : tail.Keyed slot) : (chainedMap this slot tail).Keyed := by
  intro other
  by_cases same : other = slot
  · rw [same, chainedMap]
    simp only [Function.update_self]
    exact (keyed slot).append tailKeyed
  · rw [chainedMap]
    simp only [Function.update_of_ne same]
    exact keyed other

/-- A store that nothing is asked for: an argument is missing or the map is
full. -/
def Refuses (this : Hashmap α) (key : Option CString)
    (value : Option α) : Prop :=
  key = none ∨ value = none ∨ ¬ this.bucketCount < maxHashtableKeys

theorem hashmapSetIn_refused {key : Option CString} {value : Option α}
    (refused : Refuses this key value) (grants : Stream' Bool) :
    (hashmapSetIn this key value).from grants =
      (.ok (.failure, this), grants) := by
  cases key with
  | none =>
      rfl
  | some name =>
      cases value with
      | none =>
          rfl
      | some stored =>
          have full : ¬ this.bucketCount < maxHashtableKeys := by
            rcases refused with missing | missing | full
            · cases missing
            · cases missing
            · exact full
          rw [hashmapSetIn, if_neg full]
          rfl

/-- The hash of a key of `2 ^ 32` bytes is never there. -/
theorem hashmapSetIn_long (room : this.bucketCount < maxHashtableKeys)
    (long : ¬ key.bytes.length < 2 ^ 32) (grants : Stream' Bool)
    (value : α) :
    (hashmapSetIn this (some key) (some value)).from grants =
      (.error .unfinished, grants) := by
  have hashed : (liftExec (hashmapGetHash key.bytes) :
      Prog (Stream' Bool) UInt32).from grants =
        (.error .unfinished, grants) := by
    rw [liftExec_from, hashmapGetHash, if_neg long]
  rw [hashmapSetIn, if_pos room, bind_from_error hashed]

/-- What a store that returns has done. -/
theorem hashmapSetIn_cases (keyed : this.Keyed) {after : Hashmap α}
    {key : Option CString} {value : Option α} {code : ExitCode}
    {rest : Stream' Bool}
    (ran : (hashmapSetIn this key value).from grants =
      (.ok (code, after), rest)) :
    (Refuses this key value ∧ code = .failure ∧ after = this) ∨
      ∃ name stored, key = some name ∧ value = some stored ∧
        this.bucketCount < maxHashtableKeys ∧
        name.bytes.length < 2 ^ 32 ∧ code = .success ∧
        after = chainedMap this (slotOf name)
          (freshBucket grants name stored) := by
  by_cases refused : Refuses this key value
  · cases ran.symm.trans (hashmapSetIn_refused refused grants)
    exact .inl ⟨refused, rfl, rfl⟩
  · rw [Refuses, not_or, not_or, not_not] at refused
    rcases refused with ⟨hasKey, hasValue, room⟩
    rcases Option.ne_none_iff_exists'.mp hasKey with ⟨name, rfl⟩
    rcases Option.ne_none_iff_exists'.mp hasValue with ⟨stored, rfl⟩
    by_cases short : name.bytes.length < 2 ^ 32
    · cases ran.symm.trans
        (hashmapSetIn_from keyed room short grants stored)
      exact .inr ⟨name, stored, rfl, rfl, room, short, rfl, rfl⟩
    · rw [hashmapSetIn_long room short] at ran
      cases ran

theorem hashmapClear_keyed {cleared : Hashmap α} (keyed : this.Keyed)
    (ran : hashmapClear this key = .ok cleared) : cleared.Keyed := by
  rcases hashmapClear_cases ran with
    ⟨held, value, next, _, first, rfl⟩
  have chain := keyed (slotOf key)
  rw [first] at chain
  intro other
  by_cases same : other = slotOf key
  · rw [same]
    simp only [Function.update_self]
    exact chain
  · simp only [Function.update_of_ne same]
    exact keyed other

/-- Every map that is reached keeps the keys of a slot in its chain. -/
theorem HashmapBuilt.keyed (built : HashmapBuilt this) : this.Keyed := by
  induction built with
  | new =>
      exact fun _ => trivial
  | set _ ran inductionHypothesis =>
      rcases hashmapSetIn_cases inductionHypothesis ran with
        ⟨_, _, rfl⟩ | ⟨name, stored, _, _, _, _, _, rfl⟩
      · exact inductionHypothesis
      · exact chainedMap_keyed inductionHypothesis
          (freshBucket_keyed _ name stored)
  | clear _ ran inductionHypothesis =>
      exact hashmapClear_keyed inductionHypothesis ran

/-! ## Every block allocated -/

theorem bucketSet_append (keyed : chain.Keyed slot)
    (nonempty : chain ≠ .null) (key : CString) (value : α) :
    bucketSet chain key value = chain.append (.single key value) := by
  induction chain with
  | null =>
      exact absurd rfl nonempty
  | node held kept next inductionHypothesis =>
      rcases keyed with ⟨⟨name, rfl, _⟩, nextKeyed⟩
      cases next with
      | null =>
          rfl
      | node nextKey nextValue rest =>
          rw [bucketSet, inductionHypothesis nextKeyed
            (fun null => by cases null)]
          rfl

theorem chainedMap_single (keyed : this.Keyed)
    (index : Fin maxHashtableKeys) (key : CString) (value : α) :
    chainedMap this index (.single key value) =
      storeInSlot this index key value := by
  have held := keyed index
  rw [chainedMap, storeInSlot]
  cases chain : this.buckets index with
  | null =>
      rfl
  | node heldKey heldValue next =>
      rw [chain] at held
      simp only []
      rw [bucketSet_append held (fun null => by cases null)]

theorem freshBucket_granted
    (granted : false ∉ attempts 3 grants) (key : CString) (value : α) :
    freshBucket grants key value = .single key value :=
  if_neg granted

/-- A store that is refused no block is the store of `Hashmap_set` on a
machine that always has one. -/
theorem hashmapSetIn_granted (keyed : this.Keyed)
    (granted : ∀ index, grants.get index = true) (key : Option CString)
    (value : Option α) :
    ((hashmapSetIn this key value).from grants).1 =
      hashmapSet this key value := by
  cases key with
  | none =>
      rfl
  | some name =>
      cases value with
      | none =>
          rfl
      | some stored =>
          by_cases room : this.bucketCount < maxHashtableKeys
          · by_cases short : name.bytes.length < 2 ^ 32
            · rw [hashmapSetIn_from keyed room short,
                hashmapSet_of_room room short,
                freshBucket_granted (attempts_all_granted granted),
                chainedMap_single keyed]
            · rw [hashmapSetIn_long room short, hashmapSet, if_pos room,
                hashmapGetHash, if_neg short]
              rfl
          · rw [hashmapSetIn_refused (.inr (.inr room)), hashmapSet,
              if_neg room]
            rfl

/-- The histories of successful stores lead to such maps. -/
theorem HashmapReached.built {history : List (CString × α)}
    (reached : HashmapReached history this) : HashmapBuilt this := by
  induction reached with
  | new =>
      exact .new
  | @set history before after key value reached stored
      inductionHypothesis =>
      have keyed := inductionHypothesis.keyed
      have always : ∀ index, (Stream'.const true).get index = true :=
        fun _ => rfl
      rcases hashmapSet_success stored with ⟨room, short, rfl⟩
      have ran := hashmapSetIn_from keyed room short (Stream'.const true)
        value
      rw [freshBucket_granted (attempts_all_granted always),
        chainedMap_single keyed] at ran
      exact .set inductionHypothesis ran

end Stores

end UvgTorrent
