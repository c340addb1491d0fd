import UvgTorrent.DataStructures.HashmapAllocation

/-!
# Lookup in a chain

`Bucket_get` compares the key of its own bucket and then asks the lookup of
the next bucket about itself again.  `Hashmap_get_bucket` answers the first
bucket of the slot and compares no key at all.
-/

namespace UvgTorrent

open CProgram CText

variable {α : Type}

/-- The chains that `Bucket_new` starts and `Bucket_set` makes longer. -/
inductive ChainBuilt : Bucket α → Prop
  | new (key : CString) (value : α) : ChainBuilt (bucketNew key value)
  | set {chain : Bucket α} (key : CString) (value : α) :
      ChainBuilt chain → ChainBuilt (bucketSet chain key value)

/-- A bucket of the chain has the key, and this is its value. -/
def Bucket.Holds (key : CString) (value : Option α) : Bucket α → Prop
  | .null => False
  | .node held kept next =>
      (held = some key ∧ kept = value) ∨ next.Holds key value

/-- The first bucket of the chain has the key. -/
def Bucket.FirstKey (key : CString) : Bucket α → Prop
  | .null => False
  | .node held _ _ => held = some key

/-- `Bucket_get` ends with the value of a bucket that has the key, or with
`NULL` when there is none. -/
def SearchesChain (chain : Bucket α) (key : CString) : Prop :=
  ∃ answer, Returns (bucketGet chain key) answer ∧
    (chain.Holds key answer ∨
      answer = none ∧ ∀ value, ¬ chain.Holds key value)

/-- The key is stored in the map. -/
def Hashmap.Stores (map : Hashmap α) (key : CString) : Prop :=
  ∃ slot value, (map.buckets slot).Holds key value

/-- `Hashmap_get_bucket` answers `NULL` for a key that is not stored, and
else the bucket that `Hashmap_get` answers the value of, which can be cleared
without a change for any other key. -/
def BucketAgrees (map : Hashmap α) (key : CString) : Prop :=
  ∃ bucket, hashmapGetBucket map (some key) = .ok bucket ∧
    (¬ map.Stores key → bucket = .null) ∧
    (map.Stores key →
      ∃ value next, bucket = .node (some key) value next ∧
        Returns (hashmapGet map (some key)) value ∧
        ∀ cleared, hashmapClear map key = .ok cleared →
          ∀ other, other ≠ key →
            hashmapGet cleared (some other) = hashmapGet map (some other))

section Chains

variable {chain next : Bucket α} {key held : CString}
  {value kept : Option α}

theorem ChainBuilt.entries (built : ChainBuilt chain) :
    ∃ first rest, chain = Bucket.ofEntries (first :: rest) := by
  induction built with
  | new key value =>
      exact ⟨(key, value), [], rfl⟩
  | set key value _ inductionHypothesis =>
      rcases inductionHypothesis with ⟨first, rest, rfl⟩
      exact ⟨first, rest ++ [(key, value)],
        bucketSet_ofEntries first rest key value⟩

/-- `Bucket_get` searches the chains that begin with the key or end with
their first bucket, and never comes back from any other. -/
theorem bucketGet_searches_iff (built : ChainBuilt chain)
    (key : CString) :
    SearchesChain chain key ↔ chain.FirstKey key ∨ ¬ chain.Chained := by
  rcases built.entries with ⟨⟨held, value⟩, rest, rfl⟩
  by_cases same : held = key
  · subst same
    refine iff_of_true ?_ (.inl rfl)
    exact ⟨some value, ⟨1, bucketGet_first held value rest 0⟩,
      .inl (.inl ⟨rfl, rfl⟩)⟩
  · have notFirst :
        ¬ (Bucket.ofEntries ((held, value) :: rest)).FirstKey key :=
      fun first => same (Option.some.inj first)
    rw [or_iff_right notFirst, chained_ofEntries_iff]
    cases rest with
    | nil =>
        refine iff_of_true ?_ (by simp)
        refine ⟨none, ⟨1, bucketGet_only same value 0⟩, .inr ⟨rfl, ?_⟩⟩
        rintro other (⟨isHeld, _⟩ | further)
        · exact same (Option.some.inj isHeld)
        · exact further
    | cons second rest =>
        refine iff_of_false ?_ (by simp)
        rintro ⟨answer, ⟨depth, returned⟩, _⟩
        rw [bucketGet_unfinished same] at returned
        cases returned

def keyB : CString := ⟨[98], by decide⟩

theorem bucketGet_searches_iff_two :
    SearchesChain (bucketSet (bucketNew keyA valueOne) keyB valueTwo) keyB ↔
      (bucketSet (bucketNew keyA valueOne) keyB valueTwo).FirstKey keyB ∨
        ¬ (bucketSet (bucketNew keyA valueOne) keyB valueTwo).Chained :=
  bucketGet_searches_iff (.set keyB valueTwo (.new keyA valueOne)) keyB

/-- The second of two buckets is not found. -/
theorem bucketGet_misses_second :
    ChainBuilt (bucketSet (bucketNew keyA valueOne) keyB valueTwo) ∧
      (bucketSet (bucketNew keyA valueOne) keyB valueTwo).Holds keyB
        (some valueTwo) ∧
      ¬ SearchesChain
        (bucketSet (bucketNew keyA valueOne) keyB valueTwo) keyB := by
  refine ⟨.set keyB valueTwo (.new keyA valueOne), .inr (.inl ⟨rfl, rfl⟩),
    ?_⟩
  rintro ⟨answer, ⟨depth, returned⟩, _⟩
  have different : keyA ≠ keyB := by decide
  rw [bucketNew_eq, bucketSet_ofEntries, List.singleton_append,
    bucketGet_unfinished different] at returned
  cases returned

theorem holds_slot {slot : Fin maxHashtableKeys}
    (keyed : chain.Keyed slot) (holds : chain.Holds key value) :
    slotOf key = slot := by
  induction chain with
  | null =>
      exact absurd holds id
  | node held kept next inductionHypothesis =>
      rcases keyed with ⟨⟨name, isHeld, inSlot⟩, nextKeyed⟩
      rcases holds with ⟨isKey, _⟩ | further
      · cases isHeld.symm.trans isKey
        exact inSlot
      · exact inductionHypothesis nextKeyed further

/-- The value of a bucket with another key does not matter. -/
theorem bucketGet_other {other : CString} (different : other ≠ key)
    (value kept : Option α) (next : Bucket α) :
    bucketGet (.node (some key) value next) other =
      bucketGet (.node (some key) kept next) other := by
  funext depth
  induction depth with
  | zero =>
      rfl
  | succ depth inductionHypothesis =>
      have notHeld : key ≠ other := Ne.symm different
      cases next with
      | null =>
          simp [bucketGet, notHeld]
      | node nextKey nextValue rest =>
          simp only [bucketGet, if_neg notHeld]
          exact inductionHypothesis

end Chains

section Maps

variable {map cleared : Hashmap α} {key other : CString}

/-- Clearing the first bucket of its slot changes no lookup of another
key. -/
theorem hashmapClear_other {value : Option α} {next : Bucket α}
    (first : map.buckets (slotOf key) = .node (some key) value next)
    (ran : hashmapClear map key = .ok cleared) (different : other ≠ key) :
    hashmapGet cleared (some other) = hashmapGet map (some other) := by
  rcases hashmapClear_cases ran with
    ⟨held, kept, behind, _, bucket, rfl⟩
  cases first.symm.trans bucket
  funext depth
  by_cases otherShort : other.bytes.length < 2 ^ 32
  · rw [hashmapGet_of_short otherShort, hashmapGet_of_short otherShort]
    by_cases same : slotOf other = slotOf key
    · simp only [same, Function.update_self, first, readSlot]
      rw [bucketGet_other different]
    · simp only [Function.update_of_ne same]
  · rw [hashmapGet_long otherShort, hashmapGet_long otherShort]

theorem stores_firstKey {value : Option α} {next : Bucket α}
    (first : map.buckets (slotOf key) = .node (some key) value next) :
    map.Stores key := by
  refine ⟨slotOf key, value, ?_⟩
  rw [first]
  exact .inl ⟨rfl, rfl⟩

/-- The two lookups agree exactly where the slot of the key is empty or
begins with it, whatever stores and clearings the map has seen. -/
theorem hashmapGetBucket_agrees_iff (built : HashmapBuilt map)
    (key : CString) :
    BucketAgrees map key ↔
      key.bytes.length < 2 ^ 32 ∧
        (map.buckets (slotOf key) = .null ∨
          (map.buckets (slotOf key)).FirstKey key) := by
  constructor
  · rintro ⟨bucket, answered, absent, present⟩
    rcases hashmapGetBucket_short answered with ⟨short, isFirst⟩
    refine ⟨short, ?_⟩
    by_cases stored : map.Stores key
    · rcases present stored with ⟨value, next, isBucket, _⟩
      rw [← isFirst, isBucket]
      exact .inr rfl
    · rw [← isFirst]
      exact .inl (absent stored)
  · rintro ⟨short, empty | first⟩
    · have nowhere : ¬ map.Stores key := by
        rintro ⟨slot, value, holds⟩
        rw [← holds_slot (built.keyed slot) holds, empty] at holds
        exact holds
      exact ⟨_, hashmapGetBucket_of_short short, fun _ => empty,
        fun stored => absurd stored nowhere⟩
    · cases chain : map.buckets (slotOf key) with
      | null =>
          rw [chain] at first
          exact absurd first id
      | node held value next =>
          rw [chain] at first
          cases first
          have found : Returns (hashmapGet map (some key)) value := by
            refine ⟨1, ?_⟩
            rw [hashmapGet_of_short short, chain]
            exact bucketGet_found key value next 0
          refine ⟨_, hashmapGetBucket_of_short short,
            fun absent => absurd (stores_firstKey chain) absent,
            fun _ => ⟨value, next, chain, found, ?_⟩⟩
          intro cleared ran other different
          exact hashmapClear_other chain ran different

end Maps

/-- The first bucket that a map is given. -/
theorem storeInSlot_new (key : CString) (value : α) :
    (storeInSlot hashmapNew (slotOf key) key value).buckets (slotOf key) =
      .single key value := by
  have empty : (hashmapNew : Hashmap α).buckets (slotOf key) =
      Bucket.ofEntries [] := rfl
  rw [storeInSlot_buckets empty, Function.update_self]
  rfl

theorem hashmapGetBucket_agrees_iff_once : BucketAgrees mapOnce keyA := by
  refine (hashmapGetBucket_agrees_iff mapOnce_reached.built keyA).mpr
    ⟨by decide, .inr ?_⟩
  rw [mapOnce, storeInSlot_new]
  rfl

/-- Two keys with the hash of one slot. -/
def keyBb : CString := ⟨text "bb", by decide⟩

def keyBq : CString := ⟨text "bq", by decide⟩

theorem slotOf_keyBq : slotOf keyBq = slotOf keyBb := by
  decide

def mapBb : Hashmap (List UInt8) :=
  storeInSlot hashmapNew (slotOf keyBb) keyBb valueOne

theorem mapBb_reached : HashmapReached [(keyBb, valueOne)] mapBb :=
  .set .new (hashmapSet_of_room (by decide) (by decide) valueOne)

/-- The bucket of `bb` is answered for `bq`, which is not stored. -/
theorem hashmapGetBucket_absent_key :
    HashmapBuilt mapBb ∧ ¬ BucketAgrees mapBb keyBq := by
  refine ⟨mapBb_reached.built, ?_⟩
  rintro ⟨bucket, answered, absent, _⟩
  have only : mapBb.buckets (slotOf keyBq) = .single keyBb valueOne := by
    rw [slotOf_keyBq, mapBb, storeInSlot_new]
  have nowhere : ¬ mapBb.Stores keyBq := by
    rintro ⟨slot, value, holds⟩
    have inSlot := holds_slot (mapBb_reached.built.keyed slot) holds
    rw [← inSlot, only] at holds
    rcases holds with ⟨same, _⟩ | further
    · exact absurd (Option.some.inj same) (by decide)
    · exact further
  have isFirst := (hashmapGetBucket_short answered).2
  rw [absent nowhere, only] at isFirst
  cases isFirst

end UvgTorrent
