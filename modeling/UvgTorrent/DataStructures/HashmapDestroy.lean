import Mathlib.Data.List.Nodup
import UvgTorrent.DataStructures.HashmapFill

/-!
# Destroying a hash map

`Hashmap_destroy` as the sequence of its calls of `free`.  A bucket that is
not the first of its chain is released by its own `destroy` and once more by
the bucket in front of it, so nothing is released twice exactly when no chain
has a second bucket.
-/

namespace UvgTorrent

open CProgram CText

/-- What a map gives to `free`: the buckets of a slot, counted from the
front of their chain, what they own, and the map itself. -/
inductive HashmapThing where
  | key (slot : Fin maxHashtableKeys) (place : Nat)
  | value (slot : Fin maxHashtableKeys) (place : Nat)
  | bucket (slot : Fin maxHashtableKeys) (place : Nat)
  | map
  deriving DecidableEq, Repr

variable {α : Type}

/-- The `free` of a pointer that may be `NULL`. -/
def freed (pointer : Option α) (thing : HashmapThing) : List HashmapThing :=
  match pointer with
  | some _ => [thing]
  | none => []

/-- The `free` that follows the `destroy` of the next bucket. -/
def freedAgain (slot : Fin maxHashtableKeys) (place : Nat) :
    Bucket α → List HashmapThing
  | .null => []
  | .node _ _ _ => [.bucket slot place]

/-- `Bucket_destroy`. -/
def bucketDestroy (slot : Fin maxHashtableKeys) :
    Nat → Bucket α → List HashmapThing
  | _, .null => []
  | place, .node key value next =>
      freed key (.key slot place) ++ freed value (.value slot place) ++
        bucketDestroy slot (place + 1) next ++
        freedAgain slot (place + 1) next ++ [.bucket slot place]

/-- `Hashmap_destroy`. -/
def hashmapDestroy (this : Hashmap α) : List HashmapThing :=
  (List.finRange maxHashtableKeys).flatMap
    (fun slot => bucketDestroy slot 0 (this.buckets slot)) ++ [.map]

/-- The allocator stops the program at a block that is released twice. -/
def freeEach (things : List HashmapThing) : Exec Unit :=
  if things.Nodup then .ok () else .error .abort

/-- `bucket->value = NULL` on the bucket of a key. -/
def hashmapClear (this : Hashmap α) (key : CString) : Exec (Hashmap α) := do
  let hash ← hashmapGetHash key.bytes
  match this.buckets (bucketIndex hash) with
  | .null => .error .nullPointer
  | .node held _ next =>
      pure { this with
        buckets := Function.update this.buckets (bucketIndex hash)
          (.node held none next) }

/-- The chain has a second bucket. -/
def Bucket.Chained : Bucket α → Prop
  | .node _ _ (.node _ _ _) => True
  | _ => False

section Releases

variable {slot : Fin maxHashtableKeys} {place : Nat} {thing : HashmapThing}

def HashmapThing.InSlot (slot : Fin maxHashtableKeys) :
    HashmapThing → Prop
  | .key other _ => other = slot
  | .value other _ => other = slot
  | .bucket other _ => other = slot
  | .map => False

theorem mem_freed {β : Type} {pointer : Option β} {owned : HashmapThing}
    (member : thing ∈ freed pointer owned) : thing = owned := by
  cases pointer with
  | none =>
      cases member
  | some value =>
      exact List.mem_singleton.mp member

theorem bucketDestroy_inSlot {bucket : Bucket α}
    (member : thing ∈ bucketDestroy slot place bucket) :
    thing.InSlot slot := by
  induction bucket generalizing place with
  | null =>
      cases member
  | node key value next inductionHypothesis =>
      simp only [bucketDestroy, List.mem_append, List.mem_singleton]
        at member
      rcases member with (((fromKey | fromValue) | further) | again) | own
      · rw [mem_freed fromKey]
        rfl
      · rw [mem_freed fromValue]
        rfl
      · exact inductionHypothesis further
      · cases next with
        | null =>
            cases again
        | node nextKey nextValue rest =>
            rw [freedAgain, List.mem_singleton] at again
            rw [again]
            rfl
      · rw [own]
        rfl

/-- One bucket alone is released part by part; a second one twice. -/
theorem bucketDestroy_nodup_iff (bucket : Bucket α) :
    (bucketDestroy slot place bucket).Nodup ↔ ¬ bucket.Chained := by
  cases bucket with
  | null =>
      simp [bucketDestroy, Bucket.Chained]
  | node key value next =>
      cases next with
      | null =>
          cases key <;> cases value <;>
            simp [bucketDestroy, freed, freedAgain, Bucket.Chained]
      | node nextKey nextValue rest =>
          refine iff_of_false ?_ (fun alone => alone trivial)
          intro nodup
          rw [bucketDestroy, List.append_assoc, List.append_assoc,
            List.append_assoc] at nodup
          have inner := nodup.of_append_right.of_append_right
          rw [← List.append_assoc] at inner
          have apart := List.disjoint_of_nodup_append inner.of_append_left
          refine apart ?_ List.mem_cons_self
          rw [bucketDestroy]
          exact List.mem_append_right _ List.mem_cons_self

theorem hashmapDestroy_nodup_iff (map : Hashmap α) :
    (hashmapDestroy map).Nodup ↔
      ∀ slot, ¬ (map.buckets slot).Chained := by
  have fromSlots : ∀ thing ∈ (List.finRange maxHashtableKeys).flatMap
      (fun slot => bucketDestroy slot 0 (map.buckets slot)),
        thing ≠ .map := by
    intro thing member same
    rcases List.mem_flatMap.mp member with ⟨slot, _, among⟩
    have inSlot := bucketDestroy_inSlot among
    rw [same] at inSlot
    exact inSlot
  have disjoint : (List.finRange maxHashtableKeys).Pairwise
      (Function.onFun List.Disjoint
        fun slot => bucketDestroy slot 0 (map.buckets slot)) := by
    apply (List.nodup_finRange maxHashtableKeys).imp
    intro first second different thing inFirst inSecond
    have here := bucketDestroy_inSlot inFirst
    have there := bucketDestroy_inSlot inSecond
    cases thing with
    | key slot place => exact different (here.symm.trans there)
    | value slot place => exact different (here.symm.trans there)
    | bucket slot place => exact different (here.symm.trans there)
    | map => exact here
  have last : List.Disjoint ((List.finRange maxHashtableKeys).flatMap
      (fun slot => bucketDestroy slot 0 (map.buckets slot)))
        [HashmapThing.map] := by
    intro thing member isMap
    exact fromSlots thing member (List.mem_singleton.mp isMap)
  rw [hashmapDestroy, List.nodup_append', List.nodup_flatMap]
  constructor
  · intro both slot
    exact (bucketDestroy_nodup_iff _).mp
      (both.1.1 slot (List.mem_finRange slot))
  · intro alone
    exact ⟨⟨fun slot _ => (bucketDestroy_nodup_iff _).mpr (alone slot),
      disjoint⟩, List.nodup_singleton _, last⟩

theorem chained_ofEntries_iff (entries : List (CString × α)) :
    (Bucket.ofEntries entries).Chained ↔ 2 ≤ entries.length := by
  cases entries with
  | nil =>
      simp [Bucket.ofEntries, Bucket.Chained]
  | cons first rest =>
      cases rest with
      | nil =>
          simp [Bucket.ofEntries, Bucket.Chained]
      | cons second others =>
          simp [Bucket.ofEntries, Bucket.Chained]

/-- Nothing is released twice exactly when no two keys share a slot. -/
theorem unchained_iff_nodup {kept : List (CString × α)} {map : Hashmap α}
    (holds : ChainsHold kept map) :
    (∀ slot, ¬ (map.buckets slot).Chained) ↔ (slots kept).Nodup := by
  rw [List.nodup_iff_count_le_one]
  apply forall_congr'
  intro slot
  have size : (slots kept).count slot =
      (kept.filter fun entry => slotOf entry.1 = slot).length := by
    rw [slots, List.count_eq_countP, List.countP_map,
      List.countP_eq_length_filter]
    apply congrArg List.length
    apply List.filter_congr
    intro entry _
    rw [Function.comp_apply, beq_eq_decide]
  rw [holds slot, chained_ofEntries_iff, size]
  omega

theorem hashmapClear_of_short {this : Hashmap α} {key : CString}
    (short : key.bytes.length < 2 ^ 32) {held : Option CString}
    {value : Option α} {next : Bucket α}
    (first : this.buckets (slotOf key) = .node held value next) :
    hashmapClear this key = .ok { this with
      buckets := Function.update this.buckets (slotOf key)
        (.node held none next) } := by
  have isSlot : bucketIndex (hashValue key.bytes) = slotOf key := rfl
  rw [hashmapClear, hashmapGetHash, if_pos short, ok_bind, isSlot]
  simp only [first]
  rfl

/-- What is cleared is the first bucket of the slot. -/
theorem hashmapClear_cases {this cleared : Hashmap α} {key : CString}
    (ran : hashmapClear this key = .ok cleared) :
    ∃ held value next, key.bytes.length < 2 ^ 32 ∧
      this.buckets (slotOf key) = .node held value next ∧
      cleared = { this with
        buckets := Function.update this.buckets (slotOf key)
          (.node held none next) } := by
  by_cases short : key.bytes.length < 2 ^ 32
  · cases first : this.buckets (slotOf key) with
    | null =>
        have isSlot : bucketIndex (hashValue key.bytes) = slotOf key := rfl
        rw [hashmapClear, hashmapGetHash, if_pos short, ok_bind, isSlot]
          at ran
        simp only [first] at ran
        cases ran
    | node held value next =>
        cases ran.symm.trans (hashmapClear_of_short short first)
        exact ⟨held, value, next, short, rfl, rfl⟩
  · rw [hashmapClear, hashmapGetHash, if_neg short] at ran
    cases ran

/-- A bucket that is found is cleared. -/
theorem hashmapClear_of_bucket {this : Hashmap α} {key : CString}
    {held : Option CString} {value : Option α} {next : Bucket α}
    (short : key.bytes.length < 2 ^ 32)
    (found : hashmapGetBucket this (some key) =
      .ok (.node held value next)) :
    ∃ cleared, hashmapClear this key = .ok cleared :=
  ⟨_, hashmapClear_of_short short (hashmapGetBucket_short found).2.symm⟩

/-- And no chain gets longer or shorter. -/
theorem hashmapClear_chained {this cleared : Hashmap α} {key : CString}
    (ran : hashmapClear this key = .ok cleared)
    (slot : Fin maxHashtableKeys) :
    (cleared.buckets slot).Chained ↔ (this.buckets slot).Chained := by
  rcases hashmapClear_cases ran with
    ⟨held, value, next, _, first, rfl⟩
  by_cases same : slot = slotOf key
  · rw [same]
    simp only [Function.update_self]
    rw [first]
    cases next <;> exact Iff.rfl
  · simp only [Function.update_of_ne same]

theorem freeEach_ok_iff {things : List HashmapThing} :
    freeEach things = .ok () ↔ things.Nodup := by
  rw [freeEach]
  split
  · exact iff_of_true rfl (by assumption)
  · rename_i twice
    exact iff_of_false (fun ok => by cases ok) twice

/-- A map whose bucket was cleared is released as it should be exactly when
no two of its keys share a slot. -/
theorem freeEach_cleared_iff {kept : List (CString × α)}
    {map cleared : Hashmap α} {key : CString} (holds : ChainsHold kept map)
    (ran : hashmapClear map key = .ok cleared) :
    freeEach (hashmapDestroy cleared) = .ok () ↔ (slots kept).Nodup := by
  rw [freeEach_ok_iff, hashmapDestroy_nodup_iff,
    ← unchained_iff_nodup holds]
  exact forall_congr' fun slot =>
    not_congr (hashmapClear_chained ran slot)

end Releases

/-! ## Everything once -/

/-- The key and the value of the bucket at a place of a chain. -/
def Bucket.fields : Bucket α → Nat → Option (Option CString × Option α)
  | .null, _ => none
  | .node key value _, 0 => some (key, value)
  | .node _ _ next, place + 1 => next.fields place

/-- Each bucket is released once, as are its key and its value, and the map
is released once, behind everything else. -/
structure ReleasesOnce (map : Hashmap α) : Prop where
  buckets : ∀ slot place key value,
    (map.buckets slot).fields place = some (key, value) →
      (hashmapDestroy map).count (.bucket slot place) = 1 ∧
        (key ≠ none → (hashmapDestroy map).count (.key slot place) = 1) ∧
        (value ≠ none → (hashmapDestroy map).count (.value slot place) = 1)
  last : ∃ before, hashmapDestroy map = before ++ [.map] ∧
    HashmapThing.map ∉ before

section Once

variable {slot : Fin maxHashtableKeys} {base place : Nat}
  {key : Option CString} {value : Option α} {bucket : Bucket α}
  {map : Hashmap α}

theorem freed_mem {β : Type} {pointer : Option β} (owned : HashmapThing)
    (present : pointer ≠ none) : owned ∈ freed pointer owned := by
  cases pointer with
  | none =>
      exact absurd rfl present
  | some value =>
      exact List.mem_cons_self

/-- Whatever a bucket owns is released with its chain. -/
theorem mem_bucketDestroy
    (there : bucket.fields place = some (key, value)) :
    .bucket slot (base + place) ∈ bucketDestroy slot base bucket ∧
      (key ≠ none →
        .key slot (base + place) ∈ bucketDestroy slot base bucket) ∧
      (value ≠ none →
        .value slot (base + place) ∈ bucketDestroy slot base bucket) := by
  induction bucket generalizing base place with
  | null =>
      cases there
  | node held kept next inductionHypothesis =>
      simp only [bucketDestroy, List.mem_append]
      cases place with
      | zero =>
          cases there
          exact ⟨.inr List.mem_cons_self,
            fun present => .inl (.inl (.inl (.inl (freed_mem _ present)))),
            fun present => .inl (.inl (.inl (.inr (freed_mem _ present))))⟩
      | succ place =>
          have further := @inductionHypothesis (base + 1) place there
          rw [Nat.add_assoc, Nat.add_comm 1 place] at further
          exact ⟨.inl (.inl (.inr further.1)),
            fun present => .inl (.inl (.inr (further.2.1 present))),
            fun present => .inl (.inl (.inr (further.2.2 present)))⟩

theorem mem_hashmapDestroy {thing : HashmapThing}
    (member : thing ∈ bucketDestroy slot 0 (map.buckets slot)) :
    thing ∈ hashmapDestroy map :=
  List.mem_append_left _
    (List.mem_flatMap.mpr ⟨slot, List.mem_finRange slot, member⟩)

/-- The second bucket of a chain is given to `free` twice. -/
theorem bucketDestroy_twice (chained : bucket.Chained) :
    2 ≤ (bucketDestroy slot 0 bucket).count (.bucket slot 1) := by
  cases bucket with
  | null =>
      exact absurd chained id
  | node key value next =>
      cases next with
      | null =>
          exact absurd chained id
      | node nextKey nextValue rest =>
          -- once by its own `destroy`, once behind it
          have own : .bucket slot 1 ∈ bucketDestroy slot (0 + 1)
              (.node nextKey nextValue rest) :=
            (@mem_bucketDestroy α slot 1 0 nextKey nextValue
              (.node nextKey nextValue rest) rfl).1
          have inner := List.count_pos_iff.mpr own
          have again : (freedAgain slot 1
              (.node nextKey nextValue rest)).count (.bucket slot 1) = 1 :=
            List.count_singleton_self
          rw [bucketDestroy, List.count_append, List.count_append,
            List.count_append, again]
          omega

theorem bucketDestroy_sublist (map : Hashmap α)
    (slot : Fin maxHashtableKeys) :
    List.Sublist (bucketDestroy slot 0 (map.buckets slot))
      (hashmapDestroy map) := by
  have among := List.sublist_flatten_of_mem (List.mem_map_of_mem
    (f := fun slot => bucketDestroy slot 0 (map.buckets slot))
    (List.mem_finRange slot))
  rw [hashmapDestroy, List.flatMap_def]
  exact among.trans (List.sublist_append_left _ _)

theorem Bucket.Chained.second (chained : bucket.Chained) :
    ∃ key value, bucket.fields 1 = some (key, value) := by
  cases bucket with
  | null =>
      exact absurd chained id
  | node key value next =>
      cases next with
      | null =>
          exact absurd chained id
      | node nextKey nextValue rest =>
          exact ⟨nextKey, nextValue, rfl⟩

theorem ReleasesOnce.alone (once : ReleasesOnce map)
    (slot : Fin maxHashtableKeys) : ¬ (map.buckets slot).Chained := by
  intro chained
  have twice := @bucketDestroy_twice α slot _ chained
  have whole := (bucketDestroy_sublist map slot).count_le (.bucket slot 1)
  rcases chained.second with ⟨key, value, there⟩
  have single := (once.buckets slot 1 key value there).1
  omega

/-- A map releases everything once exactly when none of its chains has a
second bucket. -/
theorem hashmapDestroy_once_iff (map : Hashmap α) :
    ReleasesOnce map ↔ ∀ slot, ¬ (map.buckets slot).Chained := by
  constructor
  · intro once
    exact once.alone
  · intro alone
    have nodup := (hashmapDestroy_nodup_iff map).mpr alone
    refine ⟨?_, ?_⟩
    · intro slot place key value there
      have members := @mem_bucketDestroy α slot 0 place key value _ there
      rw [Nat.zero_add] at members
      exact ⟨List.count_eq_one_of_mem nodup (mem_hashmapDestroy members.1),
        fun present => List.count_eq_one_of_mem nodup
          (mem_hashmapDestroy (members.2.1 present)),
        fun present => List.count_eq_one_of_mem nodup
          (mem_hashmapDestroy (members.2.2 present))⟩
    · refine ⟨_, rfl, ?_⟩
      rw [hashmapDestroy] at nodup
      intro early
      exact List.disjoint_of_nodup_append nodup early List.mem_cons_self

end Once

/-- Two stores of one key give a map whose second bucket is released
twice. -/
theorem mapTwice_releases :
    HashmapReached [(keyA, valueOne), (keyA, valueTwo)] mapTwice ∧
      ¬ ReleasesOnce mapTwice := by
  refine ⟨mapTwice_reached, fun once => ?_⟩
  have held := chainsHold_of_reached mapTwice_reached (slotOf keyA)
  have writes : [(keyA, valueOne), (keyA, valueTwo)].filter
      (fun entry => slotOf entry.1 = slotOf keyA) =
        [(keyA, valueOne), (keyA, valueTwo)] := by
    simp
  rw [writes] at held
  refine once.alone (slotOf keyA) ?_
  rw [held, chained_ofEntries_iff]
  decide

end UvgTorrent
