import Mathlib.Algebra.BigOperators.Ring.Finset
import UvgTorrent.DataStructures.HashmapFill
import UvgTorrent.DataStructures.HashmapLookup
import UvgTorrent.Library.Chain
import UvgTorrent.Library.Depth
import UvgTorrent.Library.Heap
import UvgTorrent.Library.MachineInt

/-!
# Hash maps in memory

The buckets lie in memory and are reached through pointers, so that nothing
in the type of a map keeps its chains apart or free of cycles.
-/

namespace UvgTorrent.OnHeap

open CProgram CText MachineInt LinkedChain CHeap

/-- A bucket.  `key` and `value` are the blocks their pointers lead to, and
`none` is `NULL`. -/
structure Bucket where
  key : Option CString
  value : Option (List UInt8)
  next : Option Nat
  deriving DecidableEq

abbrev Memory := Heap Bucket

structure Hashmap where
  bucketCount : Int
  buckets : Fin maxHashtableKeys → Option Nat

/-! ## The functions -/

/-- The branch of `Bucket_set` for a bucket without a key. -/
def bucketFill (this : Option Nat) (key : CString) (value : List UInt8) :
    Prog Memory ExitCode := do
  writeObject this fun bucket => { bucket with key := none, value := none }
  match ← newBlock with
  | true =>
      writeObject this fun bucket => { bucket with key := some key }
      match ← newBlock with
      | true =>
          writeObject this fun bucket =>
            { bucket with value := some (value ++ [0]) }
          pure .success
      | false => pure .failure
  | false => pure .failure

/-- `Bucket_new` with `Bucket_init`; `none` is `NULL`. -/
def bucketNew (key : CString) (value : List UInt8) :
    Prog Memory (Option Nat) := do
  match ← newObject ⟨none, none, none⟩ with
  | some bucket =>
      match ← bucketFill (some bucket) key value with
      | .success => pure (some bucket)
      | .failure =>
          modifyState fun memory => memory.release bucket
          pure none
  | none => pure none

/-- `Bucket_set`, with at most `depth` nested calls. -/
def bucketSet (this : Option Nat) (key : CString) (value : List UInt8) :
    Nat → Prog Memory ExitCode
  | 0 => liftExec (.error .unfinished)
  | depth + 1 => do
      let bucket ← readObject this
      match bucket.key with
      | some _ =>
          match bucket.next with
          | some next => bucketSet (some next) key value depth
          | none =>
              let next ← bucketNew key value
              writeObject this fun bucket => { bucket with next := next }
              pure .success
      | none => bucketFill this key value

/-- `Hashmap_new` with `Hashmap_init`. -/
def hashmapNew : Hashmap where
  bucketCount := 0
  buckets := fun _ => none

/-- The branch of `Hashmap_set` that has found its slot. -/
def storeInSlot (this : Hashmap) (index : Fin maxHashtableKeys)
    (key : CString) (value : List UInt8) (depth : Nat) :
    Prog Memory (ExitCode × Hashmap) :=
  match this.buckets index with
  | some bucket => do
      let _ ← bucketSet (some bucket) key value depth
      pure (.success, this)
  | none => do
      let bucket ← bucketNew key value
      pure (.success, {
        bucketCount := toInt32 (this.bucketCount + 1)
        buckets := Function.update this.buckets index bucket })

/-- `Hashmap_set`; `none` is a `NULL` argument. -/
def hashmapSet (this : Hashmap) : Option CString → Option (List UInt8) →
    Nat → Prog Memory (ExitCode × Hashmap)
  | some key, some value, depth =>
      if this.bucketCount < maxHashtableKeys then do
        let hash ← liftExec (hashmapGetHash key.bytes)
        storeInSlot this (bucketIndex hash) key value depth
      else
        pure (.failure, this)
  | _, _, _ => pure (.failure, this)

/-- The maps that sets reach while every allocation succeeds, with the
entries of the sets that were not refused. -/
inductive HashmapReached :
    List (CString × List UInt8) → Memory → Hashmap → Prop
  | new {memory : Memory} (granting : memory.Granting) :
      HashmapReached [] memory hashmapNew
  | stored {history : List (CString × List UInt8)}
      {memory later : Memory} {map after : Hashmap} {key : CString}
      {value : List UInt8} {depth : Nat} :
      HashmapReached history memory map →
      (hashmapSet map (some key) (some value) depth).from memory =
        (.ok (.success, after), later) →
      HashmapReached (history ++ [(key, value)]) later after
  | refused {history : List (CString × List UInt8)}
      {memory later : Memory} {map after : Hashmap}
      {key : Option CString} {value : Option (List UInt8)} {depth : Nat} :
      HashmapReached history memory map →
      (hashmapSet map key value depth).from memory =
        (.ok (.failure, after), later) →
      HashmapReached history later after

/-! ## What should hold of a map -/

/-- A bucket of a chain: its address, its key and its value. -/
abbrev Cell := Nat × (Option CString × Option (List UInt8))

/-- What a bucket holds, and the next one. -/
def load (memory : Memory) (address : Nat) :
    Option ((Option CString × Option (List UInt8)) × Option Nat) :=
  (memory.object address).map fun bucket =>
    ((bucket.key, bucket.value), bucket.next)

/-- The bucket has a value and a key whose hash leads to the slot. -/
def BelongsTo (index : Fin maxHashtableKeys) (cell : Cell) : Prop :=
  ∃ key value hash, cell.2 = (some key, some value) ∧
    hashmapGetHash key.bytes = .ok hash ∧
    hash.toNat % maxHashtableKeys = index

/-- The representation of a map after a number of successful sets. -/
structure Represents (memory : Memory) (map : Hashmap) (sets : Nat) :
    Prop where
  counts : map.bucketCount =
    (Finset.univ.filter fun index => map.buckets index ≠ none).card
  capacity : map.bucketCount ≤ maxHashtableKeys
  chains : ∃ cells : Fin maxHashtableKeys → List Cell,
    (∀ index, Chain (load memory) (map.buckets index) (cells index) ∧
      ((cells index).map Prod.fst).Nodup ∧
      ∀ cell ∈ cells index, BelongsTo index cell) ∧
    (∑ index, (cells index).length) = sets

/-! ## One bucket -/

section Buckets

variable {memory middle later : Memory} {address : Nat}
  {bucket changed : Bucket} {key : CString} {value : List UInt8}

/-- The memory has changed in one bucket, and allocations go on
succeeding. -/
structure Updates (before : Memory) (address : Nat) (bucket : Bucket)
    (after : Memory) : Prop where
  here : after.object address = some bucket
  kept : ∀ other ≠ address, after.object other = before.object other
  granting : after.Granting

theorem Updates.spend (updates : Updates memory address bucket later) :
    Updates memory address bucket later.spend :=
  ⟨updates.here, updates.kept, updates.granting.spend⟩

theorem Updates.write (updates : Updates memory address bucket later)
    (change : Bucket → Bucket) :
    Updates memory address (change bucket) (later.write address change) := by
  refine ⟨Heap.write_object updates.here change, ?_, updates.granting⟩
  intro other different
  rw [Heap.write_other different]
  exact updates.kept other different

theorem Updates.trans (first : Updates memory address bucket middle)
    (second : Updates middle address changed later) :
    Updates memory address changed later := by
  refine ⟨second.here, fun other different => ?_, second.granting⟩
  rw [second.kept other different, first.kept other different]

theorem bucketFill_from (granting : memory.Granting)
    (present : memory.object address = some bucket) (key : CString)
    (value : List UInt8) :
    ∃ later,
      (bucketFill (some address) key value).from memory =
        (.ok .success, later) ∧
      Updates memory address ⟨some key, some (value ++ [0]), bucket.next⟩
        later := by
  have start : Updates memory address bucket memory :=
    ⟨present, fun _ _ => rfl, granting⟩
  have cleared := start.write fun bucket =>
    { bucket with key := none, value := none }
  have named := cleared.spend.write fun bucket =>
    { bucket with key := some key }
  have filled := named.spend.write fun bucket =>
    { bucket with value := some (value ++ [0]) }
  refine ⟨_, ?_, filled⟩
  rw [bucketFill, bind_from_ok (writeObject_from present _),
    bind_from_ok (newBlock_from cleared.granting)]
  simp only []
  rw [bind_from_ok (writeObject_from cleared.spend.here _),
    bind_from_ok (newBlock_from named.granting)]
  simp only []
  rw [bind_from_ok (writeObject_from named.spend.here _)]
  exact pure_from _ _

/-- A new bucket lies at a fresh address. -/
theorem bucketNew_from (granting : memory.Granting) (key : CString)
    (value : List UInt8) :
    ∃ later,
      (bucketNew key value).from memory =
        (.ok (some memory.fresh), later) ∧
      Updates memory memory.fresh ⟨some key, some (value ++ [0]), none⟩
        later := by
  have placed : Updates memory memory.fresh ⟨none, none, none⟩
      (memory.spend.place ⟨none, none, none⟩) :=
    ⟨memory.spend.place_object _,
      fun other different => Heap.place_other different _, granting.spend⟩
  rcases bucketFill_from placed.granting placed.here key value with
    ⟨later, filled, updates⟩
  refine ⟨later, ?_, placed.trans updates⟩
  rw [bucketNew, bind_from_ok (newObject_from granting _)]
  simp only []
  rw [bind_from_ok filled]
  exact pure_from _ _

end Buckets

/-! ## One chain -/

section Chains

variable {memory later : Memory} {first : Option Nat} {front : List Cell}
  {cells : List Cell} {last : Cell} {key : CString} {value : List UInt8}

/-- What `Bucket_set` does at the last bucket of a chain. -/
def linkNew (last : Nat) (key : CString) (value : List UInt8) :
    Prog Memory ExitCode := do
  let next ← bucketNew key value
  writeObject (some last) fun bucket => { bucket with next := next }
  pure .success

theorem object_of_load {address : Nat} {held : Option CString}
    {kept : Option (List UInt8)} {next : Option Nat}
    (loaded : load memory address = some ((held, kept), next)) :
    memory.object address = some ⟨held, kept, next⟩ := by
  rcases Option.map_eq_some_iff.mp loaded with ⟨bucket, present, same⟩
  rw [present]
  cases same
  rfl

theorem load_of_object {address : Nat} {bucket : Bucket}
    (present : memory.object address = some bucket) :
    load memory address =
      some ((bucket.key, bucket.value), bucket.next) := by
  rw [load, present]
  rfl

/-- The calls go down the chain to its last bucket, as far as they may be
nested. -/
theorem bucketSet_walks
    (chain : Chain (load memory) first (front ++ [last]))
    (keyed : ∀ cell ∈ front ++ [last], cell.2.1 ≠ none) (key : CString)
    (value : List UInt8) (depth : Nat) :
    (bucketSet first key value depth).from memory =
      if front.length < depth then (linkNew last.1 key value).from memory
      else (.error .unfinished, memory) := by
  induction front generalizing first depth with
  | nil =>
      rcases chain with ⟨rfl, next, loaded, ended⟩
      have noNext : next = none := ended
      subst noNext
      rcases Option.ne_none_iff_exists'.mp (keyed last List.mem_cons_self)
        with ⟨held, hasKey⟩
      have present := object_of_load loaded
      cases depth with
      | zero =>
          exact liftExec_from _ _
      | succ depth =>
          have deep : ([] : List Cell).length < depth + 1 :=
            Nat.succ_pos depth
          rw [if_pos deep, bucketSet,
            bind_from_ok (readObject_from present)]
          simp only [hasKey]
          rfl
  | cons cell front inductionHypothesis =>
      rcases chain with ⟨rfl, next, loaded, further⟩
      rcases Option.ne_none_iff_exists'.mp (keyed cell List.mem_cons_self)
        with ⟨held, hasKey⟩
      have present := object_of_load loaded
      have behind := inductionHypothesis further
        fun other member => keyed other (List.mem_cons_of_mem cell member)
      have isNext := further.first_eq
      cases depth with
      | zero =>
          exact liftExec_from _ _
      | succ depth =>
          rw [bucketSet, bind_from_ok (readObject_from present)]
          simp only [hasKey]
          cases next with
          | none =>
              cases front <;> cases isNext
          | some next =>
              simp only [behind depth, List.length_cons,
                Nat.succ_lt_succ_iff]

theorem linkNew_from (granting : memory.Granting) {address : Nat}
    {bucket : Bucket} (present : memory.object address = some bucket)
    (key : CString) (value : List UInt8) :
    ∃ later,
      (linkNew address key value).from memory = (.ok .success, later) ∧
      later.object address =
        some { bucket with next := some memory.fresh } ∧
      later.object memory.fresh =
        some ⟨some key, some (value ++ [0]), none⟩ ∧
      (∀ other, other ≠ address → other ≠ memory.fresh →
        later.object other = memory.object other) ∧
      later.Granting := by
  have old : address ≠ memory.fresh := Nat.ne_of_lt (Heap.lt_fresh present)
  rcases bucketNew_from granting key value with ⟨middle, ran, updates⟩
  have still : middle.object address = some bucket :=
    (updates.kept address old).trans present
  refine ⟨middle.write address fun bucket =>
    { bucket with next := some memory.fresh }, ?_, ?_, ?_, ?_,
    updates.granting⟩
  · rw [linkNew, bind_from_ok ran, bind_from_ok (writeObject_from still _)]
    exact pure_from _ _
  · exact Heap.write_object still _
  · rw [Heap.write_other old.symm]
    exact updates.here
  · intro other notLast notNew
    rw [Heap.write_other notLast]
    exact updates.kept other notNew

/-- The blocks of a stored entry. -/
def held (entry : CString × List UInt8) :
    Option CString × Option (List UInt8) :=
  (some entry.1, some (entry.2 ++ [0]))

/-- The chain from a pointer on holds the entries, first one first. -/
def Holds (memory : Memory) (first : Option Nat)
    (entries : List (CString × List UInt8)) : Prop :=
  ∃ cells, Chain (load memory) first cells ∧
    cells.map Prod.snd = entries.map held

variable {entries : List (CString × List UInt8)}

/-- Every bucket of such a chain has an entry. -/
theorem entry_of_cell (same : cells.map Prod.snd = entries.map held)
    {cell : Cell} (member : cell ∈ cells) :
    ∃ entry ∈ entries, cell.2 = held entry := by
  have among : cell.2 ∈ entries.map held :=
    same ▸ List.mem_map_of_mem member
  rcases List.mem_map.mp among with ⟨entry, present, isHeld⟩
  exact ⟨entry, present, isHeld.symm⟩

theorem Holds.empty_iff (holds : Holds memory first entries) :
    first = none ↔ entries = [] := by
  rcases holds with ⟨cells, chain, same⟩
  have isFirst := chain.first_eq
  cases cells with
  | nil =>
      exact iff_of_true isFirst (List.map_eq_nil_iff.mp same.symm)
  | cons cell rest =>
      refine iff_of_false (fun none => ?_) (fun empty => ?_)
      · rw [none] at isFirst
        cases isFirst
      · rw [empty] at same
        cases same

/-- A chain survives a change elsewhere. -/
theorem Holds.frame (holds : Holds memory first entries)
    (unchanged : ∀ address next, ∀ entry ∈ entries,
      load memory address = some (held entry, next) →
        load later address = load memory address) :
    Holds later first entries := by
  rcases holds with ⟨cells, chain, same⟩
  refine ⟨cells, chain.frame fun cell member => ?_, same⟩
  rcases chain.load_member member with ⟨next, loaded⟩
  rcases entry_of_cell same member with ⟨entry, present, isHeld⟩
  apply unchanged cell.1 next entry present
  rw [← isHeld]
  exact loaded

/-- A new bucket behind the last one.  Nothing else changes but the last
bucket's `next`. -/
theorem Holds.append (holds : Holds memory first entries)
    (nonempty : first ≠ none) (granting : memory.Granting) (key : CString)
    (value : List UInt8) :
    ∃ later last entry next, entry ∈ entries ∧
      load memory last = some (held entry, next) ∧
      (∀ depth, (bucketSet first key value depth).from memory =
        if entries.length ≤ depth then (.ok .success, later)
        else (.error .unfinished, memory)) ∧
      Holds later first (entries ++ [(key, value)]) ∧
      (∀ other, other ≠ last → other ≠ memory.fresh →
        load later other = load memory other) ∧
      later.Granting := by
  have filled : entries ≠ [] := mt holds.empty_iff.mpr nonempty
  rcases holds with ⟨cells, chain, same⟩
  have keyed : ∀ cell ∈ cells, ∃ entry ∈ entries, cell.2 = held entry :=
    fun cell member => entry_of_cell same member
  have length := congrArg List.length same
  rw [List.length_map, List.length_map] at length
  rcases List.eq_nil_or_concat cells with rfl | ⟨front, last, rfl⟩
  · cases entries with
    | nil => exact absurd rfl filled
    | cons entry rest => cases length
  · rw [List.concat_eq_append] at chain keyed same length
    have isLast : last ∈ front ++ [last] :=
      List.mem_append_right _ List.mem_cons_self
    rcases keyed last isLast with ⟨entry, present, isHeld⟩
    rcases chain.load_member isLast with ⟨next, loaded⟩
    rcases linkNew_from granting (object_of_load loaded) key value with
      ⟨later, ran, linked, placed, kept, grants⟩
    have others : ∀ other, other ≠ last.1 → other ≠ memory.fresh →
        load later other = load memory other := by
      intro other notLast notNew
      rw [load, kept other notLast notNew]
      rfl
    refine ⟨later, last.1, entry, next, present, isHeld ▸ loaded, ?_, ?_,
      others, grants⟩
    · intro depth
      have calls := bucketSet_walks chain (fun cell member => by
        rcases keyed cell member with ⟨other, _, isOther⟩
        rw [isOther]
        exact Option.some_ne_none _) key value depth
      rw [ran] at calls
      rw [calls, ← length, List.length_append]
      rfl
    · refine ⟨front ++ [last, (memory.fresh, held (key, value))], ?_, ?_⟩
      · apply chain.snoc (load_of_object linked) (load_of_object placed)
        intro cell member
        have distinct := chain.nodup
        rw [List.map_append, List.nodup_append'] at distinct
        apply others
        · intro again
          apply distinct.2.2 (List.mem_map_of_mem member)
          rw [again]
          exact List.mem_cons_self
        · rcases chain.load_member (List.mem_append_left _ member) with
            ⟨behind, found⟩
          exact Nat.ne_of_lt (Heap.lt_fresh (object_of_load found))
      · rw [List.map_append] at same ⊢
        rw [List.map_append, ← same, List.append_assoc]
        rfl

theorem Holds.new {address : Nat}
    (placed : memory.object address =
      some ⟨some key, some (value ++ [0]), none⟩) :
    Holds memory (some address) [(key, value)] :=
  ⟨[(address, held (key, value))], .cons (load_of_object placed) chain_nil,
    rfl⟩

end Chains

/-! ## The map -/

/-- The entries of a slot, in the order of their sets. -/
def slotEntries (history : List (CString × List UInt8))
    (index : Fin maxHashtableKeys) : List (CString × List UInt8) :=
  history.filter fun entry => slotOf entry.1 = index

/-- Every slot has the chain of its entries, and the slots in use are
counted. -/
structure Keeps (memory : Memory) (map : Hashmap)
    (history : List (CString × List UInt8)) : Prop where
  granting : memory.Granting
  short : ∀ entry ∈ history, entry.1.bytes.length < 2 ^ 32
  count : map.bucketCount = (usedSlots history).card
  holds : ∀ index,
    Holds memory (map.buckets index) (slotEntries history index)

section Maps

variable {memory later : Memory} {map after : Hashmap}
  {history : List (CString × List UInt8)} {key : CString}
  {value : List UInt8} {index : Fin maxHashtableKeys}

theorem slotEntries_same (history : List (CString × List UInt8))
    (key : CString) (value : List UInt8) :
    slotEntries (history ++ [(key, value)]) (slotOf key) =
      slotEntries history (slotOf key) ++ [(key, value)] := by
  simp [slotEntries]

theorem slotEntries_other (different : index ≠ slotOf key) :
    slotEntries (history ++ [(key, value)]) index =
      slotEntries history index := by
  simp [slotEntries, different.symm]

theorem slotOf_entry {entry : CString × List UInt8}
    (member : entry ∈ slotEntries history index) : slotOf entry.1 = index :=
  of_decide_eq_true (List.mem_filter.mp member).2

theorem Keeps.used_iff (keeps : Keeps memory map history)
    (index : Fin maxHashtableKeys) :
    index ∈ usedSlots history ↔ map.buckets index ≠ none := by
  rw [Ne, (keeps.holds index).empty_iff, slotEntries,
    List.filter_eq_nil_iff, usedSlots, List.mem_toFinset, slots,
    List.mem_map]
  simp

theorem usedSlots_card_le (history : List (CString × List UInt8)) :
    (usedSlots history).card ≤ maxHashtableKeys := by
  have bound := Finset.card_le_univ (usedSlots history)
  rwa [Fintype.card_fin] at bound

theorem keeps_new (granting : memory.Granting) :
    Keeps memory hashmapNew [] :=
  ⟨granting, fun _ member => absurd member List.not_mem_nil, rfl,
    fun _ => ⟨[], chain_nil, rfl⟩⟩

/-- The chains of the other slots keep clear of a bucket of this one. -/
theorem Keeps.others (keeps : Keeps memory map history)
    (different : index ≠ slotOf key) {last : Nat}
    {entry : CString × List UInt8} {next : Option Nat}
    (member : entry ∈ slotEntries history (slotOf key))
    (loaded : load memory last = some (held entry, next))
    (kept : ∀ other, other ≠ last → other ≠ memory.fresh →
      load later other = load memory other) :
    Holds later (map.buckets index) (slotEntries history index) := by
  apply (keeps.holds index).frame
  intro address behind other among found
  apply kept
  · intro same
    rw [same, loaded] at found
    injection found with found
    injection found with sameHeld
    injection sameHeld with sameKey
    injection sameKey with sameKey
    apply different
    rw [← slotOf_entry among, ← sameKey]
    exact slotOf_entry member
  · exact Nat.ne_of_lt (Heap.lt_fresh (object_of_load found))

theorem Keeps.short_snoc (keeps : Keeps memory map history)
    (short : key.bytes.length < 2 ^ 32) (value : List UInt8) :
    ∀ entry ∈ history ++ [(key, value)],
      entry.1.bytes.length < 2 ^ 32 := by
  intro entry among
  rcases List.mem_append.mp among with earlier | new
  · exact keeps.short entry earlier
  · rw [List.mem_singleton.mp new]
    exact short

theorem Keeps.store_used (keeps : Keeps memory map history)
    (short : key.bytes.length < 2 ^ 32)
    (used : map.buckets (slotOf key) ≠ none) (value : List UInt8) :
    ∃ enough later, Keeps later map (history ++ [(key, value)]) ∧
      ∀ depth, (storeInSlot map (slotOf key) key value depth).from memory =
        if enough ≤ depth then (.ok (.success, map), later)
        else (.error .unfinished, memory) := by
  rcases (keeps.holds (slotOf key)).append used keeps.granting key value with
    ⟨later, last, entry, next, member, loaded, calls, longer, kept,
      granting⟩
  refine ⟨(slotEntries history (slotOf key)).length, later,
    ⟨granting, keeps.short_snoc short value, ?_, ?_⟩, fun depth => ?_⟩
  · rw [usedSlots_snoc,
      Finset.insert_eq_of_mem ((keeps.used_iff _).mpr used)]
    exact keeps.count
  · intro index
    by_cases same : index = slotOf key
    · rw [same, slotEntries_same]
      exact longer
    · rw [slotEntries_other same]
      exact keeps.others same member loaded kept
  · rcases Option.ne_none_iff_exists'.mp used with ⟨bucket, isBucket⟩
    have called := calls depth
    rw [isBucket] at called
    simp only [storeInSlot, isBucket]
    by_cases deep :
        (slotEntries history (slotOf key)).length ≤ depth
    · rw [if_pos deep] at called ⊢
      rw [bind_from_ok called]
      exact pure_from _ _
    · rw [if_neg deep] at called ⊢
      exact bind_from_error called _

theorem Keeps.store_unused (keeps : Keeps memory map history)
    (short : key.bytes.length < 2 ^ 32)
    (unused : map.buckets (slotOf key) = none) (value : List UInt8) :
    ∃ later after, Keeps later after (history ++ [(key, value)]) ∧
      ∀ depth, (storeInSlot map (slotOf key) key value depth).from memory =
        (.ok (.success, after), later) := by
  rcases bucketNew_from keeps.granting key value with
    ⟨later, ran, updates⟩
  have empty := (keeps.holds (slotOf key)).empty_iff.mp unused
  have bound := usedSlots_card_le history
  refine ⟨later, {
      bucketCount := toInt32 (map.bucketCount + 1)
      buckets := Function.update map.buckets (slotOf key)
        (some memory.fresh) },
    ⟨updates.granting, keeps.short_snoc short value, ?_, ?_⟩,
    fun depth => ?_⟩
  · have fits : (maxHashtableKeys : Int) < 2 ^ 31 - 1 := by
      decide
    rw [usedSlots_snoc, Finset.card_insert_of_notMem
      (fun used => (keeps.used_iff _).mp used unused), keeps.count,
      toInt32_of_range (by omega) (by omega)]
    exact (Nat.cast_succ _).symm
  · intro index
    by_cases same : index = slotOf key
    · rw [same, slotEntries_same, empty, List.nil_append]
      simp only [Function.update_self]
      exact .new updates.here
    · rw [slotEntries_other same]
      simp only [Function.update_of_ne same]
      apply (keeps.holds index).frame
      intro address next entry member loaded
      rw [load, updates.kept address
        (Nat.ne_of_lt (Heap.lt_fresh (object_of_load loaded)))]
      rfl
  · simp only [storeInSlot, unused]
    rw [bind_from_ok ran]
    exact pure_from _ _

theorem hash_from (short : key.bytes.length < 2 ^ 32) (memory : Memory) :
    (liftExec (hashmapGetHash key.bytes) : Prog Memory UInt32).from memory =
      (.ok (hashValue key.bytes), memory) := by
  rw [liftExec_from, hashmapGetHash, if_pos short]

/-- A set that is not refused returns from some depth on and keeps its
entry. -/
theorem Keeps.set (keeps : Keeps memory map history)
    (room : map.bucketCount < maxHashtableKeys)
    (short : key.bytes.length < 2 ^ 32) (value : List UInt8) :
    ∃ enough later after, Keeps later after (history ++ [(key, value)]) ∧
      ∀ depth,
        (hashmapSet map (some key) (some value) depth).from memory =
          if enough ≤ depth then (.ok (.success, after), later)
          else (.error .unfinished, memory) := by
  by_cases unused : map.buckets (slotOf key) = none
  · rcases keeps.store_unused short unused value with
      ⟨later, after, kept, stores⟩
    refine ⟨0, later, after, kept, fun depth => ?_⟩
    rw [hashmapSet, if_pos room, bind_from_ok (hash_from short memory),
      if_pos (Nat.zero_le depth)]
    exact stores depth
  · rcases keeps.store_used short unused value with
      ⟨enough, later, kept, stores⟩
    refine ⟨enough, later, map, kept, fun depth => ?_⟩
    rw [hashmapSet, if_pos room, bind_from_ok (hash_from short memory)]
    exact stores depth

theorem hashmapSet_long (room : map.bucketCount < maxHashtableKeys)
    (long : ¬ key.bytes.length < 2 ^ 32) (value : List UInt8)
    (depth : Nat) :
    (hashmapSet map (some key) (some value) depth).from memory =
      (.error .unfinished, memory) := by
  have hashed : (liftExec (hashmapGetHash key.bytes) :
      Prog Memory UInt32).from memory = (.error .unfinished, memory) := by
    rw [liftExec_from, hashmapGetHash, if_neg long]
  rw [hashmapSet, if_pos room, bind_from_error hashed]

/-- What a set that returns has done. -/
theorem Keeps.set_cases (keeps : Keeps memory map history)
    {key : Option CString} {value : Option (List UInt8)} {depth : Nat}
    {code : ExitCode}
    (ran : (hashmapSet map key value depth).from memory =
      (.ok (code, after), later)) :
    (code = .failure ∧ after = map ∧ later = memory) ∨
      ∃ name stored, key = some name ∧ value = some stored ∧
        code = .success ∧ map.bucketCount < maxHashtableKeys ∧
        name.bytes.length < 2 ^ 32 ∧
        Keeps later after (history ++ [(name, stored)]) := by
  cases key with
  | none =>
      cases ran
      exact .inl ⟨rfl, rfl, rfl⟩
  | some name =>
      cases value with
      | none =>
          cases ran
          exact .inl ⟨rfl, rfl, rfl⟩
      | some stored =>
          by_cases room : map.bucketCount < maxHashtableKeys
          · right
            by_cases short : name.bytes.length < 2 ^ 32
            · rcases keeps.set room short stored with
                ⟨enough, found, changed, kept, calls⟩
              rw [calls depth] at ran
              by_cases deep : enough ≤ depth
              · rw [if_pos deep] at ran
                cases ran
                exact ⟨name, stored, rfl, rfl, rfl, room, short, kept⟩
              · rw [if_neg deep] at ran
                cases ran
            · rw [hashmapSet_long room short] at ran
              cases ran
          · rw [hashmapSet, if_neg room] at ran
            cases ran
            exact .inl ⟨rfl, rfl, rfl⟩

theorem HashmapReached.keeps (reached : HashmapReached history memory map) :
    Keeps memory map history := by
  induction reached with
  | new granting =>
      exact keeps_new granting
  | stored _ ran inductionHypothesis =>
      rcases inductionHypothesis.set_cases ran with
        ⟨failed, _⟩ | ⟨name, stored, isKey, isValue, _, _, _, kept⟩
      · cases failed
      · cases isKey
        cases isValue
        exact kept
  | refused _ ran inductionHypothesis =>
      rcases inductionHypothesis.set_cases ran with
        ⟨_, rfl, rfl⟩ | ⟨_, _, _, _, succeeded, _⟩
      · exact inductionHypothesis
      · cases succeeded

/-! ## The representation -/

/-- Every entry is in one slot. -/
theorem slotEntries_total (history : List (CString × List UInt8)) :
    (∑ index, (slotEntries history index).length) = history.length := by
  induction history with
  | nil =>
      simp [slotEntries]
  | cons entry rest inductionHypothesis =>
      have one : ∀ index, (slotEntries (entry :: rest) index).length =
          (slotEntries rest index).length +
            if slotOf entry.1 = index then 1 else 0 := by
        intro index
        rw [slotEntries, List.filter_cons]
        by_cases same : slotOf entry.1 = index
        · rw [if_pos (decide_eq_true same), if_pos same]
          rfl
        · rw [if_neg (by simpa using same), if_neg same]
          rfl
      simp only [one, Finset.sum_add_distrib, inductionHypothesis,
        Finset.sum_ite_eq, Finset.mem_univ, if_true, List.length_cons]

theorem Keeps.belongs (keeps : Keeps memory map history) {cells : List Cell}
    (same : cells.map Prod.snd = (slotEntries history index).map held)
    {cell : Cell} (member : cell ∈ cells) : BelongsTo index cell := by
  rcases entry_of_cell same member with ⟨entry, present, isHeld⟩
  have short := keeps.short entry (List.mem_filter.mp present).1
  refine ⟨entry.1, entry.2 ++ [0], hashValue entry.1.bytes, isHeld,
    if_pos short, ?_⟩
  rw [← slotOf_entry present]
  rfl

theorem Keeps.represents (keeps : Keeps memory map history) :
    Represents memory map history.length := by
  have inUse : usedSlots history =
      Finset.univ.filter fun index => map.buckets index ≠ none := by
    ext index
    rw [Finset.mem_filter, keeps.used_iff]
    exact (and_iff_right (Finset.mem_univ index)).symm
  refine ⟨?_, ?_, ?_⟩
  · rw [keeps.count, inUse]
  · rw [keeps.count]
    exact Int.ofNat_le.mpr (usedSlots_card_le history)
  · choose cells chains values using keeps.holds
    refine ⟨cells, fun index => ⟨chains index, (chains index).nodup,
      fun cell member => keeps.belongs (values index) member⟩, ?_⟩
    rw [← slotEntries_total history]
    apply Finset.sum_congr rfl
    intro index _
    have length := congrArg List.length (values index)
    rwa [List.length_map, List.length_map] at length

end Maps

section Runs

variable {memory : Memory} {map : Hashmap}
  {history : List (CString × List UInt8)}

/-- The same sets fill the map whose chains are data. -/
theorem HashmapReached.filled (reached : HashmapReached history memory map) :
    ∃ tree : UvgTorrent.Hashmap (List UInt8),
      UvgTorrent.HashmapReached history tree ∧ FilledBy history tree := by
  induction reached with
  | new =>
      exact ⟨UvgTorrent.hashmapNew, .new, filledBy_new⟩
  | @stored history memory later map after key value depth reached ran
      inductionHypothesis =>
      rcases inductionHypothesis with ⟨tree, treeReached, filled⟩
      have keeps := reached.keeps
      rcases keeps.set_cases ran with
        ⟨failed, _⟩ | ⟨name, stored, isKey, isValue, _, room, short, _⟩
      · cases failed
      · cases isKey
        cases isValue
        have treeRoom : tree.bucketCount < maxHashtableKeys := by
          rw [filled.count]
          rw [keeps.count] at room
          exact Int.ofNat_lt.mp room
        have kept := filled.store (key, value)
        rw [keepEntry, storeEntry, if_pos treeRoom, ← filled.count,
          if_pos treeRoom] at kept
        exact ⟨_, .set treeReached
          (hashmapSet_of_room treeRoom short value), kept⟩
  | refused _ _ inductionHypothesis =>
      exact inductionHypothesis

/-- The map in memory has the counter and the chains of that map. -/
theorem HashmapReached.simulates
    (reached : HashmapReached history memory map) :
    ∃ tree : UvgTorrent.Hashmap (List UInt8),
      UvgTorrent.HashmapReached history tree ∧
      map.bucketCount = tree.bucketCount ∧
      ∀ index, ∃ entries,
        tree.buckets index = UvgTorrent.Bucket.ofEntries entries ∧
        Holds memory (map.buckets index) entries := by
  have keeps := reached.keeps
  rcases reached.filled with ⟨tree, treeReached, filled⟩
  refine ⟨tree, treeReached, ?_, fun index =>
    ⟨slotEntries history index, filled.chains index, keeps.holds index⟩⟩
  rw [keeps.count, filled.count]

end Runs

/-- Whatever sets have been made and whichever of them were refused, the
counter counts the slots in use, the chains are finite and run through
buckets of their slot, there is one bucket for every set that was not
refused, and another one that is refused changes nothing. -/
theorem hashmapReached_represents
    {history : List (CString × List UInt8)} {memory : Memory}
    {map : Hashmap} (reached : HashmapReached history memory map) :
    Represents memory map history.length ∧
      ∀ key value depth {after later},
        (hashmapSet map key value depth).from memory =
          (.ok (.failure, after), later) →
        after = map ∧ later = memory := by
  refine ⟨reached.keeps.represents, ?_⟩
  intro key value depth after later ran
  rcases reached.keeps.set_cases ran with
    ⟨_, same, unchanged⟩ | ⟨_, _, _, _, succeeded, _⟩
  · exact ⟨same, unchanged⟩
  · cases succeeded

/-- Two keys in one slot, and a value that is refused between them. -/
theorem hashmapReached_represents_collision :
    ∃ memory map,
      HashmapReached [(keyBb, valueOne), (keyBq, valueTwo)] memory map ∧
      Represents memory map 2 ∧
      ∀ key value depth {after later},
        (hashmapSet map key value depth).from memory =
          (.ok (.failure, after), later) →
        after = map ∧ later = memory := by
  have granting : (Heap.empty (Stream'.const true) : Memory).Granting :=
    fun _ => rfl
  rcases @Keeps.set _ _ _ keyBb (keeps_new granting) (by decide) (by decide)
      valueOne with ⟨enough, middle, first, kept, calls⟩
  have ran := calls enough
  rw [if_pos (Nat.le_refl enough)] at ran
  have one := HashmapReached.stored (.new granting) ran
  have refused : HashmapReached [(keyBb, valueOne)] middle first :=
    @HashmapReached.refused _ _ _ _ _ (some keyBq) none 0 one rfl
  have room : first.bucketCount < maxHashtableKeys := by
    have single : (slots [(keyBb, valueOne)]).length < maxHashtableKeys := by
      decide
    rw [kept.count]
    exact Int.ofNat_lt.mpr
      (Nat.lt_of_le_of_lt (List.toFinset_card_le _) single)
  rcases @Keeps.set _ _ _ keyBq kept room (by decide) valueTwo with
    ⟨more, later, second, _, further⟩
  have ranAgain := further more
  rw [if_pos (Nat.le_refl more)] at ranAgain
  have both := HashmapReached.stored refused ranAgain
  exact ⟨later, second, both, hashmapReached_represents both⟩

end UvgTorrent.OnHeap
