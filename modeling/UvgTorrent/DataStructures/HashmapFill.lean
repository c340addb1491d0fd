import Mathlib.Data.Fintype.Card
import UvgTorrent.DataStructures.HashmapHistory

/-!
# Filling a hash map

A new map takes a list of stores, one after the other.  A store is refused
once every slot has a bucket, whatever the slot of its key, and is kept
otherwise.  While no two keys share a slot the map keeps the first
`maxHashtableKeys` entries, and it finds what it keeps.
-/

namespace UvgTorrent

open CProgram CText

variable {α : Type}

/-- `Hashmap_set` with its answer dropped, for a key that can be hashed. -/
def storeEntry (map : Hashmap α) (entry : CString × α) : Hashmap α :=
  if map.bucketCount < maxHashtableKeys then
    storeInSlot map (slotOf entry.1) entry.1 entry.2
  else
    map

def fillMap (entries : List (CString × α)) : Hashmap α :=
  entries.foldl storeEntry hashmapNew

/-- The slots of the keys, in the order of the entries. -/
def slots (entries : List (CString × α)) : List (Fin maxHashtableKeys) :=
  entries.map fun entry => slotOf entry.1

def usedSlots (entries : List (CString × α)) :
    Finset (Fin maxHashtableKeys) :=
  (slots entries).toFinset

/-- The entries that are kept when one more is stored. -/
def keepEntry (kept : List (CString × α)) (entry : CString × α) :
    List (CString × α) :=
  if (usedSlots kept).card < maxHashtableKeys then kept ++ [entry] else kept

def keptEntries (entries : List (CString × α)) : List (CString × α) :=
  entries.foldl keepEntry []

/-- No two of the first `maxHashtableKeys` keys share a slot. -/
def SlotsDistinct (entries : List (CString × α)) : Prop :=
  (slots (entries.take maxHashtableKeys)).Nodup

/-- The map holds what was kept, and counts the slots that are used. -/
structure FilledBy (kept : List (CString × α)) (map : Hashmap α) :
    Prop where
  chains : ChainsHold kept map
  count : map.bucketCount = (usedSlots kept).card

section Stores

variable {kept entries : List (CString × α)} {map : Hashmap α}

theorem storeInSlot_count_unused {index : Fin maxHashtableKeys}
    (unused : map.buckets index = .null) (key : CString) (value : α) :
    (storeInSlot map index key value).bucketCount =
      map.bucketCount + 1 := by
  rw [storeInSlot, unused]

theorem storeInSlot_count_used {index : Fin maxHashtableKeys}
    (used : map.buckets index ≠ .null) (key : CString) (value : α) :
    (storeInSlot map index key value).bucketCount = map.bucketCount := by
  cases held : map.buckets index with
  | null =>
      exact absurd held used
  | node heldKey heldValue next =>
      rw [storeInSlot, held]

theorem slots_snoc (entry : CString × α) :
    slots (kept ++ [entry]) = slots kept ++ [slotOf entry.1] := by
  rw [slots, List.map_append]
  rfl

theorem usedSlots_snoc (entry : CString × α) :
    usedSlots (kept ++ [entry]) =
      insert (slotOf entry.1) (usedSlots kept) := by
  rw [usedSlots, slots_snoc, List.toFinset_append, List.toFinset_cons,
    List.toFinset_nil, Finset.union_comm, usedSlots]
  rfl

theorem ofEntries_eq_null_iff (entries : List (CString × α)) :
    Bucket.ofEntries entries = .null ↔ entries = [] := by
  cases entries with
  | nil => simp [Bucket.ofEntries]
  | cons first rest => simp [Bucket.ofEntries]

/-- A slot is used exactly when it has a bucket. -/
theorem ChainsHold.used_iff (holds : ChainsHold kept map)
    (index : Fin maxHashtableKeys) :
    index ∈ usedSlots kept ↔ map.buckets index ≠ .null := by
  rw [holds index, Ne, ofEntries_eq_null_iff, List.filter_eq_nil_iff,
    usedSlots, List.mem_toFinset, slots, List.mem_map]
  simp

theorem FilledBy.store (filled : FilledBy kept map)
    (entry : CString × α) :
    FilledBy (keepEntry kept entry) (storeEntry map entry) := by
  rw [keepEntry, storeEntry, filled.count]
  by_cases room : (usedSlots kept).card < maxHashtableKeys
  · rw [if_pos room, if_pos room]
    refine ⟨chainsHold_store filled.chains entry.1 entry.2, ?_⟩
    rw [usedSlots_snoc]
    by_cases used : slotOf entry.1 ∈ usedSlots kept
    · rw [Finset.insert_eq_of_mem used, ← filled.count]
      exact storeInSlot_count_used
        ((filled.chains.used_iff _).mp used) _ _
    · rw [Finset.card_insert_of_notMem used, ← filled.count]
      apply storeInSlot_count_unused
      by_contra held
      exact used ((filled.chains.used_iff _).mpr held)
  · rw [if_neg room, if_neg room]
    exact filled

theorem filledBy_new : FilledBy [] (hashmapNew : Hashmap α) :=
  ⟨chainsHold_of_reached .new, rfl⟩

theorem FilledBy.storeAll (filled : FilledBy kept map)
    (entries : List (CString × α)) :
    FilledBy (entries.foldl keepEntry kept)
      (entries.foldl storeEntry map) := by
  induction entries generalizing kept map with
  | nil =>
      exact filled
  | cons entry rest inductionHypothesis =>
      exact inductionHypothesis (filled.store entry)

theorem fillMap_filledBy (entries : List (CString × α)) :
    FilledBy (keptEntries entries) (fillMap entries) :=
  filledBy_new.storeAll entries

/-- Without a shared slot the entries are kept in order, as many as there
are slots. -/
theorem keptEntries_eq_take
    (distinct :
      (slots (keptEntries entries)).Nodup ∨ SlotsDistinct entries) :
    keptEntries entries = entries.take maxHashtableKeys := by
  induction entries using List.reverseRecOn with
  | nil =>
      rfl
  | append_singleton entries entry inductionHypothesis =>
      have unfolded : keptEntries (entries ++ [entry]) =
          keepEntry (keptEntries entries) entry := by
        rw [keptEntries, List.foldl_append]
        rfl
      have front :
          (slots (keptEntries entries)).Nodup ∨ SlotsDistinct entries := by
        rcases distinct with kept | first
        · left
          rw [unfolded, keepEntry] at kept
          split at kept
          · rw [slots_snoc] at kept
            exact kept.of_append_left
          · exact kept
        · right
          rw [SlotsDistinct, List.take_append, slots, List.map_append]
            at first
          exact first.of_append_left
      have same := inductionHypothesis front
      have nodup : (slots (keptEntries entries)).Nodup := by
        rcases front with kept | first
        · exact kept
        · rw [same]
          exact first
      have size : (usedSlots (keptEntries entries)).card =
          min maxHashtableKeys entries.length := by
        rw [usedSlots, List.toFinset_card_of_nodup nodup, slots,
          List.length_map, same, List.length_take]
      rw [unfolded, keepEntry, size]
      by_cases room : entries.length < maxHashtableKeys
      · rw [if_pos (by omega), same, List.take_of_length_le (by omega),
          List.take_of_length_le (by
            rw [List.length_append, List.length_singleton]
            omega)]
      · rw [if_neg (by omega), same,
          List.take_append_of_le_length (by omega)]

theorem slotsDistinct_iff :
    SlotsDistinct entries ↔ (slots (keptEntries entries)).Nodup := by
  constructor
  · intro distinct
    rw [keptEntries_eq_take (.inr distinct)]
    exact distinct
  · intro nodup
    rw [SlotsDistinct, ← keptEntries_eq_take (.inl nodup)]
    exact nodup

end Stores

section Lookups

variable {kept : List (CString × α)} {map : Hashmap α} {key : CString}
  {value : α}

/-- Whatever a lookup finds was kept under its key. -/
theorem hashmapGet_kept (holds : ChainsHold kept map)
    (short : key.bytes.length < 2 ^ 32) {depth : Nat}
    (found : hashmapGet map (some key) depth = .ok (some value)) :
    (key, value) ∈ kept := by
  rw [hashmapGet_of_chainsHold holds short] at found
  cases writes : slotWrites kept key with
  | nil =>
      rw [writes] at found
      cases found
  | cons first rest =>
      rw [writes] at found
      rcases first with ⟨held, stored⟩
      by_cases same : held = key
      · cases depth with
        | zero =>
            cases found
        | succ depth =>
            rw [same] at found writes
            cases (bucketGet_first key stored rest depth).symm.trans found
            have member : (key, value) ∈ slotWrites kept key := by
              rw [writes]
              exact List.mem_cons_self
            exact (List.mem_filter.mp member).1
      · cases rest with
        | nil =>
            cases depth with
            | zero =>
                cases found
            | succ depth =>
                cases (bucketGet_only same stored depth).symm.trans found
        | cons second others =>
            cases (bucketGet_unfinished same stored second others
              depth).symm.trans found

/-- A slot that no other key shares. -/
theorem slotWrites_of_nodup (distinct : (slots kept).Nodup)
    (member : (key, value) ∈ kept) :
    slotWrites kept key = [(key, value)] := by
  induction kept with
  | nil =>
      exact absurd member List.not_mem_nil
  | cons first rest inductionHypothesis =>
      rw [slots, List.map_cons, List.nodup_cons] at distinct
      rcases List.mem_cons.mp member with here | further
      · subst here
        have others : slotWrites rest key = [] := by
          rw [slotWrites, List.filter_eq_nil_iff]
          intro entry among same
          exact distinct.1 (List.mem_map.mpr
            ⟨entry, among, of_decide_eq_true same⟩)
        rw [slotWrites, List.filter_cons_of_pos (by simp)]
        exact congrArg _ others
      · have different : ¬ slotOf first.1 = slotOf key := by
          intro same
          exact distinct.1 (List.mem_map.mpr ⟨_, further, same.symm⟩)
        rw [slotWrites, List.filter_cons_of_neg (by simpa using different)]
        exact inductionHypothesis distinct.2 further

theorem hashmapGet_of_kept (holds : ChainsHold kept map)
    (distinct : (slots kept).Nodup) (short : key.bytes.length < 2 ^ 32)
    (member : (key, value) ∈ kept) (depth : Nat) :
    hashmapGet map (some key) (depth + 1) = .ok (some value) := by
  rw [hashmapGet_of_chainsHold holds short,
    slotWrites_of_nodup distinct member]
  exact bucketGet_first key value [] depth

/-- Its slot holds the one bucket. -/
theorem hashmapGetBucket_of_kept (holds : ChainsHold kept map)
    (distinct : (slots kept).Nodup) (short : key.bytes.length < 2 ^ 32)
    (member : (key, value) ∈ kept) :
    hashmapGetBucket map (some key) =
      .ok (.node (some key) (some value) .null) := by
  have held := holds (slotOf key)
  have alone := slotWrites_of_nodup distinct member
  rw [slotWrites] at alone
  rw [alone] at held
  rw [hashmapGetBucket_of_short short, held]
  rfl

end Lookups

end UvgTorrent
