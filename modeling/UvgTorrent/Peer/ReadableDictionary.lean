import UvgTorrent.Peer.InfoWalk

/-!
# Metadata that is read to its end

Whatever bytes were fetched, the walk over the map that they become ends in
one case only: each slot holds one bucket at most, `files` is a list of maps,
and in each of these `length` is a number and `path` a list that ends in a
text.
-/

namespace UvgTorrent

open CProgram CText CArray MachineInt

/-- The first bucket of its slot has the key, and holds the object. -/
def HoldsUnder (map : Hashmap Object) (key : CString) (object : Object) :
    Prop :=
  ∃ next, map.buckets (slotOf key) = .node (some key) (some object) next

/-- No slot has a second bucket. -/
def SlotsSingle (map : Hashmap Object) : Prop :=
  ∀ slot, ¬ (map.buckets slot).Chained

structure FileReadable (file : Hashmap Object) : Prop where
  single : SlotsSingle file
  length : ∃ value, HoldsUnder file lengthKey (.long value)
  path : ∃ list name, HoldsUnder file pathKey (.list list) ∧
    list.values.getLast? = some (.bytes name)

structure DictionaryReadable (map : Hashmap Object) : Prop where
  single : SlotsSingle map
  files : ∃ list, HoldsUnder map filesKey (.list list) ∧
    ∀ object ∈ list.values, ∃ file, object = .map file ∧ FileReadable file

/-- The bytes become a map that can be read. -/
def MetadataReadable (depth : Nat) (assembly : Assembly) : Prop :=
  ∃ converted, bencodeToHashmap assembly.metaData.cells depth
      (bencodeInit (some 0) assembly.metadataPos) = .ok converted ∧
    DictionaryReadable converted.map

section Walk

variable {order : ByteOrder} {depth : Nat} {map cleared : Hashmap Object}
  {key : CString} {object : Object}

theorem hashmapGet_holdsUnder (short : key.bytes.length < 2 ^ 32) :
    hashmapGet map (some key) (depth + 1) = .ok (some object) ↔
      HoldsUnder map key object :=
  (hashmapGet_some_iff short).trans (and_iff_right (Nat.succ_pos depth))

theorem hashmapGetBucket_holdsUnder (short : key.bytes.length < 2 ^ 32)
    (holds : HoldsUnder map key object) :
    ∃ next, hashmapGetBucket map (some key) =
      .ok (.node (some key) (some object) next) := by
  rcases holds with ⟨next, first⟩
  refine ⟨next, ?_⟩
  rw [hashmapGetBucket_of_short short, first]

/-- A map whose bucket was cleared is destroyed to its end when no slot has a
second bucket. -/
theorem freeEach_clear_iff (ran : hashmapClear map key = .ok cleared) :
    freeEach (hashmapDestroy cleared) = .ok () ↔ SlotsSingle map := by
  rw [freeEach_ok_iff, hashmapDestroy_nodup_iff]
  exact forall_congr' fun slot => not_congr (hashmapClear_chained ran slot)

theorem consumeFile_returns_iff (object : Object) :
    (∃ line, consumeFile order (depth + 1) object = .ok line) ↔
      ∃ file, object = .map file ∧ FileReadable file := by
  constructor
  · rintro ⟨line, ran⟩
    simp only [consumeFile, bind_eq_ok_iff] at ran
    rcases ran with ⟨file, isMap, length, lengthFound, path, pathFound,
      printed, prints, bucket, _, _, _, cleared, clears, _, released, _⟩
    rcases printFileLine_ok_iff.mp prints with
      ⟨list, value, rfl, rfl, last, _⟩
    exact ⟨file, asMap_ok_iff.mp isMap, (freeEach_clear_iff clears).mp released,
      ⟨value, (hashmapGet_holdsUnder shortKeys.1).mp lengthFound⟩,
      list, printed.pathStr,
      (hashmapGet_holdsUnder shortKeys.2.1).mp pathFound, last⟩
  · rintro ⟨file, rfl, single, ⟨value, hasLength⟩, list, name, hasPath, last⟩
    rcases hashmapGetBucket_holdsUnder shortKeys.2.1 hasPath with
      ⟨next, bucket⟩
    rcases hashmapClear_of_bucket shortKeys.2.1 bucket with
      ⟨cleared, clears⟩
    have prints : printFileLine order (some (.long value))
        (some (.list list)) = .ok ⟨name, intAtLong order value⟩ := by
      refine printFileLine_ok_iff.mpr ⟨list, value, rfl, rfl, last, ?_⟩
      dsimp only
    refine ⟨⟨name, intAtLong order value⟩, ?_⟩
    simp only [consumeFile, asMap, ok_bind,
      (hashmapGet_holdsUnder shortKeys.1).mpr hasLength,
      (hashmapGet_holdsUnder shortKeys.2.1).mpr hasPath, prints, bucket,
      destroyList, asList, clears, (freeEach_clear_iff clears).mpr single,
      pure_exec]

theorem consumeFiles_returns_iff (values : List Object) :
    (∃ lines, consumeFiles order (depth + 1) values = .ok lines) ↔
      ∀ object ∈ values, ∃ file, object = .map file ∧ FileReadable file := by
  induction values with
  | nil =>
      refine iff_of_true ⟨[], rfl⟩ fun object member => ?_
      exact absurd member List.not_mem_nil
  | cons first rest inductionHypothesis =>
      rw [List.forall_mem_cons, ← inductionHypothesis,
        ← consumeFile_returns_iff]
      constructor
      · rintro ⟨lines, ran⟩
        simp only [consumeFiles, bind_eq_ok_iff] at ran
        rcases ran with ⟨line, here, others, further, _⟩
        exact ⟨⟨line, here⟩, others, further⟩
      · rintro ⟨⟨line, here⟩, others, further⟩
        refine ⟨line :: others, ?_⟩
        rw [consumeFiles, here, ok_bind, further]
        rfl

theorem consumeInfo_returns_iff (assembly : Assembly) :
    (∃ answer, consumeInfo order depth assembly = .ok answer) ↔
      MetadataReadable depth assembly := by
  cases depth with
  | zero =>
      refine iff_of_false ?_ ?_
      · rintro ⟨answer, ran⟩
        cases ran
      · rintro ⟨converted, ran, _⟩
        cases ran
  | succ depth =>
      constructor
      · rintro ⟨answer, ran⟩
        simp only [consumeInfo, bind_eq_ok_iff] at ran
        rcases ran with ⟨converted, converts, found, finds, list, isList, _,
          _, lines, consumed, _, _, cleared, clears, _, released, _⟩
        rw [asList_ok_iff.mp isList] at finds
        exact ⟨converted, converts, (freeEach_clear_iff clears).mp released,
          list, (hashmapGet_holdsUnder shortKeys.2.2).mp finds,
          (consumeFiles_returns_iff list.values).mp ⟨lines, consumed⟩⟩
      · rintro ⟨converted, converts, single, list, holds, files⟩
        rcases hashmapGetBucket_holdsUnder shortKeys.2.2 holds with
          ⟨next, bucket⟩
        rcases hashmapClear_of_bucket shortKeys.2.2 bucket with
          ⟨cleared, clears⟩
        rcases (@consumeFiles_returns_iff order depth _).mpr files with
          ⟨lines, consumed⟩
        refine ⟨(lines, .success), ?_⟩
        simp only [consumeInfo, converts, ok_bind,
          (hashmapGet_holdsUnder shortKeys.2.2).mpr holds, asList, bucket,
          consumed, destroyList, clears,
          (freeEach_clear_iff clears).mpr single, pure_exec]

end Walk

end UvgTorrent
