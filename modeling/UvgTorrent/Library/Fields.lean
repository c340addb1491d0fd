import UvgTorrent.Library.Buffer

/-!
# Consecutive fields of an array

Copies of one block behind another, as the single stores they consist of,
and the fields that are read back at given widths.
-/

namespace CArray

open CProgram

/-- The stores of the copies of one block behind another, from an index
on. -/
def fieldWrites : Nat → List (List UInt8) → List (Nat × UInt8)
  | _, [] => []
  | index, field :: rest =>
      (List.range' index field.length).zip field ++
        fieldWrites (index + field.length) rest

/-- One store after another. -/
def runWrites (buffer : Buffer) (writes : List (Nat × UInt8)) : Buffer :=
  writes.foldl (fun buffer write => buffer.store write.1 write.2) buffer

/-- The fields of the given widths at the start of an array. -/
def splitFields : List Nat → List UInt8 → List (List UInt8)
  | [], _ => []
  | width :: widths, cells =>
      cells.take width :: splitFields widths (cells.drop width)

theorem runWrites_append (buffer : Buffer)
    (first second : List (Nat × UInt8)) :
    runWrites buffer (first ++ second) =
      runWrites (runWrites buffer first) second :=
  List.foldl_append

theorem storeAll_eq_runWrites (buffer : Buffer) (index : Nat)
    (bytes : List UInt8) :
    buffer.storeAll index bytes =
      runWrites buffer ((List.range' index bytes.length).zip bytes) := by
  induction bytes generalizing buffer index with
  | nil =>
      rfl
  | cons byte rest inductionHypothesis =>
      rw [Buffer.storeAll, inductionHypothesis, List.length_cons,
        List.range'_succ]
      rfl

/-- Copies that stay inside the array are their stores. -/
theorem copyFields_eq_runWrites {buffer copied : Buffer} {index : Nat}
    {fields : List (List UInt8)}
    (finished : buffer.copyFields index fields = .ok copied) :
    copied = runWrites buffer (fieldWrites index fields) := by
  induction fields generalizing buffer index with
  | nil =>
      cases finished
      rfl
  | cons field rest inductionHypothesis =>
      rw [Buffer.copyFields] at finished
      cases first : buffer.copyIn index field with
      | error stop =>
          rw [first] at finished
          cases finished
      | ok next =>
          rw [first] at finished
          rcases Buffer.copyIn_ok first with ⟨_, stray, inside, cells⟩
          have stored : next = buffer.storeAll index field := by
            rw [Buffer.storeAll_of_le inside, ← cells, ← stray]
          rw [inductionHypothesis finished, fieldWrites, runWrites_append,
            ← storeAll_eq_runWrites, stored]

/-- The places of the stores, in order: each index of the fields once. -/
theorem fieldWrites_places (index : Nat) (fields : List (List UInt8)) :
    (fieldWrites index fields).map Prod.fst =
      List.range' index fields.flatten.length := by
  induction fields generalizing index with
  | nil =>
      rfl
  | cons field rest inductionHypothesis =>
      have places : ((List.range' index field.length).zip field).map
          Prod.fst = List.range' index field.length :=
        List.map_fst_zip (by rw [List.length_range'])
      rw [fieldWrites, List.map_append, places, inductionHypothesis,
        List.flatten_cons, List.length_append, ← List.range'_append_1]

/-- Fields that are read back at their own widths. -/
theorem splitFields_flatten (fields : List (List UInt8)) :
    splitFields (fields.map List.length) fields.flatten = fields := by
  induction fields with
  | nil =>
      rfl
  | cons field rest inductionHypothesis =>
      rw [List.map_cons, List.flatten_cons, splitFields, List.take_left,
        List.drop_left, inductionHypothesis]

/-- An array that copies have filled, each index written once. -/
structure FilledOnce (fresh : Buffer) (fields : List (List UInt8))
    (bytes : List UInt8) : Prop where
  ran : runWrites fresh (fieldWrites 0 fields) = .ofCells bytes
  places : (fieldWrites 0 fields).map Prod.fst =
    List.range fresh.cells.length

theorem filledOnce_of_fill {fresh : Buffer} {fields : List (List UInt8)}
    (clean : fresh.stray = [])
    (fills : fields.flatten.length = fresh.cells.length) :
    FilledOnce fresh fields fields.flatten where
  ran := by
    have ran := copyFields_eq_runWrites (Buffer.copyFields_fill fills)
    rw [← ran, clean]
    rfl
  places := by
    rw [fieldWrites_places, fills, List.range_eq_range']

end CArray
