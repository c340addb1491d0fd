import UvgTorrent.Library.Program

/-!
# Fixed-size arrays

A block copy that leaves its array stops the run.  A single store past the
end does not: the program cannot notice it and goes on, so the store is
dropped and its index is kept in `stray`.
-/

namespace CArray

open CProgram

/-- An array and the indices of the single stores that missed it. -/
structure Buffer where
  cells : List UInt8
  stray : List Nat
  deriving DecidableEq, Repr

namespace Buffer

def ofCells (cells : List UInt8) : Buffer :=
  ⟨cells, []⟩

def zeroed (size : Nat) : Buffer :=
  ofCells (List.replicate size 0)

/-- `buffer[index] = byte`. -/
def store (buffer : Buffer) (index : Nat) (byte : UInt8) : Buffer :=
  if index < buffer.cells.length then
    { buffer with cells := buffer.cells.set index byte }
  else
    { buffer with stray := buffer.stray ++ [index] }

/-- `memcpy(&buffer[index], bytes, |bytes|)`. -/
def copyIn (buffer : Buffer) (index : Nat) (bytes : List UInt8) :
    Exec Buffer :=
  if index + bytes.length ≤ buffer.cells.length then
    .ok { buffer with
      cells := buffer.cells.take index ++ bytes ++
        buffer.cells.drop (index + bytes.length) }
  else
    .error .writePast

/-- `copyIn` at an `int` index, which may lie in front of the array. -/
def copyAt (buffer : Buffer) (index : Int) (bytes : List UInt8) :
    Exec Buffer :=
  if 0 ≤ index then
    buffer.copyIn index.toNat bytes
  else
    .error .writePast

/-- Copies of one block behind another, from an index on. -/
def copyFields (buffer : Buffer) (index : Nat) :
    List (List UInt8) → Exec Buffer
  | [] => .ok buffer
  | field :: rest =>
      match buffer.copyIn index field with
      | .ok copied => copied.copyFields (index + field.length) rest
      | .error stop => .error stop

def storeAll (buffer : Buffer) (index : Nat) : List UInt8 → Buffer
  | [] => buffer
  | byte :: rest => (buffer.store index byte).storeAll (index + 1) rest

/-- `memset(buffer, 0, size)`. -/
def clear (buffer : Buffer) : Buffer :=
  { buffer with cells := List.replicate buffer.cells.length 0 }

/-- An array that holds `bytes` and zeros behind them. -/
def holding (size : Nat) (bytes : List UInt8) : Buffer :=
  ofCells (bytes ++ List.replicate (size - bytes.length) 0)

@[simp]
theorem store_length (buffer : Buffer) (index : Nat) (byte : UInt8) :
    (buffer.store index byte).cells.length = buffer.cells.length := by
  unfold store
  split <;> simp

theorem store_of_lt {buffer : Buffer} {index : Nat}
    (inside : index < buffer.cells.length) (byte : UInt8) :
    buffer.store index byte =
      { buffer with cells := buffer.cells.set index byte } :=
  if_pos inside

theorem store_of_le {buffer : Buffer} {index : Nat}
    (outside : buffer.cells.length ≤ index) (byte : UInt8) :
    buffer.store index byte =
      { buffer with stray := buffer.stray ++ [index] } :=
  if_neg (Nat.not_lt.mpr outside)

theorem store_getElem?_of_ne (buffer : Buffer) {index other : Nat}
    (different : index ≠ other) (byte : UInt8) :
    (buffer.store index byte).cells[other]? = buffer.cells[other]? := by
  unfold store
  split
  · exact List.getElem?_set_ne different
  · rfl

theorem copyIn_of_le {buffer : Buffer} {index : Nat} {bytes : List UInt8}
    (inside : index + bytes.length ≤ buffer.cells.length) :
    buffer.copyIn index bytes =
      .ok { buffer with
        cells := buffer.cells.take index ++ bytes ++
          buffer.cells.drop (index + bytes.length) } :=
  if_pos inside

theorem copyIn_of_lt {buffer : Buffer} {index : Nat} {bytes : List UInt8}
    (outside : buffer.cells.length < index + bytes.length) :
    buffer.copyIn index bytes = .error .writePast :=
  if_neg (Nat.not_le.mpr outside)

@[simp]
theorem storeAll_length (buffer : Buffer) (index : Nat)
    (bytes : List UInt8) :
    (buffer.storeAll index bytes).cells.length = buffer.cells.length := by
  induction bytes generalizing buffer index with
  | nil =>
      rfl
  | cons byte rest inductionHypothesis =>
      rw [storeAll, inductionHypothesis, store_length]

theorem storeAll_take (buffer : Buffer) (index : Nat)
    (bytes : List UInt8) :
    (buffer.storeAll index bytes).cells.take index =
      buffer.cells.take index := by
  induction bytes generalizing buffer index with
  | nil =>
      rfl
  | cons byte rest inductionHypothesis =>
      have further := congrArg (List.take index)
        (inductionHypothesis (buffer.store index byte) (index + 1))
      rw [List.take_take, List.take_take, Nat.min_eq_left (by omega)]
        at further
      rw [storeAll, further]
      unfold store
      split
      · exact List.take_set_of_le (Nat.le_refl index)
      · rfl

theorem storeAll_of_le {buffer : Buffer} {index : Nat} {bytes : List UInt8}
    (inside : index + bytes.length ≤ buffer.cells.length) :
    buffer.storeAll index bytes = { buffer with
      cells := buffer.cells.take index ++ bytes ++
        buffer.cells.drop (index + bytes.length) } := by
  induction bytes generalizing buffer index with
  | nil =>
      simp only [storeAll, List.append_nil, List.length_nil, Nat.add_zero,
        List.take_append_drop]
  | cons byte rest inductionHypothesis =>
      have here : index < buffer.cells.length := by
        rw [List.length_cons] at inside
        omega
      have fits : index + 1 + rest.length ≤
          (buffer.store index byte).cells.length := by
        rw [store_length]
        rw [List.length_cons] at inside
        omega
      have front : (buffer.cells.set index byte).take (index + 1) =
          buffer.cells.take index ++ [byte] := by
        rw [List.take_add_one, List.getElem?_set_self here,
          List.take_set_of_le (Nat.le_refl index)]
        rfl
      have behind : (buffer.cells.set index byte).drop
          (index + 1 + rest.length) =
            buffer.cells.drop (index + (byte :: rest).length) := by
        rw [List.drop_set_of_lt (by omega), List.length_cons]
        congr 1
        omega
      rw [storeAll, inductionHypothesis fits, store_of_lt here]
      simp only [front, behind, List.append_assoc, List.singleton_append]

theorem storeAll_append (buffer : Buffer) (index : Nat)
    (first second : List UInt8) :
    buffer.storeAll index (first ++ second) =
      (buffer.storeAll index first).storeAll (index + first.length)
        second := by
  induction first generalizing buffer index with
  | nil =>
      rfl
  | cons byte rest inductionHypothesis =>
      rw [List.cons_append, storeAll, inductionHypothesis, storeAll,
        List.length_cons, Nat.add_assoc, Nat.add_comm 1]

/-- The stores that miss an array are those from its size on. -/
theorem storeAll_stray (buffer : Buffer) (index : Nat)
    (bytes : List UInt8) :
    (buffer.storeAll index bytes).stray = buffer.stray ++
      (List.range' index bytes.length).filter
        (fun place => buffer.cells.length ≤ place) := by
  induction bytes generalizing buffer index with
  | nil =>
      simp [storeAll]
  | cons byte rest inductionHypothesis =>
      rw [storeAll, inductionHypothesis, store_length, List.length_cons,
        List.range'_succ]
      by_cases inside : index < buffer.cells.length
      · rw [store_of_lt inside,
          List.filter_cons_of_neg (by simpa using inside)]
      · have outside := Nat.not_lt.mp inside
        rw [store_of_le outside,
          List.filter_cons_of_pos (by simpa using outside),
          List.append_assoc, List.singleton_append]

theorem storeAll_stray_eq_nil_iff {buffer : Buffer} {index : Nat}
    (noStray : buffer.stray = []) (within : index ≤ buffer.cells.length)
    (bytes : List UInt8) :
    (buffer.storeAll index bytes).stray = [] ↔
      index + bytes.length ≤ buffer.cells.length := by
  rw [storeAll_stray, noStray, List.nil_append, List.filter_eq_nil_iff]
  constructor
  · intro inside
    by_contra outside
    have first := inside buffer.cells.length
      (List.mem_range'_1.mpr ⟨within, by omega⟩)
    simp at first
  · intro inside place member
    have bounds := List.mem_range'_1.mp member
    rw [decide_eq_true_eq]
    omega

/-- The array starts with these bytes, and no store has missed it. -/
structure Starts (buffer : Buffer) (known : List UInt8) : Prop where
  front : known <+: buffer.cells
  clean : buffer.stray = []

/-- Stores inside the array, from a place in what is known of it. -/
theorem Starts.storeAll {buffer : Buffer} {known bytes : List UInt8}
    {index : Nat} (starts : buffer.Starts known)
    (within : index ≤ known.length)
    (fits : index + bytes.length ≤ buffer.cells.length) :
    (buffer.storeAll index bytes).Starts (known.take index ++ bytes) := by
  rcases starts.front with ⟨rest, split⟩
  rw [storeAll_of_le fits]
  refine ⟨⟨buffer.cells.drop (index + bytes.length), ?_⟩, starts.clean⟩
  rw [← split, List.take_append_of_le_length within]

/-- An array that is known to its end. -/
theorem Starts.whole {buffer : Buffer} {known : List UInt8}
    (starts : buffer.Starts known)
    (size : known.length = buffer.cells.length) :
    buffer = ⟨known, []⟩ := by
  have cells := starts.front.eq_of_length size
  rw [cells, ← starts.clean]

@[simp]
theorem copyAt_natCast (buffer : Buffer) (index : Nat)
    (bytes : List UInt8) :
    buffer.copyAt index bytes = buffer.copyIn index bytes :=
  if_pos (Int.natCast_nonneg index)

theorem holding_length {size : Nat} {bytes : List UInt8}
    (fits : bytes.length ≤ size) :
    (holding size bytes).cells.length = size := by
  simp only [holding, ofCells, List.length_append, List.length_replicate]
  omega

theorem clear_holding {size : Nat} {bytes : List UInt8}
    (fits : bytes.length ≤ size) :
    (holding size bytes).clear = holding size [] := by
  have length := holding_length fits
  unfold clear
  rw [length]
  rfl

theorem store_holding {size : Nat} {bytes : List UInt8}
    (room : bytes.length < size) (byte : UInt8) :
    (holding size bytes).store bytes.length byte =
      holding size (bytes ++ [byte]) := by
  have inside : bytes.length < (holding size bytes).cells.length := by
    rw [holding_length (Nat.le_of_lt room)]
    exact room
  have zeros : size - bytes.length = size - (bytes.length + 1) + 1 := by
    omega
  rw [store_of_lt inside]
  simp only [holding, ofCells, List.length_append, List.length_singleton]
  rw [List.set_append_right _ _ (Nat.le_refl _), Nat.sub_self, zeros,
    List.replicate_succ, List.set_cons_zero, List.append_assoc,
    List.singleton_append]

/-- A copy keeps the size and the record of stray stores. -/
theorem copyIn_ok {buffer copied : Buffer} {index : Nat}
    {bytes : List UInt8}
    (finished : buffer.copyIn index bytes = .ok copied) :
    copied.cells.length = buffer.cells.length ∧
      copied.stray = buffer.stray ∧
      index + bytes.length ≤ buffer.cells.length ∧
      copied.cells = buffer.cells.take index ++ bytes ++
        buffer.cells.drop (index + bytes.length) := by
  by_cases inside : index + bytes.length ≤ buffer.cells.length
  · rw [copyIn_of_le inside] at finished
    cases finished
    refine ⟨?_, rfl, inside, rfl⟩
    simp only [List.length_append, List.length_take, List.length_drop]
    omega
  · rw [copyIn_of_lt (Nat.not_le.mp inside)] at finished
    cases finished

theorem copyFields_of_le {buffer : Buffer} {index : Nat}
    {fields : List (List UInt8)}
    (inside : index + fields.flatten.length ≤ buffer.cells.length) :
    buffer.copyFields index fields =
      .ok { buffer with
        cells := buffer.cells.take index ++ fields.flatten ++
          buffer.cells.drop (index + fields.flatten.length) } := by
  induction fields generalizing buffer index with
  | nil =>
      simp only [copyFields, List.flatten_nil, List.append_nil,
        List.length_nil, Nat.add_zero, List.take_append_drop]
  | cons field rest inductionHypothesis =>
      rw [List.flatten_cons, List.length_append] at inside
      have here : index + field.length ≤ buffer.cells.length := by
        omega
      have front : (buffer.cells.take index ++ field).length =
          index + field.length := by
        rw [List.length_append, List.length_take]
        omega
      have further := @inductionHypothesis { buffer with
        cells := buffer.cells.take index ++ field ++
          buffer.cells.drop (index + field.length) }
        (index + field.length) (by
          simp only [List.length_append, List.length_take,
            List.length_drop]
          omega)
      rw [copyFields, copyIn_of_le here]
      simp only [further]
      rw [List.take_left' front, ← List.drop_drop, List.drop_left' front,
        List.drop_drop, List.flatten_cons, List.length_append,
        Nat.add_assoc]
      simp only [List.append_assoc]

/-- Fields that fill a whole array are all it holds. -/
theorem copyFields_fill {buffer : Buffer} {fields : List (List UInt8)}
    (fills : fields.flatten.length = buffer.cells.length) :
    buffer.copyFields 0 fields =
      .ok { buffer with cells := fields.flatten } := by
  rw [copyFields_of_le (by omega), List.take_zero, List.nil_append, fills,
    Nat.zero_add, List.drop_length, List.append_nil]

end Buffer

end CArray
