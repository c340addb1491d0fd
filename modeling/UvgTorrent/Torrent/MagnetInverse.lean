import UvgTorrent.Torrent.Magnet

/-!
# The scanner undoes the serialisation of a magnet link

Between two parameters both buffers hold nothing and the scanner reads a
key; within a parameter they hold what has been read of it.  A text of
`2 ^ 31` bytes or more does not fit the `int` that its length is kept in,
and is taken apart in another way.
-/

namespace UvgTorrent

open CProgram CText CArray MachineInt

/-- A parameter that a magnet link can carry. -/
structure MagnetPair where
  key : CString
  value : CString
  keyShort : key.bytes.length ≤ 255
  keyFree : ch '=' ∉ key.bytes ∧ ch '&' ∉ key.bytes
  valueShort : value.bytes.length ≤ 255
  valueFree : ch '&' ∉ value.bytes

def MagnetPair.bytes (pair : MagnetPair) : List UInt8 :=
  pair.key.bytes ++ ch '=' :: pair.value.bytes

/-- `k1=v1&k2=v2&...&kn=vn` -/
def serialise : List MagnetPair → List UInt8
  | [] => []
  | [pair] => pair.bytes
  | pair :: next :: rest => pair.bytes ++ ch '&' :: serialise (next :: rest)

def magnetPrefix : List UInt8 := text "magnet:?"

variable {Tracker : Type}

/-- The calls for one parameter; `tracker` is what `Tracker_new` returns. -/
def pairCalls (tracker : CString → Tracker) (pair : MagnetPair) :
    List (MagnetCall Tracker) :=
  if pair.key.bytes = text "tr" then
    [.trackerNew pair.value, .trackersAppend (tracker pair.value)]
  else
    [.hashmapSet pair.key pair.value pair.value.strlen]

/-- `Hashmap_set` has room whenever a parameter is stored. -/
def HasRoom : Hashmap (List UInt8) → List MagnetPair → Prop
  | _, [] => True
  | map, pair :: rest =>
      if pair.key.bytes = text "tr" then
        HasRoom map rest
      else
        map.bucketCount < maxHashtableKeys ∧
          HasRoom
            (storeInSlot map (slotOf pair.key) pair.key pair.value.bytes)
            rest

/-- The scan of a serialisation returns and has made exactly the calls of
its parameters, in order. -/
def ScansExactly (trackerNew : CString → Exec Tracker)
    (tracker : CString → Tracker) (pairs : List MagnetPair) : Prop :=
  ∃ final,
    scanMagnet trackerNew (magnetPrefix ++ serialise pairs) =
      .ok (.success, final) ∧
    final.calls = pairs.flatMap (pairCalls tracker)

/-! ## The rounds of the loop -/

section Rounds

variable (trackerNew : CString → Exec Tracker) {inputLen : Int}

/-- The scanner has read `read` of a key. -/
def readingKey (scan : MagnetScan Tracker) (read : List UInt8) :
    MagnetScan Tracker :=
  { scan with
    keyBuffer := .holding magnetBufferSize read
    valueBuffer := .holding magnetBufferSize []
    strPos := read.length
    key := true }

/-- The scanner has read `read` of a value. -/
def readingValue (scan : MagnetScan Tracker) (key read : List UInt8) :
    MagnetScan Tracker :=
  { scan with
    keyBuffer := .holding magnetBufferSize key
    valueBuffer := .holding magnetBufferSize read
    strPos := read.length
    key := false }

theorem readingKey_key (scan : MagnetScan Tracker) (read : List UInt8) :
    (readingKey scan read).key = true :=
  rfl

theorem readingValue_key (scan : MagnetScan Tracker)
    (key read : List UInt8) : ¬ (readingValue scan key read).key = true :=
  Bool.false_ne_true

theorem scanLoop_step {byte : UInt8} {rest : List UInt8} {i : Nat}
    {scan next : MagnetScan Tracker} (small : i < 2 ^ 31)
    (step :
      scanStep trackerNew inputLen i byte scan = .ok (.success, next)) :
    scanLoop trackerNew inputLen (byte :: rest) i scan =
      scanLoop trackerNew inputLen rest (i + 1) next := by
  rw [scanLoop, subscript_of_lt small, ok_bind, step]
  rfl

theorem scanStep_keyByte {byte : UInt8} {read : List UInt8} {i : Nat}
    (scan : MagnetScan Tracker) (notEnd : byte ≠ ch '=')
    (room : read.length < magnetBufferSize) (before : (i : Int) < inputLen) :
    scanStep trackerNew inputLen i byte (readingKey scan read) =
      .ok (.success, readingKey scan (read ++ [byte])) := by
  have inside : byte ≠ ch '=' ∧ (readingKey scan read).strPos < 256 ∧
      (i : Int) < inputLen :=
    ⟨notEnd, room, before⟩
  rw [scanStep, if_pos (readingKey_key scan read), if_pos inside]
  simp only [readingKey, Buffer.store_holding room, pure_exec,
    List.length_append, List.length_singleton]

theorem scanStep_keyEnd {read : List UInt8} {i : Nat}
    (scan : MagnetScan Tracker) (before : (i : Int) < inputLen) :
    scanStep trackerNew inputLen i (ch '=') (readingKey scan read) =
      .ok (.success, readingValue scan read []) := by
  have notLast : ¬ (i : Int) = inputLen := by omega
  rw [scanStep, if_pos (readingKey_key scan read),
    if_neg (fun inside => inside.1 rfl), if_neg notLast]
  rfl

theorem scanStep_valueByte {byte : UInt8} {read : List UInt8} {i : Nat}
    (scan : MagnetScan Tracker) (key : List UInt8) (notEnd : byte ≠ ch '&')
    (room : read.length < magnetBufferSize) (before : (i : Int) < inputLen) :
    scanStep trackerNew inputLen i byte (readingValue scan key read) =
      .ok (.success, readingValue scan key (read ++ [byte])) := by
  have inside : byte ≠ ch '&' ∧ (readingValue scan key read).strPos < 256 ∧
      (i : Int) < inputLen :=
    ⟨notEnd, room, before⟩
  rw [scanStep, if_neg (readingValue_key scan key read), if_pos inside]
  simp only [readingValue, Buffer.store_holding room, pure_exec,
    List.length_append, List.length_singleton]

/-- A parameter whose bytes are all in the buffers. -/
def readPair (scan : MagnetScan Tracker) (key value : List UInt8) :
    MagnetScan Tracker :=
  { readingValue scan key value with strPos := 0, key := true }

theorem scanStep_valueEnd {i : Nat} (scan : MagnetScan Tracker)
    (key read : List UInt8) (before : (i : Int) < inputLen) :
    scanStep trackerNew inputLen i (ch '&') (readingValue scan key read) =
      storeParameter trackerNew (readPair scan key read) := by
  have notLast : ¬ (i : Int) = inputLen := by omega
  rw [scanStep, if_neg (readingValue_key scan key read),
    if_neg (fun inside => inside.1 rfl), if_neg notLast]
  rfl

theorem scanStep_valueLast {i : Nat} (scan : MagnetScan Tracker)
    (key : List UInt8) {read : List UInt8} (byte : UInt8)
    (room : read.length < magnetBufferSize)
    (last : (i : Int) = inputLen) :
    scanStep trackerNew inputLen i byte (readingValue scan key read) =
      storeParameter trackerNew (readPair scan key (read ++ [byte])) := by
  have notBefore : ¬ (i : Int) < inputLen := by omega
  rw [scanStep, if_neg (readingValue_key scan key read),
    if_neg (fun inside => notBefore inside.2.2), if_pos last]
  simp only [readingValue, readPair, Buffer.store_holding room]

/-- Bytes that each go behind the ones that were read. -/
theorem scanLoop_reads {reading : List UInt8 → MagnetScan Tracker}
    {separator : UInt8}
    (step : ∀ {byte read} {i : Nat}, byte ≠ separator →
      read.length < magnetBufferSize → (i : Int) < inputLen →
        scanStep trackerNew inputLen i byte (reading read) =
          .ok (.success, reading (read ++ [byte])))
    {bytes rest read : List UInt8} {i : Nat} (free : separator ∉ bytes)
    (room : read.length + bytes.length < magnetBufferSize)
    (before : (i + bytes.length : Int) ≤ inputLen)
    (small : inputLen < 2 ^ 31) :
    scanLoop trackerNew inputLen (bytes ++ rest) i (reading read) =
      scanLoop trackerNew inputLen rest (i + bytes.length)
        (reading (read ++ bytes)) := by
  induction bytes generalizing i read with
  | nil =>
      simp
  | cons byte bytes inductionHypothesis =>
      rw [List.length_cons] at room before
      rw [List.mem_cons, not_or] at free
      have round := step (Ne.symm free.1)
        (by omega : read.length < magnetBufferSize)
        (by omega : (i : Int) < inputLen)
      rw [List.cons_append, scanLoop_step trackerNew (by omega) round,
        inductionHypothesis free.2
          (by rw [List.length_append, List.length_singleton]; omega)
          (by omega)]
      rw [List.append_assoc, List.singleton_append, List.length_cons]
      congr 1
      omega

theorem scanLoop_key {bytes rest read : List UInt8} {i : Nat}
    (scan : MagnetScan Tracker) (free : ch '=' ∉ bytes)
    (room : read.length + bytes.length < magnetBufferSize)
    (before : (i + bytes.length : Int) ≤ inputLen)
    (small : inputLen < 2 ^ 31) :
    scanLoop trackerNew inputLen (bytes ++ rest) i (readingKey scan read) =
      scanLoop trackerNew inputLen rest (i + bytes.length)
        (readingKey scan (read ++ bytes)) :=
  scanLoop_reads trackerNew (scanStep_keyByte trackerNew scan) free room
    before small

theorem scanLoop_value {bytes rest key read : List UInt8} {i : Nat}
    (scan : MagnetScan Tracker) (free : ch '&' ∉ bytes)
    (room : read.length + bytes.length < magnetBufferSize)
    (before : (i + bytes.length : Int) ≤ inputLen)
    (small : inputLen < 2 ^ 31) :
    scanLoop trackerNew inputLen (bytes ++ rest) i
        (readingValue scan key read) =
      scanLoop trackerNew inputLen rest (i + bytes.length)
        (readingValue scan key (read ++ bytes)) :=
  scanLoop_reads trackerNew (scanStep_valueByte trackerNew scan key) free
    room before small

end Rounds

/-! ## One parameter -/

section Parameters

variable {trackerNew : CString → Exec Tracker}
  {tracker : CString → Tracker} {inputLen : Int}

/-- The scanner after a parameter. -/
def afterPair (tracker : CString → Tracker) (scan : MagnetScan Tracker)
    (pair : MagnetPair) : MagnetScan Tracker :=
  let calls := scan.calls ++ pairCalls tracker pair
  if pair.key.bytes = text "tr" then
    { scan with
      trackers := (linkedlistAppend scan.trackers (tracker pair.value)).2
      calls }
  else
    { scan with
      hashmap :=
        storeInSlot scan.hashmap (slotOf pair.key) pair.key pair.value.bytes
      calls }

/-- What the buffers hold of a parameter whose two strings fit. -/
theorem readPair_strings (scan : MagnetScan Tracker) {key value : CString}
    (keyShort : key.bytes.length ≤ 255)
    (valueShort : value.bytes.length ≤ 255) :
    CString.ofBytes (readPair scan key.bytes value.bytes).keyBuffer.cells =
        key ∧
      readString (readPair scan key.bytes value.bytes).keyBuffer.cells =
        .ok key ∧
      readString (readPair scan key.bytes value.bytes).valueBuffer.cells =
        .ok value := by
  have keyHeld := @readString_holding key magnetBufferSize
    (Nat.lt_succ_of_le keyShort)
  have valueHeld := @readString_holding value magnetBufferSize
    (Nat.lt_succ_of_le valueShort)
  exact ⟨keyHeld.1, keyHeld.2, valueHeld.2⟩

/-- The buffers behind a parameter that was stored. -/
theorem readPair_cleared (scan : MagnetScan Tracker) {key value : List UInt8}
    (keyShort : key.length ≤ 255) (valueShort : value.length ≤ 255) :
    (readPair scan key value).keyBuffer.clear =
        .holding magnetBufferSize [] ∧
      (readPair scan key value).valueBuffer.clear =
        .holding magnetBufferSize [] :=
  ⟨Buffer.clear_holding (Nat.le_succ_of_le keyShort),
    Buffer.clear_holding (Nat.le_succ_of_le valueShort)⟩

theorem storeParameter_tracker (scan : MagnetScan Tracker)
    {key value : CString} (keyShort : key.bytes.length ≤ 255)
    (valueShort : value.bytes.length ≤ 255)
    (isTracker : key.bytes = text "tr") :
    storeParameter trackerNew (readPair scan key.bytes value.bytes) =
      trackerNew value >>= fun tracker =>
        .ok (.success, readingKey { scan with
          trackers := (linkedlistAppend scan.trackers tracker).2
          calls := scan.calls ++
            [.trackerNew value, .trackersAppend tracker] } []) := by
  rcases readPair_strings scan keyShort valueShort with
    ⟨keyHeld, _, valueRead⟩
  rcases readPair_cleared scan keyShort valueShort with
    ⟨keyCleared, valueCleared⟩
  rw [storeParameter,
    if_neg (by rw [keyHeld]; exact not_not.mpr isTracker), valueRead,
    ok_bind, keyCleared, valueCleared]
  rfl

theorem storeParameter_set (scan : MagnetScan Tracker)
    {key value : CString} (keyShort : key.bytes.length ≤ 255)
    (valueShort : value.bytes.length ≤ 255) (other : key.bytes ≠ text "tr")
    (room : scan.hashmap.bucketCount < maxHashtableKeys) :
    storeParameter trackerNew (readPair scan key.bytes value.bytes) =
      .ok (.success, readingKey { scan with
        hashmap := storeInSlot scan.hashmap (slotOf key) key value.bytes
        calls := scan.calls ++
          [.hashmapSet key value value.strlen] } []) := by
  rcases readPair_strings scan keyShort valueShort with
    ⟨keyHeld, keyRead, valueRead⟩
  rcases readPair_cleared scan keyShort valueShort with
    ⟨keyCleared, valueCleared⟩
  have short : key.bytes.length < 2 ^ 32 := by
    omega
  have stored := hashmapSet_of_room room short value.bytes
  rw [storeParameter, if_pos (by rw [keyHeld]; exact other), valueRead,
    ok_bind, keyRead, ok_bind, keyCleared, valueCleared]
  simp only [readPair, readingValue, stored, ok_bind, pure_exec, readingKey,
    List.length_nil]

theorem storeParameter_full (scan : MagnetScan Tracker)
    {key value : CString} (keyShort : key.bytes.length ≤ 255)
    (valueShort : value.bytes.length ≤ 255) (other : key.bytes ≠ text "tr")
    (full : ¬ scan.hashmap.bucketCount < maxHashtableKeys) :
    ∃ final,
      storeParameter trackerNew (readPair scan key.bytes value.bytes) =
        .ok (.failure, final) ∧
      final.hashmap = scan.hashmap := by
  rcases readPair_strings scan keyShort valueShort with
    ⟨keyHeld, keyRead, valueRead⟩
  have refused : hashmapSet scan.hashmap (some key) (some value.bytes) =
      .ok (.failure, scan.hashmap) :=
    if_neg full
  rw [storeParameter, if_pos (by rw [keyHeld]; exact other), valueRead,
    ok_bind, keyRead, ok_bind]
  simp only [readPair, readingValue, refused, ok_bind, pure_exec]
  exact ⟨_, rfl, rfl⟩

theorem storeParameter_readPair (scan : MagnetScan Tracker)
    (pair : MagnetPair) (room : HasRoom scan.hashmap [pair])
    (answers : pair.key.bytes = text "tr" →
      trackerNew pair.value = .ok (tracker pair.value)) :
    storeParameter trackerNew
        (readPair scan pair.key.bytes pair.value.bytes) =
      .ok (.success, readingKey (afterPair tracker scan pair) []) := by
  by_cases isTracker : pair.key.bytes = text "tr"
  · rw [storeParameter_tracker scan pair.keyShort pair.valueShort isTracker,
      answers isTracker, ok_bind, afterPair, if_pos isTracker, pairCalls,
      if_pos isTracker]
  · rw [HasRoom, if_neg isTracker] at room
    rw [storeParameter_set scan pair.keyShort pair.valueShort isTracker
      room.1, afterPair, if_neg isTracker, pairCalls, if_neg isTracker]

theorem afterPair_calls (scan : MagnetScan Tracker)
    (pairs : List MagnetPair) :
    (pairs.foldl (afterPair tracker) scan).calls =
      scan.calls ++ pairs.flatMap (pairCalls tracker) := by
  induction pairs generalizing scan with
  | nil =>
      simp
  | cons pair rest inductionHypothesis =>
      have one : (afterPair tracker scan pair).calls =
          scan.calls ++ pairCalls tracker pair := by
        unfold afterPair
        split <;> rfl
      rw [List.foldl_cons, inductionHypothesis, one, List.flatMap_cons,
        List.append_assoc]

theorem hasRoom_cons (tracker : CString → Tracker)
    {scan : MagnetScan Tracker} {pair : MagnetPair}
    {rest : List MagnetPair} (room : HasRoom scan.hashmap (pair :: rest)) :
    HasRoom scan.hashmap [pair] ∧
      HasRoom (afterPair tracker scan pair).hashmap rest := by
  by_cases isTracker : pair.key.bytes = text "tr"
  · simp only [HasRoom, if_pos isTracker] at room
    simp only [HasRoom, afterPair, if_pos isTracker, true_and]
    exact room
  · simp only [HasRoom, if_neg isTracker] at room
    simp only [HasRoom, afterPair, if_neg isTracker, and_true]
    exact room

/-- The key of a parameter and its `=`. -/
theorem scanLoop_pair_key (scan : MagnetScan Tracker) (pair : MagnetPair)
    {rest : List UInt8} {i : Nat}
    (before : (i + pair.key.bytes.length : Int) < inputLen)
    (small : inputLen < 2 ^ 31) :
    scanLoop trackerNew inputLen
        (pair.key.bytes ++ ch '=' :: rest) i (readingKey scan []) =
      scanLoop trackerNew inputLen rest (i + pair.key.bytes.length + 1)
        (readingValue scan pair.key.bytes []) := by
  have bound := pair.keyShort
  rw [scanLoop_key trackerNew scan pair.keyFree.1
      (by rw [magnetBufferSize, List.length_nil]; omega) (by omega) small,
    List.nil_append,
    scanLoop_step trackerNew (by omega)
      (scanStep_keyEnd trackerNew scan (by omega))]

theorem scanLoop_pair_inner (scan : MagnetScan Tracker) (pair : MagnetPair)
    {rest : List UInt8} {i : Nat}
    (before : (i + pair.bytes.length : Int) < inputLen)
    (small : inputLen < 2 ^ 31) (room : HasRoom scan.hashmap [pair])
    (answers : pair.key.bytes = text "tr" →
      trackerNew pair.value = .ok (tracker pair.value)) :
    scanLoop trackerNew inputLen (pair.bytes ++ ch '&' :: rest) i
        (readingKey scan []) =
      scanLoop trackerNew inputLen rest (i + pair.bytes.length + 1)
        (readingKey (afterPair tracker scan pair) []) := by
  have bound := pair.valueShort
  have length : pair.bytes.length =
      pair.key.bytes.length + (pair.value.bytes.length + 1) := by
    simp [MagnetPair.bytes]
  rw [length] at before ⊢
  have ended := scanStep_valueEnd trackerNew scan pair.key.bytes
    pair.value.bytes
    (by omega :
      ((i + pair.key.bytes.length + 1 + pair.value.bytes.length : Nat) : Int)
        < inputLen)
  rw [storeParameter_readPair scan pair room answers] at ended
  rw [MagnetPair.bytes, List.append_assoc, List.cons_append,
    scanLoop_pair_key scan pair (by omega) small,
    scanLoop_value trackerNew scan pair.valueFree
      (by rw [magnetBufferSize, List.length_nil]; omega) (by omega) small,
    List.nil_append, scanLoop_step trackerNew (by omega) ended]
  congr 1
  omega

/-- The last parameter, whose value is not empty. -/
theorem scanLoop_pair_last (scan : MagnetScan Tracker) (pair : MagnetPair)
    {i : Nat} (nonempty : pair.value.bytes ≠ [])
    (last : (i + pair.bytes.length - 1 : Int) = inputLen)
    (small : inputLen < 2 ^ 31 - 1) (room : HasRoom scan.hashmap [pair])
    (answers : pair.key.bytes = text "tr" →
      trackerNew pair.value = .ok (tracker pair.value)) :
    scanLoop trackerNew inputLen pair.bytes i (readingKey scan []) =
      .ok (.success, readingKey (afterPair tracker scan pair) []) := by
  have bound := pair.valueShort
  have length : pair.bytes.length =
      pair.key.bytes.length + (pair.value.bytes.length + 1) := by
    simp [MagnetPair.bytes]
  obtain ⟨body, byte, split⟩ :=
    List.eq_nil_or_concat pair.value.bytes |>.resolve_left nonempty
  rw [List.concat_eq_append] at split
  have bodyLength : pair.value.bytes.length = body.length + 1 := by
    rw [split]
    simp
  have bodyFree : ch '&' ∉ body := by
    intro member
    apply pair.valueFree
    rw [split]
    exact List.mem_append_left _ member
  have ended := scanStep_valueLast trackerNew scan pair.key.bytes byte
    (by rw [magnetBufferSize]; omega : body.length < magnetBufferSize)
    (by omega :
      ((i + pair.key.bytes.length + 1 + body.length : Nat) : Int) = inputLen)
  rw [← split, storeParameter_readPair scan pair room answers] at ended
  rw [MagnetPair.bytes, scanLoop_pair_key scan pair (by omega) (by omega),
    split, scanLoop_value trackerNew scan bodyFree
      (by rw [magnetBufferSize, List.length_nil]; omega) (by omega)
      (by omega),
    List.nil_append, scanLoop_step trackerNew (by omega) ended, scanLoop,
    subscript_of_lt (by omega)]
  rfl

theorem serialise_length_pos {pairs : List MagnetPair}
    (nonempty : pairs ≠ []) : 0 < (serialise pairs).length := by
  cases pairs with
  | nil =>
      exact absurd rfl nonempty
  | cons pair rest =>
      cases rest with
      | nil =>
          simp only [serialise, MagnetPair.bytes, List.length_append,
            List.length_cons]
          omega
      | cons next rest =>
          simp only [serialise, MagnetPair.bytes, List.length_append,
            List.length_cons]
          omega

/-- The loop over a serialisation: one round of parameters at a time. -/
theorem scanLoop_serialise (scan : MagnetScan Tracker)
    {pairs : List MagnetPair} {i : Nat} (nonempty : pairs ≠ [])
    (lastValue : (pairs.getLast nonempty).value.bytes ≠ [])
    (last : (i + (serialise pairs).length - 1 : Int) = inputLen)
    (small : inputLen < 2 ^ 31 - 1) (room : HasRoom scan.hashmap pairs)
    (answers : ∀ pair ∈ pairs, pair.key.bytes = text "tr" →
      trackerNew pair.value = .ok (tracker pair.value)) :
    scanLoop trackerNew inputLen (serialise pairs) i (readingKey scan []) =
      .ok (.success,
        readingKey (pairs.foldl (afterPair tracker) scan) []) := by
  induction pairs generalizing scan i with
  | nil =>
      exact absurd rfl nonempty
  | cons pair rest inductionHypothesis =>
      rcases hasRoom_cons tracker room with ⟨here, later⟩
      have answersHere := answers pair List.mem_cons_self
      cases rest with
      | nil =>
          exact scanLoop_pair_last scan pair lastValue last small here
            answersHere
      | cons next rest =>
          rw [serialise, List.length_append, List.length_cons] at last
          have restLength := serialise_length_pos (List.cons_ne_nil next rest)
          have before : (i + pair.bytes.length : Int) < inputLen := by omega
          rw [serialise,
            scanLoop_pair_inner scan pair before (by omega) here answersHere,
            List.foldl_cons]
          exact inductionHypothesis (afterPair tracker scan pair)
            (List.cons_ne_nil _ _) lastValue (by omega) later
            (fun other member => answers other (List.mem_cons_of_mem _ member))

theorem noNul_serialise {pairs : List MagnetPair} :
    0 ∉ serialise pairs := by
  have marks : (0 : UInt8) ≠ ch '=' ∧ (0 : UInt8) ≠ ch '&' := by
    decide
  have one : ∀ pair : MagnetPair, 0 ∉ pair.bytes := by
    intro pair member
    simp only [MagnetPair.bytes, List.mem_append, List.mem_cons, marks,
      false_or] at member
    exact member.elim pair.key.noNul pair.value.noNul
  fun_induction serialise pairs with
  | case1 => simp
  | case2 pair => exact one pair
  | case3 pair next rest inductionHypothesis =>
      simp only [List.mem_append, List.mem_cons, marks, false_or, not_or]
      exact ⟨one pair, inductionHypothesis⟩

theorem scanMagnet_serialise (pairs : List MagnetPair) :
    scanMagnet trackerNew (magnetPrefix ++ serialise pairs) =
      scanLoop trackerNew (toInt32 ((serialise pairs).length - 1))
        (serialise pairs) 0 magnetStart := by
  have behind :
      (magnetPrefix ++ serialise pairs ++ [0]).drop 8 =
        serialise pairs ++ [0] := by
    rw [List.append_assoc]
    exact List.drop_left' rfl
  have found : (CString.ofBytes (serialise pairs ++ [0])).bytes =
      serialise pairs :=
    CString.ofBytes_bytes_append noNul_serialise []
  have terminated : 0 ∈ serialise pairs ++ [0] := by simp
  rw [scanMagnet, behind, readString, if_pos terminated, ok_bind]
  simp only [CString.strlen, found]

end Parameters

/-- The scanner undoes every serialisation whose length an `int` holds. -/
theorem scanMagnet_scansExactly {trackerNew : CString → Exec Tracker}
    {tracker : CString → Tracker} {pairs : List MagnetPair}
    (nonempty : pairs ≠ [])
    (lastValue : (pairs.getLast nonempty).value.bytes ≠ [])
    (size : (serialise pairs).length < 2 ^ 31)
    (room : HasRoom hashmapNew pairs)
    (answers : ∀ pair ∈ pairs, pair.key.bytes = text "tr" →
      trackerNew pair.value = .ok (tracker pair.value)) :
    ScansExactly trackerNew tracker pairs := by
  have positive := serialise_length_pos nonempty
  have inputLen : toInt32 ((serialise pairs).length - 1) =
      (serialise pairs).length - 1 :=
    toInt32_of_range (by omega) (by omega)
  refine ⟨readingKey (pairs.foldl (afterPair tracker) magnetStart) [], ?_, ?_⟩
  · rw [scanMagnet_serialise, inputLen]
    exact scanLoop_serialise magnetStart nonempty lastValue (by omega)
      (by omega) room answers
  · exact afterPair_calls magnetStart pairs

/-- `xt=1` and `tr=u` -/
def pairXt : MagnetPair :=
  ⟨⟨text "xt", by decide⟩, ⟨text "1", by decide⟩, by decide, by decide,
    by decide, by decide⟩

def pairTr : MagnetPair :=
  ⟨⟨text "tr", by decide⟩, ⟨text "u", by decide⟩, by decide, by decide,
    by decide, by decide⟩

theorem scanMagnet_scansExactly_two :
    ScansExactly (fun _ => .ok ()) (fun _ => ()) [pairXt, pairTr] := by
  have notTracker : ¬ pairXt.key.bytes = text "tr" := by decide
  have room : HasRoom hashmapNew [pairXt, pairTr] := by
    rw [HasRoom, if_neg notTracker]
    exact ⟨by decide, trivial⟩
  exact scanMagnet_scansExactly (List.cons_ne_nil _ _) (by decide)
    (by decide) room (fun _ _ _ => rfl)

/-! ## A text that is too long -/

section Long

variable {trackerNew : CString → Exec Tracker} {inputLen : Int}

theorem storeParameter_calls {scan after : MagnetScan Tracker}
    {code : ExitCode}
    (ran : storeParameter trackerNew scan = .ok (code, after)) :
    ∃ more, after.calls = scan.calls ++ more := by
  unfold storeParameter at ran
  split at ran
  · simp only [bind_eq_ok_iff] at ran
    rcases ran with ⟨value, _, key, _, ⟨answer, map⟩, _, ran⟩
    cases answer <;> cases ran <;> exact ⟨_, rfl⟩
  · simp only [bind_eq_ok_iff] at ran
    rcases ran with ⟨address, _, tracker, _, ran⟩
    cases ran
    exact ⟨_, rfl⟩

theorem scanStep_calls {i : Nat} {byte : UInt8}
    {scan after : MagnetScan Tracker} {code : ExitCode}
    (ran : scanStep trackerNew inputLen i byte scan = .ok (code, after)) :
    ∃ more, after.calls = scan.calls ++ more := by
  unfold scanStep at ran
  split at ran
  · split at ran <;> cases ran <;> exact ⟨[], by simp⟩
  · split at ran
    · cases ran
      exact ⟨[], by simp⟩
    · rcases storeParameter_calls ran with ⟨more, grown⟩
      exact ⟨more, grown⟩

theorem scanLoop_calls {bytes : List UInt8} {i : Nat}
    {scan final : MagnetScan Tracker} {code : ExitCode}
    (ran : scanLoop trackerNew inputLen bytes i scan = .ok (code, final)) :
    ∃ more, final.calls = scan.calls ++ more := by
  induction bytes generalizing i scan with
  | nil =>
      simp only [scanLoop, bind_eq_ok_iff] at ran
      rcases ran with ⟨_, _, ran⟩
      cases ran
      exact ⟨[], by simp⟩
  | cons byte rest inductionHypothesis =>
      simp only [scanLoop, bind_eq_ok_iff] at ran
      rcases ran with ⟨_, _, ⟨answer, after⟩, step, ran⟩
      rcases scanStep_calls step with ⟨first, grown⟩
      cases answer with
      | failure =>
          cases ran
          exact ⟨first, grown⟩
      | success =>
          rcases inductionHypothesis ran with ⟨more, later⟩
          exact ⟨first ++ more, by rw [later, grown, List.append_assoc]⟩

/-- The parameter with no bytes, which no serialisation begins with here. -/
def emptyPair : MagnetPair :=
  ⟨⟨[], by decide⟩, ⟨[], by decide⟩, by decide, by decide, by decide,
    by decide⟩

/-- With a negative length the scanner takes the first byte for the end of a
key and the second for the end of a value. -/
theorem scanLoop_of_negative (tracker : CString → Tracker)
    {first second : UInt8} {rest : List UInt8} (negative : inputLen < 0) :
    scanLoop trackerNew inputLen (first :: second :: rest) 0 magnetStart =
      scanLoop trackerNew inputLen rest 2
        (readingKey (afterPair tracker magnetStart emptyPair) []) := by
  have keyEnd : scanStep trackerNew inputLen 0 first magnetStart =
      .ok (.success, readingValue magnetStart [] []) := by
    have notLast : ¬ ((0 : Nat) : Int) = inputLen := by omega
    have notBefore : ¬ ((0 : Nat) : Int) < inputLen := by omega
    have isKey : (magnetStart : MagnetScan Tracker).key = true := rfl
    rw [scanStep, if_pos isKey,
      if_neg (fun inside => notBefore inside.2.2), if_neg notLast]
    rfl
  have valueEnd : scanStep trackerNew inputLen (0 + 1) second
      (readingValue magnetStart [] []) =
        .ok (.success,
          readingKey (afterPair tracker magnetStart emptyPair) []) := by
    have notLast : ¬ ((0 + 1 : Nat) : Int) = inputLen := by omega
    have notBefore : ¬ ((0 + 1 : Nat) : Int) < inputLen := by omega
    have notTracker : ¬ emptyPair.key.bytes = text "tr" := by decide
    rw [scanStep, if_neg (readingValue_key magnetStart [] []),
      if_neg (fun inside => notBefore inside.2.2), if_neg notLast]
    refine storeParameter_readPair magnetStart emptyPair ?_ ?_
    · rw [HasRoom, if_neg notTracker]
      exact ⟨Nat.zero_lt_succ _, trivial⟩
    · exact fun isTracker => absurd isTracker notTracker
  rw [scanLoop_step trackerNew (by omega) keyEnd,
    scanLoop_step trackerNew (by omega) valueEnd]

def pairKV : MagnetPair :=
  ⟨⟨text "k", by decide⟩, ⟨text "v", by decide⟩, by decide, by decide,
    by decide, by decide⟩

theorem serialise_replicate_length (count : Nat) :
    (serialise (List.replicate (count + 1) pairKV)).length =
      4 * count + 3 := by
  induction count with
  | zero =>
      rfl
  | succ count inductionHypothesis =>
      rw [List.replicate_succ, List.replicate_succ, serialise,
        ← List.replicate_succ, List.length_append, List.length_cons,
        inductionHypothesis]
      have length : pairKV.bytes.length = 3 := rfl
      omega

theorem serialise_replicate_cons (count : Nat) :
    ∃ rest, serialise (List.replicate (count + 1) pairKV) =
      ch 'k' :: ch '=' :: rest := by
  cases count with
  | zero => exact ⟨_, rfl⟩
  | succ count => exact ⟨_, rfl⟩

/-- A slot that is in use takes every further store of its key. -/
theorem hasRoom_replicate (count : Nat) {map : Hashmap (List UInt8)}
    (room : map.bucketCount < maxHashtableKeys)
    (used : map.buckets (slotOf pairKV.key) ≠ .null) :
    HasRoom map (List.replicate count pairKV) := by
  have notTracker : ¬ pairKV.key.bytes = text "tr" := by decide
  induction count generalizing map with
  | zero =>
      trivial
  | succ count inductionHypothesis =>
      rw [List.replicate_succ, HasRoom, if_neg notTracker]
      refine ⟨room, ?_⟩
      cases slot : map.buckets (slotOf pairKV.key) with
      | null =>
          exact absurd slot used
      | node key value next =>
          apply inductionHypothesis
          · simp only [storeInSlot, slot]
            exact room
          · simp only [storeInSlot, slot, Function.update_self]
            cases key <;> cases next <;> simp [bucketSet]

theorem hasRoom_replicate_new (count : Nat) :
    HasRoom hashmapNew (List.replicate (count + 1) pairKV) := by
  have notTracker : ¬ pairKV.key.bytes = text "tr" := by decide
  rw [List.replicate_succ, HasRoom, if_neg notTracker]
  refine ⟨Nat.zero_lt_succ _, hasRoom_replicate _ ?_ ?_⟩
  · simp only [storeInSlot, hashmapNew]
    decide
  · simp [storeInSlot, hashmapNew, Bucket.ofEntries]

/-- A length that is negative as an `int` makes `Hashmap_set("", "", 0)` the
first call. -/
theorem not_scansExactly_of_negative (count : Nat)
    (negative : toInt32 ((4 * count + 3 : Nat) - 1) < 0) :
    ¬ ScansExactly (fun _ => .ok ()) (fun _ => ())
      (List.replicate (count + 1) pairKV) := by
  rintro ⟨final, ran, calls⟩
  rcases serialise_replicate_cons count with ⟨rest, shape⟩
  rw [scanMagnet_serialise, serialise_replicate_length, shape,
    scanLoop_of_negative (fun _ => ()) negative] at ran
  rcases scanLoop_calls ran with ⟨more, grown⟩
  rw [calls, List.replicate_succ, List.flatMap_cons] at grown
  have first := (List.cons.inj grown).1
  have keys := (MagnetCall.hashmapSet.inj first).1
  exact absurd keys (by decide)

/-- `2 ^ 30` parameters `k=v`: a text of `2 ^ 32 - 1` bytes. -/
def longLink : List MagnetPair :=
  List.replicate (2 ^ 30) pairKV

theorem scanMagnet_misreads_longLink :
    longLink ≠ [] ∧
      (∀ nonempty, (longLink.getLast nonempty).value.bytes ≠ []) ∧
      HasRoom hashmapNew longLink ∧
      ¬ ScansExactly (fun _ => .ok ()) (fun _ => ()) longLink := by
  -- the count is kept abstract, so that no list of its length is built
  obtain ⟨count, size⟩ : ∃ count, (2 : Nat) ^ 30 = count + 1 :=
    ⟨2 ^ 30 - 1, by omega⟩
  have shape : longLink = List.replicate (count + 1) pairKV :=
    congrArg (List.replicate · pairKV) size
  have wrapped : toInt32 ((4 * count + 3 : Nat) - 1) = -2 := by
    have value : ((4 * count + 3 : Nat) : Int) - 1 = -2 + 2 ^ 32 := by
      omega
    rw [value]
    decide
  rw [shape]
  refine ⟨List.cons_ne_nil _ _, ?_, hasRoom_replicate_new count,
    not_scansExactly_of_negative count (by omega)⟩
  intro nonempty
  rw [List.getLast_replicate]
  decide

end Long

end UvgTorrent
