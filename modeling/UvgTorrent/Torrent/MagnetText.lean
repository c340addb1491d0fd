import UvgTorrent.Torrent.MagnetInverse
import UvgTorrent.Torrent.Parse

/-!
# The fields of a magnet text

What the scanner takes for keys and values, told from the text alone: a key
ends at the first `=` and a value at the first `&`, and the last byte belongs
to the field it is met in, whatever it is.  The lengths of the buffers play
no part in it.
-/

namespace UvgTorrent

open CProgram CText CArray MachineInt

/-- A field that is being read: a key, or the value of a key. -/
inductive Reading where
  | inKey (read : List UInt8)
  | inValue (key read : List UInt8)
  deriving DecidableEq, Repr

structure Parameter where
  key : List UInt8
  value : List UInt8
  deriving DecidableEq, Repr

/-- The parameters of a text, and the bytes of a key that no value
follows. -/
structure MagnetFields where
  parameters : List Parameter
  openKey : List UInt8
  deriving DecidableEq, Repr

def MagnetFields.cons (parameter : Parameter) (fields : MagnetFields) :
    MagnetFields :=
  { fields with parameters := parameter :: fields.parameters }

/-- The fields of what is left of a text. -/
def readFields : Reading → List UInt8 → MagnetFields
  | _, [] => ⟨[], []⟩
  | .inKey read, [last] => ⟨[], read ++ [last]⟩
  | .inValue key read, [last] => ⟨[⟨key, read ++ [last]⟩], []⟩
  | .inKey read, byte :: next :: rest =>
      if byte = ch '=' then
        readFields (.inValue read []) (next :: rest)
      else
        readFields (.inKey (read ++ [byte])) (next :: rest)
  | .inValue key read, byte :: next :: rest =>
      if byte = ch '&' then
        (readFields (.inKey []) (next :: rest)).cons ⟨key, read⟩
      else
        readFields (.inValue key (read ++ [byte])) (next :: rest)

def magnetFields (text : List UInt8) : MagnetFields :=
  readFields (.inKey []) text

example : magnetFields (text "xt=1&tr=u&dn") =
    ⟨[⟨text "xt", text "1"⟩, ⟨text "tr", text "u"⟩], text "dn"⟩ := by
  decide

/-- Bytes that are no separator prolong the field they are met in. -/
theorem readFields_value {bytes rest : List UInt8} (key read : List UInt8)
    (free : ch '&' ∉ bytes) (more : rest ≠ []) :
    readFields (.inValue key read) (bytes ++ rest) =
      readFields (.inValue key (read ++ bytes)) rest := by
  induction bytes generalizing read with
  | nil =>
      rw [List.nil_append, List.append_nil]
  | cons byte bytes inductionHypothesis =>
      rw [List.mem_cons, not_or] at free
      have notEnd : ¬ byte = ch '&' := Ne.symm free.1
      rcases List.exists_cons_of_ne_nil
        (List.append_ne_nil_of_right_ne_nil bytes more) with
        ⟨next, others, behind⟩
      rw [List.cons_append, behind, readFields, if_neg notEnd, ← behind,
        inductionHypothesis _ free.2, List.append_assoc,
        List.singleton_append]

/-- No `NUL` has been read. -/
def Reading.NoNul : Reading → Prop
  | .inKey read => 0 ∉ read
  | .inValue key read => 0 ∉ key ∧ 0 ∉ read

theorem readFields_noNul {reading : Reading} {rest : List UInt8}
    (free : reading.NoNul) (restFree : 0 ∉ rest) :
    ∀ parameter ∈ (readFields reading rest).parameters,
      0 ∉ parameter.key ∧ 0 ∉ parameter.value := by
  have snoc : ∀ {read : List UInt8} {byte : UInt8},
      0 ∉ read → 0 ≠ byte → 0 ∉ read ++ [byte] := by
    intro read byte readFree notNul
    rw [List.mem_append, List.mem_singleton, not_or]
    exact ⟨readFree, notNul⟩
  fun_induction readFields reading rest with
  | case1 reading =>
      exact fun _ member => absurd member List.not_mem_nil
  | case2 read byte =>
      exact fun _ member => absurd member List.not_mem_nil
  | case3 key read byte =>
      rw [List.mem_singleton] at restFree
      rw [List.forall_mem_singleton]
      exact ⟨free.1, snoc free.2 restFree⟩
  | case4 read next rest inductionHypothesis =>
      rw [List.mem_cons, not_or] at restFree
      exact inductionHypothesis ⟨free, List.not_mem_nil⟩ restFree.2
  | case5 read byte next rest notEnd inductionHypothesis =>
      rw [List.mem_cons, not_or] at restFree
      exact inductionHypothesis (snoc free restFree.1) restFree.2
  | case6 key read next rest inductionHypothesis =>
      rw [List.mem_cons, not_or] at restFree
      rw [MagnetFields.cons, List.forall_mem_cons]
      exact ⟨free, inductionHypothesis List.not_mem_nil restFree.2⟩
  | case7 key read byte next rest notEnd inductionHypothesis =>
      rw [List.mem_cons, not_or] at restFree
      exact inductionHypothesis ⟨free.1, snoc free.2 restFree.1⟩
        restFree.2

theorem magnetFields_noNul {text : List UInt8} (textFree : 0 ∉ text) :
    ∀ parameter ∈ (magnetFields text).parameters,
      0 ∉ parameter.key ∧ 0 ∉ parameter.value :=
  @readFields_noNul (.inKey []) text List.not_mem_nil textFree

/-- The first parameter, when a value is read. -/
theorem readFields_inValue {rest : List UInt8} (key read : List UInt8)
    (more : rest ≠ []) :
    ∃ value others openKey,
      readFields (.inValue key read) rest =
        ⟨⟨key, value⟩ :: others, openKey⟩ ∧ read <+: value := by
  induction rest generalizing read with
  | nil =>
      exact absurd rfl more
  | cons byte rest inductionHypothesis =>
      cases rest with
      | nil =>
          exact ⟨read ++ [byte], [], [], rfl, List.prefix_append _ _⟩
      | cons next rest =>
          by_cases isEnd : byte = ch '&'
          · rw [readFields, if_pos isEnd]
            exact ⟨read, _, _, rfl, List.prefix_refl _⟩
          · rw [readFields, if_neg isEnd]
            rcases inductionHypothesis (read ++ [byte])
              (List.cons_ne_nil _ _) with
              ⟨value, others, openKey, fields, front⟩
            exact ⟨value, others, openKey, fields,
              (List.prefix_append _ _).trans front⟩

/-- The first parameter, or the key without one, when a key is read. -/
theorem readFields_inKey {rest : List UInt8} (read : List UInt8)
    (more : rest ≠ []) :
    (∃ key value others openKey,
      readFields (.inKey read) rest =
        ⟨⟨key, value⟩ :: others, openKey⟩ ∧ read <+: key) ∨
    (∃ openKey,
      readFields (.inKey read) rest = ⟨[], openKey⟩ ∧ read <+: openKey ∧
        read.length < openKey.length) := by
  induction rest generalizing read with
  | nil =>
      exact absurd rfl more
  | cons byte rest inductionHypothesis =>
      cases rest with
      | nil =>
          refine .inr ⟨read ++ [byte], rfl, List.prefix_append _ _, ?_⟩
          rw [List.length_append, List.length_singleton]
          exact Nat.lt_succ_self _
      | cons next rest =>
          by_cases isEnd : byte = ch '='
          · rw [readFields, if_pos isEnd]
            rcases readFields_inValue read [] (List.cons_ne_nil next rest)
              with ⟨value, others, openKey, fields, _⟩
            exact .inl ⟨read, value, others, openKey, fields,
              List.prefix_refl _⟩
          · rw [readFields, if_neg isEnd]
            have longer : read <+: read ++ [byte] :=
              List.prefix_append _ _
            rcases inductionHypothesis (read ++ [byte])
              (List.cons_ne_nil _ _) with
              ⟨key, value, others, openKey, fields, front⟩ |
              ⟨openKey, fields, front, size⟩
            · exact .inl ⟨key, value, others, openKey, fields,
                longer.trans front⟩
            · exact .inr ⟨openKey, fields, longer.trans front,
                Nat.lt_of_le_of_lt longer.length_le size⟩

/-! ## Storing them -/

variable {Tracker : Type}

/-- The call for a parameter succeeds: `Tracker_new` returns, or the map has
room. -/
def storable (trackerNew : CString → Exec Tracker)
    (map : Hashmap (List UInt8)) (parameter : Parameter) : Bool :=
  if parameter.key = text "tr" then
    (trackerNew (CString.ofBytes parameter.value)).isOk
  else
    map.bucketCount < maxHashtableKeys

/-- The map behind the call for a parameter. -/
def mapBehind (map : Hashmap (List UInt8)) (parameter : Parameter) :
    Hashmap (List UInt8) :=
  if parameter.key = text "tr" then
    map
  else
    storeInSlot map (slotOf (CString.ofBytes parameter.key))
      (CString.ofBytes parameter.key) parameter.value

/-- The parameters up to the first one that cannot be stored. -/
def reached (trackerNew : CString → Exec Tracker) :
    Hashmap (List UInt8) → List Parameter → List Parameter
  | _, [] => []
  | map, parameter :: rest =>
      parameter ::
        if storable trackerNew map parameter then
          reached trackerNew (mapBehind map parameter) rest
        else
          []

theorem mem_of_reached {trackerNew : CString → Exec Tracker}
    {map : Hashmap (List UInt8)} {parameters : List Parameter}
    {parameter : Parameter}
    (member : parameter ∈ reached trackerNew map parameters) :
    parameter ∈ parameters := by
  induction parameters generalizing map with
  | nil =>
      exact member
  | cons first rest inductionHypothesis =>
      rw [reached, List.mem_cons] at member
      rcases member with isFirst | later
      · rw [isFirst]
        exact List.mem_cons_self
      · split at later
        · exact List.mem_cons_of_mem _ (inductionHypothesis later)
        · exact absurd later List.not_mem_nil

/-- How the calls for the parameters end: all of them succeed, the map has
no room, or `Tracker_new` stops. -/
def callsEnd (trackerNew : CString → Exec Tracker) :
    Hashmap (List UInt8) → List Parameter → Exec ExitCode
  | _, [] => .ok .success
  | map, parameter :: rest =>
      if parameter.key = text "tr" then
        match trackerNew (CString.ofBytes parameter.value) with
        | .ok _ => callsEnd trackerNew map rest
        | .error stop => .error stop
      else if map.bucketCount < maxHashtableKeys then
        callsEnd trackerNew (mapBehind map parameter) rest
      else
        .ok .failure

theorem callsEnd_cons {trackerNew : CString → Exec Tracker}
    {map : Hashmap (List UInt8)} {parameter : Parameter}
    (stored : storable trackerNew map parameter = true)
    (rest : List Parameter) :
    callsEnd trackerNew map (parameter :: rest) =
      callsEnd trackerNew (mapBehind map parameter) rest := by
  rw [storable] at stored
  rw [callsEnd]
  by_cases isTracker : parameter.key = text "tr"
  · rw [if_pos isTracker] at stored ⊢
    rw [mapBehind, if_pos isTracker]
    cases made : trackerNew (CString.ofBytes parameter.value) with
    | error stop =>
        rw [made] at stored
        cases stored
    | ok tracker => rfl
  · rw [if_neg isTracker, decide_eq_true_eq] at stored
    rw [if_neg isTracker, if_pos stored]

/-- The key and the value fit into their buffers with a terminator. -/
def Parameter.Short (parameter : Parameter) : Prop :=
  parameter.key.length ≤ 255 ∧ parameter.value.length ≤ 255

section Stores

variable {trackerNew : CString → Exec Tracker} {scan : MagnetScan Tracker}
  {map : Hashmap (List UInt8)} {parameter : Parameter}
  {key value : List UInt8}

theorem storeParameter_storable (keyFree : 0 ∉ key) (valueFree : 0 ∉ value)
    (short : Parameter.Short ⟨key, value⟩)
    (stored : storable trackerNew scan.hashmap ⟨key, value⟩ = true) :
    ∃ next : MagnetScan Tracker,
      storeParameter trackerNew (readPair scan key value) =
        .ok (.success, readingKey next []) ∧
      next.hashmap = mapBehind scan.hashmap ⟨key, value⟩ := by
  rw [storable, CString.ofBytes_noNul valueFree] at stored
  rw [mapBehind, CString.ofBytes_noNul keyFree]
  by_cases isTracker : key = text "tr"
  · rw [if_pos isTracker] at stored ⊢
    rw [@storeParameter_tracker _ trackerNew scan ⟨key, keyFree⟩
      ⟨value, valueFree⟩ short.1 short.2 isTracker]
    cases made : trackerNew ⟨value, valueFree⟩ with
    | error stop =>
        rw [made] at stored
        cases stored
    | ok tracker =>
        exact ⟨_, rfl, rfl⟩
  · rw [if_neg isTracker, decide_eq_true_eq] at stored
    rw [if_neg isTracker]
    exact ⟨_, @storeParameter_set _ trackerNew scan ⟨key, keyFree⟩
      ⟨value, valueFree⟩ short.1 short.2 isTracker stored, rfl⟩

/-- The call fails, or `Tracker_new` stops the run. -/
theorem storeParameter_notStorable (keyFree : 0 ∉ key)
    (valueFree : 0 ∉ value) (short : Parameter.Short ⟨key, value⟩)
    (refused : storable trackerNew scan.hashmap ⟨key, value⟩ = false)
    (rest : List Parameter) :
    (callsEnd trackerNew scan.hashmap (⟨key, value⟩ :: rest) =
        .ok .failure ∧
      ∃ final, storeParameter trackerNew (readPair scan key value) =
        .ok (.failure, final)) ∨
    (∃ stop,
      callsEnd trackerNew scan.hashmap (⟨key, value⟩ :: rest) =
        .error stop ∧
      storeParameter trackerNew (readPair scan key value) =
        .error stop) := by
  rw [storable, CString.ofBytes_noNul valueFree] at refused
  rw [callsEnd, CString.ofBytes_noNul valueFree]
  by_cases isTracker : key = text "tr"
  · rw [if_pos isTracker] at refused ⊢
    rw [@storeParameter_tracker _ trackerNew scan ⟨key, keyFree⟩
      ⟨value, valueFree⟩ short.1 short.2 isTracker]
    cases made : trackerNew ⟨value, valueFree⟩ with
    | error stop =>
        exact .inr ⟨stop, rfl, rfl⟩
    | ok tracker =>
        rw [made] at refused
        cases refused
  · rw [if_neg isTracker, decide_eq_false_iff_not] at refused
    rw [if_neg isTracker, if_neg refused]
    rcases @storeParameter_full _ trackerNew scan ⟨key, keyFree⟩
      ⟨value, valueFree⟩ short.1 short.2 isTracker refused with
      ⟨final, done, _⟩
    exact .inl ⟨rfl, final, done⟩

theorem callsEnd_refused
    (refused : storable trackerNew map parameter = false)
    (rest : List Parameter) :
    callsEnd trackerNew map (parameter :: rest) ≠ .ok .success := by
  rw [storable] at refused
  rw [callsEnd]
  by_cases isTracker : parameter.key = text "tr"
  · rw [if_pos isTracker] at refused ⊢
    cases made : trackerNew (CString.ofBytes parameter.value) with
    | error stop =>
        intro same
        cases same
    | ok tracker =>
        rw [made] at refused
        cases refused
  · rw [if_neg isTracker, decide_eq_false_iff_not] at refused
    rw [if_neg isTracker, if_neg refused]
    intro same
    cases same

end Stores

/-! ## The state of the scanner -/

/-- The scanner while it reads a field. -/
def Reading.scan (scan : MagnetScan Tracker) : Reading → MagnetScan Tracker
  | .inKey read => readingKey scan read
  | .inValue key read => readingValue scan key read

section Rounds

variable (trackerNew : CString → Exec Tracker) {inputLen : Int} {i : Nat}
  {read : List UInt8} {byte : UInt8}

/-- The last byte of a text goes into the key, wherever the key ends. -/
theorem scanStep_keyLast (scan : MagnetScan Tracker) (byte : UInt8)
    (last : (i : Int) = inputLen) :
    scanStep trackerNew inputLen i byte (readingKey scan read) =
      .ok (.success, { readingValue scan read [] with
        keyBuffer := (Buffer.holding magnetBufferSize read).store
          read.length byte }) := by
  have notBefore : ¬ (i : Int) < inputLen := by omega
  rw [scanStep, if_pos (readingKey_key scan read),
    if_neg (fun inside => notBefore inside.2.2), if_pos last]
  rfl

/-- A key that fills its buffer ends before the next byte. -/
theorem scanStep_keyFull (scan : MagnetScan Tracker) (byte : UInt8)
    (full : read.length = magnetBufferSize) (before : (i : Int) < inputLen) :
    scanStep trackerNew inputLen i byte (readingKey scan read) =
      .ok (.success, readingValue scan read []) := by
  have notLast : ¬ (i : Int) = inputLen := by omega
  have size : magnetBufferSize = 256 := rfl
  have noRoom : ¬ (readingKey scan read).strPos < 256 := by
    show ¬ read.length < 256
    omega
  rw [scanStep, if_pos (readingKey_key scan read),
    if_neg (fun inside => noRoom inside.2.1), if_neg notLast]
  rfl

theorem endedValue_key (scan : MagnetScan Tracker) (read : List UInt8) :
    endedValue inputLen i byte (readingKey scan read) = none :=
  if_pos (readingKey_key scan read)

theorem endedValue_valueByte (scan : MagnetScan Tracker)
    (key : List UInt8) (notEnd : byte ≠ ch '&')
    (room : read.length < magnetBufferSize) (before : (i : Int) < inputLen) :
    endedValue inputLen i byte (readingValue scan key read) = none := by
  rw [endedValue, if_neg (readingValue_key scan key read),
    if_pos ⟨notEnd, room, before⟩]

/-- A value ends at an `&`, and when it fills its buffer. -/
theorem endedValue_valueEnd (scan : MagnetScan Tracker)
    (key : List UInt8) (before : (i : Int) < inputLen)
    (ends : byte = ch '&' ∨ read.length = magnetBufferSize) :
    endedValue inputLen i byte (readingValue scan key read) =
      some (readPair scan key read) := by
  have notLast : ¬ (i : Int) = inputLen := by omega
  have stops : ¬ (byte ≠ ch '&' ∧
      (readingValue scan key read).strPos < 256 ∧ (i : Int) < inputLen) := by
    intro inside
    rcases ends with isEnd | full
    · exact inside.1 isEnd
    · have room : read.length < magnetBufferSize := inside.2.1
      omega
  rw [endedValue, if_neg (readingValue_key scan key read), if_neg stops,
    if_neg notLast]
  rfl

theorem endedValue_valueLast (scan : MagnetScan Tracker)
    (key : List UInt8) (byte : UInt8) (last : (i : Int) = inputLen) :
    endedValue inputLen i byte (readingValue scan key read) =
      some { readPair scan key read with
        valueBuffer := (Buffer.holding magnetBufferSize read).store
          read.length byte } := by
  have notBefore : ¬ (i : Int) < inputLen := by omega
  rw [endedValue, if_neg (readingValue_key scan key read),
    if_neg (fun inside => notBefore inside.2.2), if_pos last]
  rfl

end Rounds

/-- A string fits its buffer, up to the last cell. -/
structure Filling (read : List UInt8) : Prop where
  noNul : 0 ∉ read
  fits : read.length ≤ magnetBufferSize

section Filling

variable {read : List UInt8} {byte : UInt8}

theorem Filling.nil : Filling [] :=
  ⟨List.not_mem_nil, Nat.zero_le _⟩

theorem Filling.snoc (filling : Filling read)
    (room : read.length < magnetBufferSize) (notNul : byte ≠ 0) :
    Filling (read ++ [byte]) where
  noNul := by
    simp [filling.noNul, notNul.symm]
  fits := by
    rw [List.length_append, List.length_singleton]
    omega

theorem Filling.full (filling : Filling read)
    (tight : ¬ read.length < magnetBufferSize) :
    read.length = magnetBufferSize :=
  Nat.le_antisymm filling.fits (Nat.not_lt.mp tight)

/-- A byte behind a full buffer makes its string too long. -/
theorem overlong_snoc (full : read.length = magnetBufferSize)
    (byte : UInt8) : 256 < (read ++ [byte]).length := by
  have capacity : magnetBufferSize = 256 := rfl
  rw [List.length_append, List.length_singleton]
  omega

/-- The first 256 bytes of a string that has filled its buffer. -/
theorem take_full (full : read.length = magnetBufferSize)
    (byte : UInt8) : (read ++ [byte]).take 256 = read :=
  List.take_left' full

theorem Filling.length_cells (filling : Filling read) :
    (Buffer.holding magnetBufferSize read).cells.length =
      magnetBufferSize :=
  Buffer.holding_length filling.fits

/-- There is a terminator behind the string unless it fills the buffer. -/
theorem Filling.terminated_iff (filling : Filling read) :
    0 ∈ (Buffer.holding magnetBufferSize read).cells ↔
      read.length ≤ 255 := by
  have size : magnetBufferSize = 256 := rfl
  have bound := filling.fits
  simp only [Buffer.holding, Buffer.ofCells, List.mem_append,
    filling.noNul, List.mem_replicate, false_or, and_true]
  omega

/-- A store at the end of a full buffer misses it. -/
theorem Filling.store_stray_iff (filling : Filling read) (byte : UInt8) :
    ((Buffer.holding magnetBufferSize read).store read.length
        byte).stray = [] ↔ read.length < magnetBufferSize := by
  by_cases room : read.length < magnetBufferSize
  · rw [Buffer.store_holding room]
    exact iff_of_true rfl room
  · rw [Buffer.store_of_le (by rw [filling.length_cells]; omega)]
    exact iff_of_false (List.cons_ne_nil _ _) room

end Filling

end UvgTorrent
