import UvgTorrent.Torrent.MagnetText

/-!
# The buffers of the magnet scanner

Which stores the scanner makes and which buffers it reads, round by round.
A key that `=` ends and a value may have 255 bytes, and a key at the end of
the text, which is never read, may have 256.
-/

namespace UvgTorrent

open CProgram CText CArray MachineInt

variable {Tracker : Type}

/-- A round of the loop and the state it begins in. -/
structure ScanRound (Tracker : Type) where
  i : Nat
  byte : UInt8
  scan : MagnetScan Tracker

/-- The rounds that a run of the loop begins. -/
def scanRounds (trackerNew : CString → Exec Tracker) (inputLen : Int) :
    List UInt8 → Nat → MagnetScan Tracker → List (ScanRound Tracker)
  | [], _, _ => []
  | byte :: rest, i, scan =>
      if (subscript i).isOk then
        ⟨i, byte, scan⟩ ::
          match scanStep trackerNew inputLen i byte scan with
          | .ok (.success, next) =>
              scanRounds trackerNew inputLen rest (i + 1) next
          | _ => []
      else
        []

/-- No store missed its buffer. -/
def MagnetScan.Inside (scan : MagnetScan Tracker) : Prop :=
  scan.keyBuffer.stray = [] ∧ scan.valueBuffer.stray = []

/-- Both buffers hold a terminator. -/
def MagnetScan.Terminated (scan : MagnetScan Tracker) : Prop :=
  0 ∈ scan.keyBuffer.cells ∧ 0 ∈ scan.valueBuffer.cells

/-- A round stores inside the buffers, hands strings to its call, and ends a
field at a separator or at the end of the text. -/
structure RoundSafe (trackerNew : CString → Exec Tracker) (inputLen : Int)
    (length : Nat) (round : ScanRound Tracker) : Prop where
  ends : ∀ ended,
    endedValue inputLen round.i round.byte round.scan = some ended →
      ended.Inside ∧ ended.Terminated ∧
        (round.byte = ch '&' ∨ round.i + 1 = length)
  goesOn : ∀ next,
    endedValue inputLen round.i round.byte round.scan = none →
      scanStep trackerNew inputLen round.i round.byte round.scan =
        .ok (.success, next) →
      next.Inside ∧ (next.key ≠ round.scan.key →
        round.byte = ch '=' ∨ round.i + 1 = length)

/-- The text behind the first eight bytes of a file. -/
def magnetText (torrentContent : List UInt8) : CString :=
  CString.ofBytes ((torrentContent ++ [0]).drop 8)

theorem readString_magnetText {torrentContent : List UInt8}
    (enough : 8 ≤ torrentContent.length) :
    readString ((torrentContent ++ [0]).drop 8) =
      .ok (magnetText torrentContent) := by
  have terminated : 0 ∈ (torrentContent ++ [0]).drop 8 := by
    rw [List.drop_append_of_le_length enough]
    exact List.mem_append_right _ List.mem_cons_self
  exact if_pos terminated

/-- The text is read inside the file, and every round of its scan is
safe. -/
def ScanStaysInside (trackerNew : CString → Exec Tracker)
    (torrentContent : List UInt8) : Prop :=
  ∃ subString,
    readString ((torrentContent ++ [0]).drop 8) = .ok subString ∧
    ∀ round ∈ scanRounds trackerNew (toInt32 (subString.strlen - 1))
        subString.bytes 0 magnetStart,
      RoundSafe trackerNew (toInt32 (subString.strlen - 1))
        subString.strlen round

/-- The fields that the scan comes to fit: 255 bytes, and another bound for
a key that no value follows. -/
def FieldsFit (trackerNew : CString → Exec Tracker) (openBound : Nat)
    (map : Hashmap (List UInt8)) (fields : MagnetFields) : Prop :=
  (∀ parameter ∈ reached trackerNew map fields.parameters,
    parameter.Short) ∧
  (callsEnd trackerNew map fields.parameters = .ok .success →
    fields.openKey.length ≤ openBound)

section Fit

variable {trackerNew : CString → Exec Tracker} {openBound : Nat}
  {map : Hashmap (List UInt8)} {parameter : Parameter}
  {fields : MagnetFields}

theorem fieldsFit_open (openKey : List UInt8) :
    FieldsFit trackerNew openBound map ⟨[], openKey⟩ ↔
      openKey.length ≤ openBound := by
  constructor
  · intro fit
    exact fit.2 rfl
  · intro short
    exact ⟨fun _ member => absurd member List.not_mem_nil,
      fun _ => short⟩

theorem fieldsFit_short (fit : FieldsFit trackerNew openBound map
    (fields.cons parameter)) : parameter.Short :=
  fit.1 parameter List.mem_cons_self

theorem fieldsFit_cons (stored : storable trackerNew map parameter = true) :
    FieldsFit trackerNew openBound map (fields.cons parameter) ↔
      parameter.Short ∧
        FieldsFit trackerNew openBound (mapBehind map parameter) fields := by
  simp only [FieldsFit, MagnetFields.cons, reached, stored, if_true,
    List.forall_mem_cons, callsEnd_cons stored, and_assoc]

theorem fieldsFit_stopped
    (refused : storable trackerNew map parameter = false) :
    FieldsFit trackerNew openBound map (fields.cons parameter) ↔
      parameter.Short := by
  constructor
  · exact fieldsFit_short
  · intro short
    refine ⟨?_, fun all => absurd all (callsEnd_refused refused _)⟩
    rw [MagnetFields.cons, reached, refused]
    exact (List.forall_mem_singleton).mpr short

theorem fieldsFit_last (parameter : Parameter) :
    FieldsFit trackerNew openBound map ⟨[parameter], []⟩ ↔
      parameter.Short := by
  have single : (⟨[parameter], []⟩ : MagnetFields) =
      MagnetFields.cons parameter ⟨[], []⟩ :=
    rfl
  rw [single]
  cases stored : storable trackerNew map parameter with
  | false =>
      exact fieldsFit_stopped stored
  | true =>
      rw [fieldsFit_cons stored, fieldsFit_open]
      exact and_iff_left (Nat.zero_le _)

/-- The field that is read has more bytes than its buffer. -/
def Reading.Overlong : Reading → Prop
  | .inKey read => 256 < read.length
  | .inValue key read => 255 < key.length ∨ 255 < read.length

/-- Bytes that follow do not make an overlong field shorter. -/
theorem not_fieldsFit_overlong {reading : Reading} {rest : List UInt8}
    (overlong : reading.Overlong) (more : rest ≠ [])
    (bound : openBound ≤ 257) :
    ¬ FieldsFit trackerNew openBound map (readFields reading rest) := by
  fun_induction readFields reading rest with
  | case1 =>
      exact absurd rfl more
  | case2 read last =>
      rw [fieldsFit_open, List.length_append, List.length_singleton]
      rw [Reading.Overlong] at overlong
      omega
  | case3 key read last =>
      intro fit
      have short : Parameter.Short ⟨key, read ++ [last]⟩ :=
        fit.1 _ List.mem_cons_self
      simp only [Parameter.Short, List.length_append,
        List.length_singleton] at short
      rw [Reading.Overlong] at overlong
      omega
  | case4 read next rest inductionHypothesis =>
      exact inductionHypothesis
        (.inl (Nat.lt_of_succ_lt overlong)) (List.cons_ne_nil _ _)
  | case5 read byte next rest notEnd inductionHypothesis =>
      refine inductionHypothesis ?_ (List.cons_ne_nil _ _)
      rw [Reading.Overlong] at overlong ⊢
      rw [List.length_append, List.length_singleton]
      omega
  | case6 key read next rest inductionHypothesis =>
      intro fit
      have short := fieldsFit_short fit
      simp only [Parameter.Short] at short
      rw [Reading.Overlong] at overlong
      omega
  | case7 key read byte next rest notEnd inductionHypothesis =>
      refine inductionHypothesis ?_ (List.cons_ne_nil _ _)
      rw [Reading.Overlong] at overlong ⊢
      rw [List.length_append, List.length_singleton]
      omega

end Fit

/-! ## One round -/

section Rounds

variable {trackerNew : CString → Exec Tracker} {inputLen : Int}
  {length i : Nat} {byte : UInt8} {rest : List UInt8}
  {scan next ended : MagnetScan Tracker}

theorem roundSafe_goesOn
    (goes : endedValue inputLen i byte scan = none)
    (step : scanStep trackerNew inputLen i byte scan =
      .ok (.success, next)) :
    RoundSafe trackerNew inputLen length ⟨i, byte, scan⟩ ↔
      next.Inside ∧
        (next.key ≠ scan.key → byte = ch '=' ∨ i + 1 = length) := by
  constructor
  · intro safe
    exact safe.goesOn next goes step
  · intro facts
    constructor
    · intro other ends
      rw [goes] at ends
      cases ends
    · intro other _ reached
      rw [step] at reached
      cases reached
      exact facts

theorem roundSafe_ends
    (ends : endedValue inputLen i byte scan = some ended) :
    RoundSafe trackerNew inputLen length ⟨i, byte, scan⟩ ↔
      ended.Inside ∧ ended.Terminated ∧
        (byte = ch '&' ∨ i + 1 = length) := by
  constructor
  · intro safe
    exact safe.ends ended ends
  · intro facts
    constructor
    · intro other found
      rw [ends] at found
      cases found
      exact facts
    · intro other goes
      rw [ends] at goes
      cases goes

theorem scanRounds_head (small : i < 2 ^ 31) :
    ⟨i, byte, scan⟩ ∈
      scanRounds trackerNew inputLen (byte :: rest) i scan := by
  rw [scanRounds, subscript_of_lt small]
  exact List.mem_cons_self

theorem scanRounds_next (small : i < 2 ^ 31)
    (step : scanStep trackerNew inputLen i byte scan =
      .ok (.success, next)) :
    scanRounds trackerNew inputLen (byte :: rest) i scan =
      ⟨i, byte, scan⟩ ::
        scanRounds trackerNew inputLen rest (i + 1) next := by
  rw [scanRounds, subscript_of_lt small, step]
  rfl

theorem scanRounds_last (small : i < 2 ^ 31) :
    scanRounds trackerNew inputLen [byte] i scan = [⟨i, byte, scan⟩] := by
  rw [scanRounds, subscript_of_lt small]
  cases scanStep trackerNew inputLen i byte scan with
  | error stop => rfl
  | ok found =>
      rcases found with ⟨code, after⟩
      cases code with
      | failure => rfl
      | success => rfl

theorem scanRounds_only (small : i < 2 ^ 31)
    (stops : ∀ next, scanStep trackerNew inputLen i byte scan ≠
      .ok (.success, next)) :
    scanRounds trackerNew inputLen (byte :: rest) i scan =
      [⟨i, byte, scan⟩] := by
  rw [scanRounds, subscript_of_lt small]
  cases ran : scanStep trackerNew inputLen i byte scan with
  | error stop => rfl
  | ok found =>
      rcases found with ⟨code, after⟩
      cases code with
      | failure => rfl
      | success => exact absurd ran (stops after)

/-- A safe round leaves the question to the rounds behind it. -/
theorem rounds_safe_next (small : i < 2 ^ 31)
    (step : scanStep trackerNew inputLen i byte scan =
      .ok (.success, next))
    (head : RoundSafe trackerNew inputLen length ⟨i, byte, scan⟩) :
    (∀ round ∈ scanRounds trackerNew inputLen (byte :: rest) i scan,
      RoundSafe trackerNew inputLen length round) ↔
    ∀ round ∈ scanRounds trackerNew inputLen rest (i + 1) next,
      RoundSafe trackerNew inputLen length round := by
  rw [scanRounds_next small step, List.forall_mem_cons, and_iff_right head]

end Rounds

/-! ## The run -/

/-- The bytes read of a field, which hold no `NUL` and fit its buffer. -/
def Reading.Fills : Reading → Prop
  | .inKey read => Filling read
  | .inValue key read => Filling key ∧ Filling read

section Run

variable {trackerNew : CString → Exec Tracker} {inputLen : Int}
  {length i : Nat} {byte : UInt8} {key read rest : List UInt8}
  {scan : MagnetScan Tracker}

/-- Stores at the end of what has been read so far. -/
theorem readingKey_inside (scan : MagnetScan Tracker)
    (read : List UInt8) : (readingKey scan read).Inside :=
  ⟨rfl, rfl⟩

theorem readingValue_inside (scan : MagnetScan Tracker)
    (key read : List UInt8) : (readingValue scan key read).Inside :=
  ⟨rfl, rfl⟩

theorem readPair_inside (scan : MagnetScan Tracker)
    (key value : List UInt8) : (readPair scan key value).Inside :=
  ⟨rfl, rfl⟩

theorem readPair_terminated (keyFills : Filling key)
    (valueFills : Filling read) :
    (readPair scan key read).Terminated ↔
      Parameter.Short ⟨key, read⟩ :=
  and_congr keyFills.terminated_iff valueFills.terminated_iff

theorem safe_keyByte (scan : MagnetScan Tracker) (notEnd : byte ≠ ch '=')
    (room : read.length < magnetBufferSize) (before : (i : Int) < inputLen) :
    RoundSafe trackerNew inputLen length ⟨i, byte, readingKey scan read⟩ :=
  (roundSafe_goesOn (endedValue_key scan read)
    (scanStep_keyByte trackerNew scan notEnd room before)).mpr
    ⟨readingKey_inside scan _, fun other => absurd rfl other⟩

theorem safe_keyEnd (scan : MagnetScan Tracker) (read : List UInt8)
    (before : (i : Int) < inputLen) :
    RoundSafe trackerNew inputLen length
      ⟨i, ch '=', readingKey scan read⟩ :=
  (roundSafe_goesOn (endedValue_key scan read)
    (scanStep_keyEnd trackerNew scan before)).mpr
    ⟨readingValue_inside scan read [], fun _ => .inl rfl⟩

theorem safe_valueByte (scan : MagnetScan Tracker) (key : List UInt8)
    (notEnd : byte ≠ ch '&') (room : read.length < magnetBufferSize)
    (before : (i : Int) < inputLen) :
    RoundSafe trackerNew inputLen length
      ⟨i, byte, readingValue scan key read⟩ :=
  (roundSafe_goesOn (endedValue_valueByte scan key notEnd room before)
    (scanStep_valueByte trackerNew scan key notEnd room before)).mpr
    ⟨readingValue_inside scan key _, fun other => absurd rfl other⟩

/-- A key that the end of the text ends, and that nothing reads. -/
theorem safe_keyLast (fills : Filling read) (scan : MagnetScan Tracker)
    (last : (i : Int) = inputLen) (all : i + 1 = length) :
    RoundSafe trackerNew inputLen length ⟨i, byte, readingKey scan read⟩ ↔
      read.length + 1 ≤ 256 := by
  have size : magnetBufferSize = 256 := rfl
  rw [roundSafe_goesOn (endedValue_key scan read)
    (scanStep_keyLast trackerNew scan byte last)]
  have stores := fills.store_stray_iff byte
  constructor
  · intro safe
    have room := stores.mp safe.1.1
    omega
  · intro room
    exact ⟨⟨stores.mpr (by omega), rfl⟩, fun _ => .inr all⟩

theorem safe_valueLast (keyFills : Filling key) (fills : Filling read)
    (notNul : byte ≠ 0) (scan : MagnetScan Tracker)
    (last : (i : Int) = inputLen) (all : i + 1 = length) :
    RoundSafe trackerNew inputLen length
        ⟨i, byte, readingValue scan key read⟩ ↔
      Parameter.Short ⟨key, read ++ [byte]⟩ := by
  rw [roundSafe_ends (endedValue_valueLast scan key byte last)]
  have stores := fills.store_stray_iff byte
  by_cases room : read.length < magnetBufferSize
  · rw [Buffer.store_holding room]
    have terminated := @readPair_terminated _ _ _ scan keyFills
      (fills.snoc room notNul)
    constructor
    · intro safe
      exact terminated.mp safe.2.1
    · intro short
      exact ⟨⟨rfl, rfl⟩, terminated.mpr short, .inr all⟩
  · have long : ¬ Parameter.Short ⟨key, read ++ [byte]⟩ := by
      have size : magnetBufferSize = 256 := rfl
      simp only [Parameter.Short, List.length_append,
        List.length_singleton]
      omega
    exact iff_of_false (fun safe => room (stores.mp safe.1.2)) long

/-- A round that ends a field at another byte than its separator. -/
theorem not_safe_keyFull (scan : MagnetScan Tracker)
    (full : read.length = magnetBufferSize) (before : (i : Int) < inputLen)
    (notEnd : byte ≠ ch '=') (more : i + 1 ≠ length) :
    ¬ RoundSafe trackerNew inputLen length
      ⟨i, byte, readingKey scan read⟩ := by
  rw [roundSafe_goesOn (endedValue_key scan read)
    (scanStep_keyFull trackerNew scan byte full before)]
  intro safe
  have changed : (readingValue scan read []).key ≠
      (readingKey scan read).key :=
    Bool.false_ne_true
  exact (safe.2 changed).elim notEnd more

theorem not_safe_valueFull (scan : MagnetScan Tracker)
    (full : read.length = magnetBufferSize) (before : (i : Int) < inputLen)
    (notEnd : byte ≠ ch '&') (more : i + 1 ≠ length) :
    ¬ RoundSafe trackerNew inputLen length
      ⟨i, byte, readingValue scan key read⟩ := by
  rw [roundSafe_ends (endedValue_valueEnd scan key before (.inr full))]
  intro safe
  exact safe.2.2.elim notEnd more

theorem safe_valueEnd (keyFills : Filling key) (fills : Filling read)
    (scan : MagnetScan Tracker) (before : (i : Int) < inputLen) :
    RoundSafe trackerNew inputLen length
        ⟨i, ch '&', readingValue scan key read⟩ ↔
      Parameter.Short ⟨key, read⟩ := by
  rw [roundSafe_ends (endedValue_valueEnd scan key before (.inl rfl)),
    readPair_terminated keyFills fills]
  constructor
  · intro safe
    exact safe.2.1
  · intro short
    exact ⟨readPair_inside scan key read, short, .inl rfl⟩

/-- A value that an `&` ends decides about its round, and the call for it
about the rounds behind it. -/
theorem rounds_safe_valueEnd {fields : MagnetFields}
    (keyFills : Filling key) (fills : Filling read)
    (scan : MagnetScan Tracker) (small : i < 2 ^ 31)
    (before : (i : Int) < inputLen)
    (further : ∀ after : MagnetScan Tracker,
      (∀ round ∈ scanRounds trackerNew inputLen rest (i + 1)
          (readingKey after []),
        RoundSafe trackerNew inputLen length round) ↔
      FieldsFit trackerNew 256 after.hashmap fields) :
    (∀ round ∈ scanRounds trackerNew inputLen (ch '&' :: rest) i
        (readingValue scan key read),
      RoundSafe trackerNew inputLen length round) ↔
    FieldsFit trackerNew 256 scan.hashmap (fields.cons ⟨key, read⟩) := by
  have head := @safe_valueEnd _ trackerNew inputLen length i key read
    keyFills fills scan before
  have step := scanStep_valueEnd trackerNew scan key read before
  by_cases short : Parameter.Short ⟨key, read⟩
  · cases stored : storable trackerNew scan.hashmap ⟨key, read⟩ with
    | true =>
        rcases storeParameter_storable keyFills.noNul fills.noNul short
          stored with ⟨after, done, hashmap⟩
        rw [done] at step
        rw [rounds_safe_next small step (head.mpr short), further after,
          hashmap, fieldsFit_cons stored, and_iff_right short]
    | false =>
        have stops : ∀ after, scanStep trackerNew inputLen i (ch '&')
            (readingValue scan key read) ≠ .ok (.success, after) := by
          intro after reached
          rw [step] at reached
          rcases storeParameter_notStorable keyFills.noNul fills.noNul
            short stored [] with ⟨_, final, done⟩ | ⟨stop, _, done⟩
          · rw [done] at reached
            cases reached
          · rw [done] at reached
            cases reached
        rw [scanRounds_only small stops, List.forall_mem_singleton, head,
          fieldsFit_stopped stored]
  · refine iff_of_false (fun safe => ?_)
      (fun fit => short (fieldsFit_short fit))
    exact short (head.mp (safe _ (scanRounds_head small)))

/-- Every round from a field on is safe when what is left of the text holds
fields that fit, and only then. -/
theorem rounds_safe_iff {reading : Reading} (fills : reading.Fills)
    (noNul : 0 ∉ rest) (all : i + rest.length = length)
    (last : inputLen = length - 1) (size : length ≤ 2 ^ 31)
    (scan : MagnetScan Tracker) :
    (∀ round ∈ scanRounds trackerNew inputLen rest i (reading.scan scan),
      RoundSafe trackerNew inputLen length round) ↔
    FieldsFit trackerNew 256 scan.hashmap (readFields reading rest) := by
  have capacity : magnetBufferSize = 256 := rfl
  fun_induction readFields reading rest generalizing i scan with
  | case1 reading =>
      rw [fieldsFit_open]
      exact iff_of_true (fun _ member => absurd member List.not_mem_nil)
        (Nat.zero_le _)
  | case2 read byte =>
      rw [List.length_singleton] at all
      rw [scanRounds_last (by omega), List.forall_mem_singleton,
        fieldsFit_open, List.length_append, List.length_singleton]
      exact safe_keyLast fills scan (by omega) all
  | case3 key read byte =>
      rw [List.length_singleton] at all
      rw [List.mem_singleton] at noNul
      rw [scanRounds_last (by omega), List.forall_mem_singleton,
        fieldsFit_last]
      exact safe_valueLast fills.1 fills.2 (Ne.symm noNul) scan (by omega)
        all
  | case4 read next rest inductionHypothesis =>
      rw [List.mem_cons, not_or] at noNul
      rw [List.length_cons, List.length_cons] at all
      have before : (i : Int) < inputLen := by omega
      rw [Reading.scan, rounds_safe_next (by omega)
        (scanStep_keyEnd trackerNew scan before)
        (safe_keyEnd scan read before)]
      exact inductionHypothesis ⟨fills, Filling.nil⟩ noNul.2
        (by rw [List.length_cons]; omega) scan
  | case5 read byte next rest notEnd inductionHypothesis =>
      rw [List.mem_cons, not_or] at noNul
      rw [List.length_cons, List.length_cons] at all
      have before : (i : Int) < inputLen := by omega
      by_cases room : read.length < magnetBufferSize
      · rw [Reading.scan, rounds_safe_next (by omega)
          (scanStep_keyByte trackerNew scan notEnd room before)
          (safe_keyByte scan notEnd room before)]
        exact inductionHypothesis (Filling.snoc fills room (Ne.symm noNul.1))
          noNul.2 (by rw [List.length_cons]; omega) scan
      · have full := Filling.full fills room
        refine iff_of_false (fun safe => ?_)
          (not_fieldsFit_overlong (overlong_snoc full byte)
            (List.cons_ne_nil _ _) (by omega))
        exact not_safe_keyFull scan full before notEnd (by omega)
          (safe _ (scanRounds_head (by omega)))
  | case6 key read next rest inductionHypothesis =>
      rw [List.mem_cons, not_or] at noNul
      rw [List.length_cons, List.length_cons] at all
      exact rounds_safe_valueEnd fills.1 fills.2 scan (by omega) (by omega)
        (inductionHypothesis Filling.nil noNul.2
          (by rw [List.length_cons]; omega))
  | case7 key read byte next rest notEnd inductionHypothesis =>
      rw [List.mem_cons, not_or] at noNul
      rw [List.length_cons, List.length_cons] at all
      have before : (i : Int) < inputLen := by omega
      by_cases room : read.length < magnetBufferSize
      · rw [Reading.scan, rounds_safe_next (by omega)
          (scanStep_valueByte trackerNew scan key notEnd room before)
          (safe_valueByte scan key notEnd room before)]
        exact inductionHypothesis
          ⟨fills.1, Filling.snoc fills.2 room (Ne.symm noNul.1)⟩ noNul.2
          (by rw [List.length_cons]; omega) scan
      · have full := fills.2.full room
        have long := overlong_snoc full byte
        refine iff_of_false (fun safe => ?_)
          (not_fieldsFit_overlong (.inr (Nat.lt_of_succ_lt long))
            (List.cons_ne_nil _ _) (by omega))
        exact not_safe_valueFull scan full before notEnd (by omega)
          (safe _ (scanRounds_head (by omega)))

end Run

/-! ## Files -/

section Files

variable {trackerNew : CString → Exec Tracker}
  {torrentContent : List UInt8}

theorem scanStaysInside_iff_fits (enough : 8 ≤ torrentContent.length)
    (size : (magnetText torrentContent).strlen ≤ 2 ^ 31) :
    ScanStaysInside trackerNew torrentContent ↔
      FieldsFit trackerNew 256 hashmapNew
        (magnetFields (magnetText torrentContent).bytes) := by
  have last : toInt32 ((magnetText torrentContent).strlen - 1) =
      (magnetText torrentContent).strlen - 1 :=
    toInt32_of_range (by omega) (by omega)
  have rounds := @rounds_safe_iff _ trackerNew _ _ _ _ (.inKey [])
    Filling.nil (magnetText torrentContent).noNul
    (Nat.zero_add _) last size magnetStart
  constructor
  · intro inside
    rcases inside with ⟨subString, found, safe⟩
    rw [readString_magnetText enough] at found
    cases found
    exact rounds.mp safe
  · intro fit
    exact ⟨_, readString_magnetText enough, rounds.mpr fit⟩

/-- A file whose text an `int` can count is scanned inside the buffers when
its fields fit.  For such texts the condition is exact. -/
theorem scanMagnet_staysInside (trackerNew : CString → Exec Tracker)
    (enough : 8 ≤ torrentContent.length) :
    ((magnetText torrentContent).strlen ≤ 2 ^ 31 ∧
        FieldsFit trackerNew 256 hashmapNew
          (magnetFields (magnetText torrentContent).bytes) →
      ScanStaysInside trackerNew torrentContent) ∧
    ((magnetText torrentContent).strlen ≤ 2 ^ 31 →
      ScanStaysInside trackerNew torrentContent →
      FieldsFit trackerNew 256 hashmapNew
        (magnetFields (magnetText torrentContent).bytes)) := by
  constructor
  · intro fit
    exact (scanStaysInside_iff_fits enough fit.1).mpr fit.2
  · intro size safe
    exact (scanStaysInside_iff_fits enough size).mp safe

theorem scanMagnet_staysInside_two :
    ScanStaysInside (fun _ => .ok ()) (text "magnet:?xt=1&dn=n") := by
  have found : magnetText (text "magnet:?xt=1&dn=n") =
      ⟨text "xt=1&dn=n", by decide⟩ := by
    decide
  have fields : magnetFields (text "xt=1&dn=n") =
      MagnetFields.cons ⟨text "xt", text "1"⟩
        ⟨[⟨text "dn", text "n"⟩], []⟩ := by
    decide
  refine (scanMagnet_staysInside (fun _ => .ok ()) (by decide)).1 ?_
  rw [found]
  refine ⟨by decide, ?_⟩
  rw [fields, fieldsFit_cons (by decide), fieldsFit_last]
  simp only [Parameter.Short]
  decide

/-- `xt=` and a number of letters. -/
def lettersMagnet (count : Nat) : List UInt8 :=
  magnetPrefix ++ (text "xt=" ++ List.replicate count (ch 'a'))

theorem lettersMagnet_text (count : Nat) :
    (magnetText (lettersMagnet count)).bytes =
      text "xt=" ++ List.replicate count (ch 'a') := by
  have noNul : 0 ∉ text "xt=" ++ List.replicate count (ch 'a') := by
    rw [List.mem_append, not_or]
    refine ⟨by decide, fun member => ?_⟩
    exact absurd (List.eq_of_mem_replicate member) (by decide)
  have skipped : (lettersMagnet count ++ [0]).drop 8 =
      text "xt=" ++ List.replicate count (ch 'a') ++ [0] := by
    rw [lettersMagnet, List.append_assoc]
    exact List.drop_left' rfl
  rw [magnetText, skipped]
  exact CString.ofBytes_bytes_append noNul []

theorem lettersMagnet_fields (count : Nat) :
    magnetFields (text "xt=" ++ List.replicate (count + 1) (ch 'a')) =
      readFields (.inValue (text "xt") (List.replicate count (ch 'a')))
        [ch 'a'] := by
  have free : ch '&' ∉ List.replicate count (ch 'a') := by
    intro member
    exact absurd (List.eq_of_mem_replicate member) (by decide)
  have behindKey : magnetFields
      (text "xt=" ++ List.replicate (count + 1) (ch 'a')) =
        readFields (.inValue (text "xt") [])
          (List.replicate (count + 1) (ch 'a')) :=
    rfl
  rw [behindKey, List.replicate_succ',
    readFields_value (text "xt") [] free (List.cons_ne_nil _ _),
    List.nil_append]

/-- The last of 257 letters goes behind the buffer. -/
theorem scanMagnet_leavesBuffer :
    8 ≤ (lettersMagnet 257).length ∧
      ¬ ScanStaysInside (fun _ => .ok ()) (lettersMagnet 257) := by
  have enough : ∀ count, 8 ≤ (lettersMagnet count).length := by
    intro count
    rw [lettersMagnet, List.length_append]
    exact Nat.le_add_right 8 _
  have size : (magnetText (lettersMagnet 257)).strlen = 260 := by
    rw [CString.strlen, lettersMagnet_text, List.length_append,
      List.length_replicate]
    rfl
  refine ⟨enough 257, ?_⟩
  rw [scanStaysInside_iff_fits (enough 257) (by omega),
    lettersMagnet_text, lettersMagnet_fields]
  refine not_fieldsFit_overlong (.inr ?_) (List.cons_ne_nil _ _) (by omega)
  rw [List.length_replicate]
  decide

end Files

end UvgTorrent
