import UvgTorrent.Torrent.MagnetSeparators
import UvgTorrent.Torrent.ParseEnds

/-!
# The parameters that a parse keeps

What is in the map of `Torrent_parse` when its loop is left, by the text of
the file: the parameters in front of the first call that fails, trackers
apart.  The map can be destroyed when no two of them share a slot.
-/

namespace UvgTorrent

open CProgram CText CArray MachineInt

variable {Tracker : Type}

/-- What the parameters store, up to a call that fails: the copy of a tracker
is not allocated, or the map has no room.  `count` trackers came before. -/
def keptEntriesOf (nodeGranted : Nat → Bool) :
    Nat → Hashmap (List UInt8) → List Parameter →
      List (CString × List UInt8)
  | _, _, [] => []
  | count, map, parameter :: rest =>
      if parameter.key = text "tr" then
        if nodeGranted count then
          keptEntriesOf nodeGranted (count + 1) map rest
        else
          []
      else if map.bucketCount < maxHashtableKeys then
        (CString.ofBytes parameter.key, parameter.value) ::
          keptEntriesOf nodeGranted count (mapBehind map parameter) rest
      else
        []

/-- Whatever a run of the loop answers is good. -/
structure LoopAnswers (world : ParseWorld Tracker) (inputLen : Int)
    (bytes : List UInt8) (i : Nat) (scan : MagnetScan Tracker)
    (good : ExitCode × MagnetScan Tracker → Prop) : Prop where
  answers : AnswersWith (parseLoop world inputLen bytes i scan) good

/-! ## One round -/

section Rounds

variable {world : ParseWorld Tracker} {inputLen : Int} {i : Nat}
  {byte : UInt8} {rest : List UInt8} {scan next ended : MagnetScan Tracker}
  {good : ExitCode × MagnetScan Tracker → Prop}

theorem LoopAnswers.goesOn
    (goes : endedValue inputLen i byte scan = none)
    (step : scanStep world.trackerNew inputLen i byte scan =
      .ok (.success, next))
    (behind : LoopAnswers world inputLen rest (i + 1) next good) :
    LoopAnswers world inputLen (byte :: rest) i scan good := by
  have stepped : parseStep world inputLen i byte scan =
      pure (.success, next) := by
    rw [parseStep, goes]
    show liftExec (scanStep world.trackerNew inputLen i byte scan) = _
    rw [step]
    rfl
  constructor
  rw [parseLoop, stepped]
  -- nothing is said about a run that stops at its index
  generalize subscript i = inside
  apply (AnswersWith.any _).bind
  intro _ _
  rw [pure_bind]
  exact behind.answers

/-- The call at the end of a value answers, and the loop goes on behind a
call that succeeds. -/
theorem LoopAnswers.valueEnd {called : ExitCode × MagnetScan Tracker → Prop}
    (ends : endedValue inputLen i byte scan = some ended)
    (calls : AnswersWith (parseParameter world ended) called)
    (failed : ∀ next, called (.failure, next) → good (.failure, next))
    (behind : ∀ next, called (.success, next) →
      LoopAnswers world inputLen rest (i + 1) next good) :
    LoopAnswers world inputLen (byte :: rest) i scan good := by
  have stepped : parseStep world inputLen i byte scan =
      parseParameter world ended := by
    rw [parseStep, ends]
  constructor
  rw [parseLoop, stepped]
  generalize subscript i = inside
  apply (AnswersWith.any _).bind
  intro _ _
  apply calls.bind
  rintro ⟨code, next⟩ answered
  cases code with
  | failure => exact .pure (failed next answered)
  | success => exact (behind next answered).answers

/-- No call returns that is handed a buffer without a terminator. -/
theorem parseParameter_unterminated
    (size : ended.keyBuffer.cells.length = magnetBufferSize)
    (missing : ¬ ended.Terminated) :
    AnswersWith (parseParameter world ended) fun _ => False := by
  rw [parseParameter]
  by_cases other : (CString.ofBytes ended.keyBuffer.cells).bytes ≠ text "tr"
  · rw [if_pos other, storeParameter_unterminated size missing]
    exact .stop _
  · have value : 0 ∉ ended.valueBuffer.cells := by
      intro value
      have key : 0 ∉ ended.keyBuffer.cells := fun key =>
        missing ⟨key, value⟩
      rw [CString.ofBytes_noNul key, not_not] at other
      have cells : ended.keyBuffer.cells = text "tr" := other
      rw [cells] at size
      exact absurd size (by decide)
    rw [if_neg other, readString, if_neg value]
    exact (AnswersWith.stop _).bind fun _ never => never

theorem LoopAnswers.unterminated
    (ends : endedValue inputLen i byte scan = some ended)
    (size : ended.keyBuffer.cells.length = magnetBufferSize)
    (missing : ¬ ended.Terminated) :
    LoopAnswers world inputLen (byte :: rest) i scan good :=
  .valueEnd ends (parseParameter_unterminated size missing)
    (fun _ never => never.elim) fun _ never => never.elim

theorem LoopAnswers.nil
    (holds : good (.success, scan)) :
    LoopAnswers world inputLen [] i scan good := by
  constructor
  rw [parseLoop]
  generalize subscript i = inside
  apply (AnswersWith.any _).bind
  intro _ _
  exact .pure holds

end Rounds

/-! ## A parameter -/

/-- What the call for a parameter comes to: the map is as it was and nothing
more is kept, or the entries of the parameter are in it. -/
inductive ParameterKept (nodeGranted : Nat → Bool)
    (scan : MagnetScan Tracker) (history : List (CString × List UInt8))
    (parameter : Parameter) : ExitCode × MagnetScan Tracker → Prop
  | failed {next : MagnetScan Tracker}
      (holds : ChainsHold history next.hashmap)
      (nothing : ∀ rest, keptEntriesOf nodeGranted
        scan.trackers.values.length scan.hashmap (parameter :: rest) = []) :
      ParameterKept nodeGranted scan history parameter (.failure, next)
  | stored {after : MagnetScan Tracker}
      (entries : List (CString × List UInt8))
      (holds : ChainsHold (history ++ entries) after.hashmap)
      (kept : ∀ rest, keptEntriesOf nodeGranted
        scan.trackers.values.length scan.hashmap (parameter :: rest) =
          entries ++ keptEntriesOf nodeGranted
            after.trackers.values.length after.hashmap rest) :
      ParameterKept nodeGranted scan history parameter
        (.success, readingKey after [])

section Parameters

variable {world : ParseWorld Tracker} {key value : List UInt8}
  {scan : MagnetScan Tracker} {history : List (CString × List UInt8)}

theorem parseParameter_tracker {key value : CString}
    (keyShort : key.bytes.length ≤ 255)
    (valueShort : value.bytes.length ≤ 255)
    (isTracker : key.bytes = text "tr")
    (holds : ChainsHold history scan.hashmap) :
    AnswersWith (parseParameter world (readPair scan key.bytes value.bytes))
      (ParameterKept world.nodeGranted scan history
        ⟨key.bytes, value.bytes⟩) := by
  rcases readPair_strings scan keyShort valueShort with
    ⟨keyHeld, _, valueRead⟩
  rcases readPair_cleared scan keyShort valueShort with
    ⟨keyCleared, valueCleared⟩
  have other : ¬ (CString.ofBytes
      (readPair scan key.bytes value.bytes).keyBuffer.cells).bytes ≠
        text "tr" := by
    rw [keyHeld, not_not]
    exact isTracker
  rw [parseParameter, if_neg other, valueRead]
  apply AnswersWith.bind (.liftExec fun _ same => Except.ok.inj same)
  rintro _ rfl
  apply AnswersWith.bind (AnswersWith.any _)
  intro tracker _
  apply AnswersWith.bind (AnswersWith.any _)
  intro _ _
  cases granted : world.nodeGranted scan.trackers.values.length with
  | false =>
      simp only [readPair, readingValue, granted, linkedlistAppendOn,
        Bool.false_eq_true, if_false]
      apply AnswersWith.pure
      refine .failed holds fun rest => ?_
      rw [keptEntriesOf, if_pos isTracker, granted]
      rfl
  | true =>
      simp only [readPair, readingValue, granted, linkedlistAppendOn,
        if_true, linkedlistAppend]
      apply AnswersWith.bind (AnswersWith.any _)
      intro _ _
      apply AnswersWith.bind (AnswersWith.any _)
      intro _ _
      apply AnswersWith.bind (AnswersWith.any _)
      intro _ _
      apply AnswersWith.bind (AnswersWith.any _)
      intro _ _
      apply AnswersWith.pure
      have kept : ParameterKept world.nodeGranted scan history
          ⟨key.bytes, value.bytes⟩ (.success, readingKey { scan with
            trackers := (linkedlistAppend scan.trackers tracker).2
            calls := scan.calls ++
              [.trackerNew value, .trackersAppend tracker] } []) := by
        refine .stored [] (by rw [List.append_nil]; exact holds)
          fun rest => ?_
        rw [keptEntriesOf, if_pos isTracker, if_pos granted,
          List.nil_append, linkedlistAppend, List.length_append,
          List.length_singleton]
      simp only [readPair, readingValue] at keyCleared valueCleared
      rw [keyCleared, valueCleared]
      exact kept

theorem parseParameter_set {key value : CString}
    (keyShort : key.bytes.length ≤ 255)
    (valueShort : value.bytes.length ≤ 255) (other : key.bytes ≠ text "tr")
    (holds : ChainsHold history scan.hashmap) :
    AnswersWith (parseParameter world (readPair scan key.bytes value.bytes))
      (ParameterKept world.nodeGranted scan history
        ⟨key.bytes, value.bytes⟩) := by
  rcases readPair_strings scan keyShort valueShort with ⟨keyHeld, _, _⟩
  rw [parseParameter, if_pos (by rw [keyHeld]; exact other)]
  apply AnswersWith.liftExec
  intro answer stored
  by_cases room : scan.hashmap.bucketCount < maxHashtableKeys
  · rw [storeParameter_set scan keyShort valueShort other room] at stored
    cases stored
    refine .stored [(key, value.bytes)] (chainsHold_store holds _ _)
      fun rest => ?_
    rw [keptEntriesOf, if_neg other, if_pos room, mapBehind, if_neg other,
      CString.ofBytes_noNul key.noNul]
    rfl
  · rcases @storeParameter_full _ world.trackerNew scan key value keyShort
      valueShort other room with ⟨final, ran, same⟩
    cases ran.symm.trans stored
    rw [← same] at holds
    refine .failed holds fun rest => ?_
    rw [keptEntriesOf, if_neg other, if_neg room]

theorem parseParameter_keeps (keyFills : Filling key)
    (valueFills : Filling value) (short : Parameter.Short ⟨key, value⟩)
    (holds : ChainsHold history scan.hashmap) :
    AnswersWith (parseParameter world (readPair scan key value))
      (ParameterKept world.nodeGranted scan history ⟨key, value⟩) := by
  by_cases isTracker : key = text "tr"
  · exact @parseParameter_tracker _ world scan history ⟨key, keyFills.noNul⟩
      ⟨value, valueFills.noNul⟩ short.1 short.2 isTracker holds
  · exact @parseParameter_set _ world scan history ⟨key, keyFills.noNul⟩
      ⟨value, valueFills.noNul⟩ short.1 short.2 isTracker holds

end Parameters

/-! ## The run -/

/-- The map of an answer holds a history and what the parameters store. -/
def Keeps (world : ParseWorld Tracker) (scan : MagnetScan Tracker)
    (history : List (CString × List UInt8)) (parameters : List Parameter)
    (answer : ExitCode × MagnetScan Tracker) : Prop :=
  ChainsHold (history ++ keptEntriesOf world.nodeGranted
    scan.trackers.values.length scan.hashmap parameters) answer.2.hashmap

section Run

variable {world : ParseWorld Tracker} {inputLen : Int} {length i : Nat}
  {byte : UInt8} {key value read rest : List UInt8}
  {history : List (CString × List UInt8)}

theorem keeps_nothing {scan final : MagnetScan Tracker}
    (holds : ChainsHold history final.hashmap) :
    Keeps world scan history [] (.success, final) := by
  rw [Keeps, keptEntriesOf, List.append_nil]
  exact holds

/-- The value of a parameter ends. -/
theorem LoopAnswers.pairEnd {parameters : List Parameter}
    (keyFills : Filling key) (valueFills : Filling value)
    (scan : MagnetScan Tracker)
    (ends : endedValue inputLen i byte (readingValue scan key read) =
      some (readPair scan key value))
    (holds : ChainsHold history scan.hashmap)
    (further : ∀ {more} (after : MagnetScan Tracker),
      ChainsHold more after.hashmap →
        LoopAnswers world inputLen rest (i + 1) (readingKey after [])
          (Keeps world after more parameters)) :
    LoopAnswers world inputLen (byte :: rest) i (readingValue scan key read)
      (Keeps world scan history (⟨key, value⟩ :: parameters)) := by
  by_cases short : Parameter.Short ⟨key, value⟩
  · refine .valueEnd ends
      (parseParameter_keeps keyFills valueFills short holds) ?_ ?_
    · rintro next called
      cases called with
      | failed held nothing =>
          rw [Keeps, nothing, List.append_nil]
          exact held
    · rintro next called
      cases called with
      | stored entries held kept =>
          have behind := further _ held
          constructor
          refine Contract.weaken behind.answers ?_ fun _ stopped => stopped
          intro answer _ keeps
          rw [Keeps, List.append_assoc] at keeps
          rw [Keeps, kept]
          exact keeps
  · exact .unterminated ends keyFills.length_cells fun terminated =>
      short ((readPair_terminated keyFills valueFills).mp terminated)

/-- A value ends, and one of its two buffers is full. -/
theorem LoopAnswers.overrun {good : ExitCode × MagnetScan Tracker → Prop}
    (keyFills : Filling key) (fills : Filling read)
    (scan : MagnetScan Tracker)
    (stops : ¬ (byte ≠ ch '&' ∧ read.length < 256 ∧ (i : Int) < inputLen))
    (full : key.length = magnetBufferSize ∨
      read.length = magnetBufferSize) :
    LoopAnswers world inputLen (byte :: rest) i (readingValue scan key read)
      good := by
  rcases @endedValue_stops _ inputLen i byte key read scan fills stops with
    ⟨ended, ends, keyBuffer, valueCells⟩
  refine .unterminated ends ?_ ?_
  · rw [keyBuffer]
    exact keyFills.length_cells
  · intro terminated
    rcases full with full | full
    · have inKey := terminated.1
      rw [keyBuffer, Filling.cells_full full] at inKey
      exact keyFills.noNul inKey
    · have inValue := terminated.2
      rw [valueCells full] at inValue
      exact fills.noNul inValue

/-- Behind a key that fills its buffer no run returns. -/
theorem LoopAnswers.keyOverrun
    {good : ExitCode × MagnetScan Tracker → Prop}
    (keyFills : Filling key) (fills : Filling read) (noNul : 0 ∉ rest)
    (all : i + rest.length = length) (last : inputLen = length - 1)
    (more : rest ≠ []) (scan : MagnetScan Tracker)
    (full : key.length = magnetBufferSize) :
    LoopAnswers world inputLen rest i (readingValue scan key read) good := by
  induction rest generalizing i read with
  | nil =>
      exact absurd rfl more
  | cons byte rest inductionHypothesis =>
      rw [List.mem_cons, not_or] at noNul
      rw [List.length_cons] at all
      by_cases inside :
          byte ≠ ch '&' ∧ read.length < 256 ∧ (i : Int) < inputLen
      · rcases inside with ⟨notEnd, room, before⟩
        refine .goesOn
          (endedValue_valueByte scan key notEnd room before)
          (scanStep_valueByte world.trackerNew scan key notEnd room before)
          (inductionHypothesis (fills.snoc room (Ne.symm noNul.1)) noNul.2
            (by omega) ?_)
        intro nothing
        rw [nothing, List.length_nil] at all
        omega
      · exact .overrun keyFills fills scan inside (.inl full)

/-- What the run of the loop from a field on keeps of the text. -/
theorem parseLoop_keeps {reading : Reading} (fills : reading.Fills)
    (noNul : 0 ∉ rest) (all : i + rest.length = length)
    (last : inputLen = length - 1) (scan : MagnetScan Tracker)
    (holds : ChainsHold history scan.hashmap) :
    LoopAnswers world inputLen rest i (reading.scan scan)
      (Keeps world scan history (readFields reading rest).parameters) := by
  fun_induction readFields reading rest generalizing i scan history with
  | case1 reading =>
      cases reading with
      | inKey read => exact .nil (keeps_nothing holds)
      | inValue key read => exact .nil (keeps_nothing holds)
  | case2 read byte =>
      rw [List.length_singleton] at all
      exact .goesOn (endedValue_key scan read)
        (scanStep_keyLast world.trackerNew scan byte (by omega))
        (.nil (keeps_nothing holds))
  | case3 key read byte =>
      rw [List.length_singleton] at all
      rw [List.mem_singleton] at noNul
      have atLast : (i : Int) = inputLen := by omega
      by_cases room : read.length < magnetBufferSize
      · have longer := fills.2.snoc room (Ne.symm noNul)
        have ends := @endedValue_valueLast _ _ _ read scan key byte atLast
        rw [Buffer.store_holding room] at ends
        refine .pairEnd fills.1 longer scan ends holds ?_
        intro more after held
        apply LoopAnswers.nil
        rw [Keeps, keptEntriesOf, List.append_nil]
        exact held
      · exact .overrun fills.1 fills.2 scan (fun inside => room inside.2.1)
          (.inr (fills.2.full room))
  | case4 read next rest inductionHypothesis =>
      rw [List.mem_cons, not_or] at noNul
      rw [List.length_cons, List.length_cons] at all
      have before : (i : Int) < inputLen := by omega
      exact .goesOn (endedValue_key scan read)
        (scanStep_keyEnd world.trackerNew scan before)
        (inductionHypothesis ⟨fills, Filling.nil⟩ noNul.2
          (by rw [List.length_cons]; omega) scan holds)
  | case5 read byte next rest notEnd inductionHypothesis =>
      rw [List.mem_cons, not_or] at noNul
      rw [List.length_cons, List.length_cons] at all
      have before : (i : Int) < inputLen := by omega
      by_cases room : read.length < magnetBufferSize
      · exact .goesOn (endedValue_key scan read)
          (scanStep_keyByte world.trackerNew scan notEnd room before)
          (inductionHypothesis
            (Filling.snoc fills room (Ne.symm noNul.1)) noNul.2
            (by rw [List.length_cons]; omega) scan holds)
      · exact .goesOn (endedValue_key scan read)
          (scanStep_keyFull world.trackerNew scan byte
            (Filling.full fills room) before)
          (.keyOverrun fills Filling.nil noNul.2
            (by rw [List.length_cons]; omega) last (List.cons_ne_nil _ _)
            scan (Filling.full fills room))
  | case6 key read next rest inductionHypothesis =>
      rw [List.mem_cons, not_or] at noNul
      rw [List.length_cons, List.length_cons] at all
      have ends := @endedValue_valueEnd _ inputLen i read (ch '&') scan key
        (by omega) (.inl rfl)
      refine .pairEnd fills.1 fills.2 scan ends holds ?_
      intro more after held
      exact inductionHypothesis Filling.nil noNul.2
        (by rw [List.length_cons]; omega) after held
  | case7 key read byte next rest notEnd inductionHypothesis =>
      rw [List.mem_cons, not_or] at noNul
      rw [List.length_cons, List.length_cons] at all
      have before : (i : Int) < inputLen := by omega
      by_cases room : read.length < magnetBufferSize
      · exact .goesOn
          (endedValue_valueByte scan key notEnd room before)
          (scanStep_valueByte world.trackerNew scan key notEnd room before)
          (inductionHypothesis
            ⟨fills.1, Filling.snoc fills.2 room (Ne.symm noNul.1)⟩ noNul.2
            (by rw [List.length_cons]; omega) scan holds)
      · exact .overrun fills.1 fills.2 scan (fun inside => room inside.2.1)
          (.inr (fills.2.full room))

end Run

/-! ## Files -/

/-- What `fread` leaves in the block for a file: the bytes that it delivers,
and behind them what was there before. -/
def ParseWorld.torrentContent (world : ParseWorld Tracker)
    (bytes : List UInt8) : List UInt8 :=
  bytes.take world.delivered ++
    (world.content.block bytes.length).cells.drop
      (bytes.take world.delivered).length

def SameHashmap (state after : Parsing Tracker) : Prop :=
  after.hashmap = state.hashmap

/-- The parameters of a file that are in the map when the loop is left. -/
def ParseWorld.keptEntries (world : ParseWorld Tracker)
    (torrentContent : List UInt8) : List (CString × List UInt8) :=
  keptEntriesOf world.nodeGranted 0 hashmapNew
    (fileFields torrentContent).parameters

section Files

variable {world : ParseWorld Tracker} {depth : Nat} {ended : ParseEnd}
  {state after : Parsing Tracker} {torrentContent : List UInt8}

theorem parseNameAndHash_hashmap {map : Hashmap (List UInt8)}
    (ran : (parseNameAndHash world depth map).from state =
      (.ok ended, after)) : after.hashmap = state.hashmap := by
  have lifts : ∀ {α : Type} (run : Exec α),
      Preserves (SameHashmap state) (fun _ => True) (liftExec run) :=
    fun run => .liftExec (fun _ _ => trivial) run
  have creates : ∀ thing,
      Preserves (SameHashmap state) (fun _ => True) (create thing) :=
    fun _ _ same => same
  have updates : ∀ change,
      Preserves (SameHashmap state) (fun _ => True) (updateTorrent change) :=
    fun _ _ same => same
  have keeps : Preserves (SameHashmap state) (fun _ => True)
      (parseNameAndHash world depth map) := by
    apply Preserves.bind (lifts _)
    intro dn
    apply Preserves.bind (lifts _)
    intro name
    apply Preserves.bind (creates _)
    intro _
    apply Preserves.bind (updates _)
    intro _
    apply Preserves.bind (lifts _)
    intro xt
    split
    · apply Preserves.bind (creates _)
      intro _
      apply Preserves.bind (updates _)
      intro _
      exact .pure _
    · exact .pure _
  have reached := keeps state rfl
  rw [ran] at reached
  exact reached

theorem file_keeps
    (size : (magnetText torrentContent).strlen ≤ 2 ^ 31) :
    LoopAnswers world
      (toInt32 ((magnetText torrentContent).strlen - 1))
      (magnetText torrentContent).bytes 0 magnetStart
      (Keeps world magnetStart [] (fileFields torrentContent).parameters) := by
  have last : toInt32 ((magnetText torrentContent).strlen - 1) =
      (magnetText torrentContent).strlen - 1 :=
    toInt32_of_range (by omega) (by omega)
  exact @parseLoop_keeps _ world _ _ 0 _ [] (.inKey []) Filling.nil
    (magnetText torrentContent).noNul (Nat.zero_add _) last magnetStart
    fun _ => rfl

/-- Where the text is parsed, `hashmap` points to what the text keeps. -/
theorem parseMagnet_keeps
    (size : (magnetText torrentContent).strlen ≤ 2 ^ 31)
    (ran : (parseMagnet world depth torrentContent).from state =
      (.ok ended, after)) :
    ∃ map, after.hashmap = .made map ∧
      ChainsHold (world.keptEntries torrentContent) map := by
  rw [parseMagnet] at ran
  cases read : readString ((torrentContent ++ [0]).drop 8) with
  | error stop =>
      rw [read] at ran
      cases ran
  | ok subString =>
      have isText : subString = magnetText torrentContent := by
        rw [readString] at read
        split at read
        · exact (Except.ok.inj read).symm
        · cases read
      subst isText
      rw [read, bind_from_ok (liftExec_from (.ok _) _), bind_from] at ran
      have answered := (@file_keeps _ world _ size).answers state trivial
      cases looped : (parseLoop world
          (toInt32 ((magnetText torrentContent).strlen - 1))
          (magnetText torrentContent).bytes 0 magnetStart).from state with
      | mk answer reached =>
          rw [looped] at ran answered
          cases answer with
          | error stop => cases ran
          | ok found =>
              rcases found with ⟨code, scan⟩
              have held : ChainsHold (world.keptEntries torrentContent)
                  scan.hashmap :=
                answered
              simp only [] at ran
              rw [bind_from_ok (modifyState_from _ _)] at ran
              cases code with
              | failure =>
                  cases ran
                  exact ⟨scan.hashmap, rfl, held⟩
              | success =>
                  exact ⟨scan.hashmap, parseNameAndHash_hashmap ran, held⟩

theorem parseContent_keeps
    (size : (magnetText torrentContent).strlen ≤ 2 ^ 31)
    (late : ended.early = false)
    (ran : (parseContent world depth torrentContent).from state =
      (.ok ended, after)) :
    ∃ map, after.hashmap = .made map ∧
      ChainsHold (world.keptEntries torrentContent) map := by
  rw [parseContent, bind_from_ok (modifyState_from _ _)] at ran
  cases hashmapGranted : world.hashmapGranted with
  | false =>
      rw [hashmapGranted] at ran
      cases ran
      cases late
  | true =>
      cases trackersGranted : world.trackersGranted with
      | false =>
          simp only [hashmapGranted, trackersGranted, if_true, if_false,
            Bool.false_eq_true, create, bind_from, modifyState_from,
            pure_from] at ran
          cases ran
          cases late
      | true =>
          simp only [hashmapGranted, trackersGranted, if_true, create,
            updateTorrent, bind_from, modifyState_from] at ran
          exact parseMagnet_keeps size ran

/-- What the body keeps of the file, where it does not end early. -/
theorem torrentParseBody_keeps {path : CString} {bytes : List UInt8}
    (file : world.file = some bytes)
    (size : (magnetText (world.torrentContent bytes)).strlen ≤ 2 ^ 31)
    (late : ended.early = false)
    (ran : (torrentParseBody world depth).from (parsingStart world path) =
      (.ok ended, after)) :
    ∃ map, after.hashmap = .made map ∧
      ChainsHold (world.keptEntries (world.torrentContent bytes)) map := by
  have inside : 0 + (bytes.take world.delivered).length ≤
      (world.content.block bytes.length).cells.length := by
    rw [Nat.zero_add, Surroundings.block_length]
    exact List.length_take_le' _ _
  have copied := Buffer.copyIn_of_le inside
  rw [List.take_zero, List.nil_append, Nat.zero_add] at copied
  rw [torrentParseBody, file] at ran
  cases contentGranted : world.contentGranted with
  | false =>
      simp only [contentGranted, create, bind_from, modifyState_from,
        if_false, Bool.false_eq_true, pure_from] at ran
      cases ran
      cases late
  | true =>
      simp only [contentGranted, create, bind_from, modifyState_from,
        if_true] at ran
      by_cases nothing : bytes.take world.delivered = []
      · rw [if_pos nothing] at ran
        cases ran
        cases late
      · rw [if_neg nothing, copied, bind_from_ok (liftExec_from (.ok _) _)]
          at ran
        exact parseContent_keeps size late ran

end Files

end UvgTorrent
