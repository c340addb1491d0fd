import UvgTorrent.Torrent.MagnetBounds

/-!
# What a scan passes on and how it ends

While the fields fit, the scan passes on the parameters of the text and ends
as their calls do.  The first field that does not fit is passed on with the
256 bytes that its buffer holds, and the run reads past that buffer.
-/

namespace UvgTorrent

open CProgram CText CArray MachineInt

variable {Tracker : Type}

/-- The key and the value that a call is made for.  A buffer without a
terminator counts with all of its bytes. -/
def MagnetScan.passed (ended : MagnetScan Tracker) : CString × CString :=
  (CString.ofBytes ended.keyBuffer.cells,
    CString.ofBytes ended.valueBuffer.cells)

/-- The keys and values that a run of the loop makes calls for. -/
def scanPasses (trackerNew : CString → Exec Tracker) (inputLen : Int)
    (bytes : List UInt8) (i : Nat) (scan : MagnetScan Tracker) :
    List (CString × CString) :=
  (scanRounds trackerNew inputLen bytes i scan).filterMap fun round =>
    (endedValue inputLen round.i round.byte round.scan).map
      MagnetScan.passed

def Parameter.strings (parameter : Parameter) : CString × CString :=
  (CString.ofBytes parameter.key, CString.ofBytes parameter.value)

/-- A field of the text that does not fit, and what is passed on of it. -/
def MagnetFields.Overruns (trackerNew : CString → Exec Tracker)
    (map : Hashmap (List UInt8)) (fields : MagnetFields)
    (passed : CString × CString) : Prop :=
  (∃ parameter ∈ reached trackerNew map fields.parameters,
    (256 ≤ parameter.key.length ∧
      passed.1.bytes = parameter.key.take 256) ∨
    (256 ≤ parameter.value.length ∧
      passed.2.bytes = parameter.value.take 256)) ∨
  (callsEnd trackerNew map fields.parameters = .ok .success ∧
    258 ≤ fields.openKey.length ∧
      passed.1.bytes = fields.openKey.take 256)

theorem MagnetFields.Overruns.cons {trackerNew : CString → Exec Tracker}
    {map : Hashmap (List UInt8)} {parameter : Parameter}
    {fields : MagnetFields} {passed : CString × CString}
    (stored : storable trackerNew map parameter = true)
    (overruns : fields.Overruns trackerNew (mapBehind map parameter)
      passed) :
    (fields.cons parameter).Overruns trackerNew map passed := by
  rcases overruns with ⟨other, member, long⟩ | ⟨all, long⟩
  · refine .inl ⟨other, ?_, long⟩
    rw [MagnetFields.cons, reached, if_pos stored]
    exact List.mem_cons_of_mem _ member
  · refine .inr ⟨?_, long⟩
    rw [MagnetFields.cons, callsEnd_cons stored]
    exact all

/-- The map behind the calls for the parameters. -/
def mapBehindAll (map : Hashmap (List UInt8))
    (parameters : List Parameter) : Hashmap (List UInt8) :=
  parameters.foldl mapBehind map

/-- A run whose fields fit ends as its calls do. -/
def EndsAs (trackerNew : CString → Exec Tracker)
    (map : Hashmap (List UInt8)) (parameters : List Parameter)
    (run : Exec (ExitCode × MagnetScan Tracker)) : Prop :=
  match callsEnd trackerNew map parameters with
  | .ok .success => ∃ final, run = .ok (.success, final) ∧
      final.hashmap = mapBehindAll map parameters
  | .ok .failure => ∃ final, run = .ok (.failure, final)
  | .error stop => run = .error stop

/-- What a run of the loop comes to, by the fields of its text. -/
structure Runs (trackerNew : CString → Exec Tracker) (inputLen : Int)
    (bytes : List UInt8) (i : Nat) (scan : MagnetScan Tracker)
    (fields : MagnetFields) : Prop where
  passes : FieldsFit trackerNew 257 scan.hashmap fields →
    scanPasses trackerNew inputLen bytes i scan =
      (reached trackerNew scan.hashmap fields.parameters).map
        Parameter.strings
  ends : FieldsFit trackerNew 257 scan.hashmap fields →
    i + bytes.length < 2 ^ 31 →
      EndsAs trackerNew scan.hashmap fields.parameters
        (scanLoop trackerNew inputLen bytes i scan)
  overruns : ¬ FieldsFit trackerNew 257 scan.hashmap fields →
    (∃ passed ∈ scanPasses trackerNew inputLen bytes i scan,
      fields.Overruns trackerNew scan.hashmap passed) ∧
    scanLoop trackerNew inputLen bytes i scan = .error .readPast

section Rounds

variable {trackerNew : CString → Exec Tracker} {inputLen : Int}
  {i : Nat} {byte : UInt8} {rest : List UInt8}
  {scan next ended : MagnetScan Tracker} {fields : MagnetFields}

theorem scanPasses_goesOn (small : i < 2 ^ 31)
    (goes : endedValue inputLen i byte scan = none)
    (step : scanStep trackerNew inputLen i byte scan =
      .ok (.success, next)) :
    scanPasses trackerNew inputLen (byte :: rest) i scan =
      scanPasses trackerNew inputLen rest (i + 1) next := by
  rw [scanPasses, scanRounds_next small step,
    List.filterMap_cons_none (by rw [goes]; rfl)]
  rfl

theorem scanPasses_stored (small : i < 2 ^ 31)
    (ends : endedValue inputLen i byte scan = some ended)
    (step : scanStep trackerNew inputLen i byte scan =
      .ok (.success, next)) :
    scanPasses trackerNew inputLen (byte :: rest) i scan =
      ended.passed :: scanPasses trackerNew inputLen rest (i + 1) next := by
  rw [scanPasses, scanRounds_next small step,
    List.filterMap_cons_some (by rw [ends]; rfl)]
  rfl

theorem scanPasses_stopped (small : i < 2 ^ 31)
    (ends : endedValue inputLen i byte scan = some ended)
    (stops : ∀ next, scanStep trackerNew inputLen i byte scan ≠
      .ok (.success, next)) :
    scanPasses trackerNew inputLen (byte :: rest) i scan =
      [ended.passed] := by
  rw [scanPasses, scanRounds_only small stops,
    List.filterMap_cons_some (by rw [ends]; rfl)]
  rfl

theorem Runs.goesOn (small : i < 2 ^ 31)
    (goes : endedValue inputLen i byte scan = none)
    (step : scanStep trackerNew inputLen i byte scan =
      .ok (.success, next))
    (map : next.hashmap = scan.hashmap)
    (behind : Runs trackerNew inputLen rest (i + 1) next fields) :
    Runs trackerNew inputLen (byte :: rest) i scan fields := by
  have passes := @scanPasses_goesOn _ _ _ _ _ rest _ _ small goes step
  have loop := @scanLoop_step _ trackerNew _ _ rest _ _ _ small step
  rcases behind with ⟨passesBehind, endsBehind, overrunsBehind⟩
  rw [map] at passesBehind endsBehind overrunsBehind
  constructor
  · intro fit
    rw [passes]
    exact passesBehind fit
  · intro fit all
    rw [loop]
    exact endsBehind fit (by rw [List.length_cons] at all; omega)
  · intro overlong
    rw [passes, loop]
    exact overrunsBehind overlong

/-- A call that is handed a buffer without a terminator. -/
theorem storeParameter_unterminated
    (size : ended.keyBuffer.cells.length = magnetBufferSize)
    (missing : ¬ ended.Terminated) :
    storeParameter trackerNew ended = .error .readPast := by
  by_cases value : 0 ∈ ended.valueBuffer.cells
  · have key : 0 ∉ ended.keyBuffer.cells := fun key =>
      missing ⟨key, value⟩
    have other : (CString.ofBytes ended.keyBuffer.cells).bytes ≠
        text "tr" := by
      rw [CString.ofBytes_noNul key]
      intro isTracker
      have cells : ended.keyBuffer.cells = text "tr" := isTracker
      rw [cells] at size
      exact absurd size (by decide)
    rw [storeParameter, if_pos other, readString, if_pos value, ok_bind,
      readString, if_neg key]
    rfl
  · have past : readString ended.valueBuffer.cells = .error .readPast :=
      if_neg value
    rw [storeParameter, past]
    split
    · rfl
    · rfl

theorem Runs.overrun (small : i < 2 ^ 31)
    (ends : endedValue inputLen i byte scan = some ended)
    (size : ended.keyBuffer.cells.length = magnetBufferSize)
    (missing : ¬ ended.Terminated)
    (notFit : ¬ FieldsFit trackerNew 257 scan.hashmap fields)
    (overruns : fields.Overruns trackerNew scan.hashmap ended.passed) :
    Runs trackerNew inputLen (byte :: rest) i scan fields := by
  have step : scanStep trackerNew inputLen i byte scan =
      .error .readPast :=
    (scanStep_ended ends).trans (storeParameter_unterminated size missing)
  have stops : ∀ next, scanStep trackerNew inputLen i byte scan ≠
      .ok (.success, next) := by
    intro next reached
    rw [step] at reached
    cases reached
  constructor
  · intro fit
    exact absurd fit notFit
  · intro fit
    exact absurd fit notFit
  · intro _
    constructor
    · refine ⟨ended.passed, ?_, overruns⟩
      rw [scanPasses_stopped small ends stops]
      exact List.mem_singleton_self _
    · rw [scanLoop, subscript_of_lt small, ok_bind, step]
      rfl

end Rounds

section Fields

variable {trackerNew : CString → Exec Tracker} {inputLen : Int}
  {length i : Nat} {byte : UInt8} {key read rest : List UInt8}
  {fields : MagnetFields}

/-- Nothing is left of the text. -/
theorem Runs.nil (scan : MagnetScan Tracker) {openKey : List UInt8}
    (bound : openKey.length ≤ 257) :
    Runs trackerNew inputLen [] i scan ⟨[], openKey⟩ := by
  constructor
  · intro _
    rfl
  · intro _ small
    rw [List.length_nil, Nat.add_zero] at small
    rw [scanLoop, subscript_of_lt small]
    exact ⟨scan, rfl, rfl⟩
  · intro overlong
    exact absurd ((fieldsFit_open openKey).mpr bound) overlong

theorem readPair_passed {key value : List UInt8} (keyFills : Filling key)
    (valueFills : Filling value)
    (short : Parameter.Short ⟨key, value⟩) (scan : MagnetScan Tracker) :
    (readPair scan key value).passed = Parameter.strings ⟨key, value⟩ := by
  have keyHeld := @readString_holding ⟨key, keyFills.noNul⟩
    magnetBufferSize (Nat.lt_succ_of_le short.1)
  have valueHeld := @readString_holding ⟨value, valueFills.noNul⟩
    magnetBufferSize (Nat.lt_succ_of_le short.2)
  rw [Parameter.strings, CString.ofBytes_noNul keyFills.noNul,
    CString.ofBytes_noNul valueFills.noNul]
  exact Prod.ext keyHeld.1 valueHeld.1

/-- A full buffer holds its bytes and nothing else. -/
theorem Filling.cells_full {read : List UInt8}
    (full : read.length = magnetBufferSize) :
    (Buffer.holding magnetBufferSize read).cells = read := by
  rw [Buffer.holding, full, Nat.sub_self]
  exact List.append_nil read

/-- The calls of the parameters behind one that was stored. -/
theorem endsAs_cons {map : Hashmap (List UInt8)} {parameter : Parameter}
    {parameters : List Parameter}
    {run : Exec (ExitCode × MagnetScan Tracker)}
    (stored : storable trackerNew map parameter = true) :
    EndsAs trackerNew map (parameter :: parameters) run ↔
      EndsAs trackerNew (mapBehind map parameter) parameters run := by
  simp only [EndsAs, callsEnd_cons stored, mapBehindAll, List.foldl_cons]

/-- The value of a parameter ends, and its two strings fit. -/
theorem Runs.valueEnd {value : List UInt8} (keyFills : Filling key)
    (valueFills : Filling value) (small : i < 2 ^ 31)
    (scan : MagnetScan Tracker)
    (short : Parameter.Short ⟨key, value⟩)
    (ends : endedValue inputLen i byte (readingValue scan key read) =
      some (readPair scan key value))
    (further : ∀ after : MagnetScan Tracker,
      Runs trackerNew inputLen rest (i + 1) (readingKey after []) fields) :
    Runs trackerNew inputLen (byte :: rest) i (readingValue scan key read)
      (fields.cons ⟨key, value⟩) := by
  have held : (readingValue scan key read).hashmap = scan.hashmap := rfl
  have step := @scanStep_ended _ trackerNew _ _ _ _ _ ends
  have passed := readPair_passed keyFills valueFills short scan
  cases stored : storable trackerNew scan.hashmap ⟨key, value⟩ with
  | true =>
      rcases storeParameter_storable keyFills.noNul valueFills.noNul short
        stored with ⟨after, done, hashmap⟩
      rw [done] at step
      have map : (readingKey after []).hashmap =
          mapBehind scan.hashmap ⟨key, value⟩ :=
        hashmap
      have passes := @scanPasses_stored _ _ _ _ _ rest _ _ _ small ends step
      have loop := @scanLoop_step _ trackerNew _ _ rest _ _ _ small step
      rcases further after with ⟨passesBehind, endsBehind, overrunsBehind⟩
      rw [map] at passesBehind endsBehind overrunsBehind
      constructor
      · rw [held]
        intro fit
        rw [passes, passed, passesBehind ((fieldsFit_cons stored).mp fit).2,
          MagnetFields.cons, reached, if_pos stored, List.map_cons]
      · rw [held]
        intro fit all
        rw [loop, MagnetFields.cons, endsAs_cons stored]
        exact endsBehind ((fieldsFit_cons stored).mp fit).2
          (by rw [List.length_cons] at all; omega)
      · rw [held]
        intro overlong
        rw [fieldsFit_cons stored, and_iff_right short] at overlong
        rcases overrunsBehind overlong with ⟨⟨found, member, overruns⟩, past⟩
        rw [passes, loop]
        exact ⟨⟨found, List.mem_cons_of_mem _ member,
          overruns.cons stored⟩, past⟩
  | false =>
      have refused := storeParameter_notStorable keyFills.noNul
        valueFills.noNul short stored fields.parameters
      rw [← step] at refused
      have stops : ∀ next, scanStep trackerNew inputLen i byte
          (readingValue scan key read) ≠ .ok (.success, next) := by
        intro next reached
        rw [reached] at refused
        rcases refused with ⟨_, final, done⟩ | ⟨stop, _, done⟩
        · cases done
        · cases done
      have passes := @scanPasses_stopped _ _ _ _ _ rest _ _ small ends stops
      constructor
      · rw [held]
        intro _
        rw [passes, passed, MagnetFields.cons, reached, stored]
        rfl
      · rw [held]
        intro _ _
        rw [MagnetFields.cons, EndsAs, scanLoop, subscript_of_lt small,
          ok_bind]
        rcases refused with ⟨calls, final, done⟩ | ⟨stop, calls, done⟩
        · rw [calls, done]
          exact ⟨final, rfl⟩
        · rw [calls, done]
          rfl
      · rw [held, fieldsFit_stopped stored]
        intro overlong
        exact absurd short overlong

/-- The value of a parameter ends, and one of its strings is too long. -/
theorem Runs.pairOverrun {value : List UInt8} (keyFills : Filling key)
    (valueFills : Filling value) (small : i < 2 ^ 31)
    (scan : MagnetScan Tracker)
    (long : ¬ Parameter.Short ⟨key, value⟩)
    (ends : endedValue inputLen i byte (readingValue scan key read) =
      some (readPair scan key value)) :
    Runs trackerNew inputLen (byte :: rest) i (readingValue scan key read)
      (fields.cons ⟨key, value⟩) := by
  have capacity : magnetBufferSize = 256 := rfl
  have keyFits := keyFills.fits
  have valueFits := valueFills.fits
  refine Runs.overrun small ends keyFills.length_cells
    (fun terminated =>
      long ((readPair_terminated keyFills valueFills).mp terminated))
    (fun fit => long (fieldsFit_short fit))
    (.inl ⟨⟨key, value⟩, List.mem_cons_self, ?_⟩)
  by_cases keyFull : key.length = magnetBufferSize
  · refine .inl ⟨Nat.le_of_eq keyFull.symm, ?_⟩
    show (CString.ofBytes (Buffer.holding magnetBufferSize key).cells).bytes =
      key.take 256
    rw [Filling.cells_full keyFull, CString.ofBytes_noNul keyFills.noNul,
      List.take_of_length_le (by omega)]
  · have valueFull : value.length = magnetBufferSize := by
      by_contra notFull
      refine long ⟨?_, ?_⟩
      · show key.length ≤ 255
        omega
      · show value.length ≤ 255
        omega
    refine .inr ⟨Nat.le_of_eq valueFull.symm, ?_⟩
    show (CString.ofBytes
      (Buffer.holding magnetBufferSize value).cells).bytes = value.take 256
    rw [Filling.cells_full valueFull, CString.ofBytes_noNul valueFills.noNul,
      List.take_of_length_le (by omega)]

/-- A store behind a full buffer leaves its cells alone. -/
theorem endedValue_stops (scan : MagnetScan Tracker) (fills : Filling read)
    (stops : ¬ (byte ≠ ch '&' ∧ read.length < 256 ∧ (i : Int) < inputLen)) :
    ∃ ended,
      endedValue inputLen i byte (readingValue scan key read) =
        some ended ∧
      ended.keyBuffer = .holding magnetBufferSize key ∧
      (read.length = magnetBufferSize → ended.valueBuffer.cells = read) := by
  refine ⟨_, (if_neg (readingValue_key scan key read)).trans
    (if_neg stops), rfl, fun full => ?_⟩
  have stored : ((Buffer.holding magnetBufferSize read).store read.length
      byte).cells = (Buffer.holding magnetBufferSize read).cells := by
    rw [Buffer.store_of_le (by rw [fills.length_cells]; omega)]
  by_cases last : (i : Int) = inputLen
  · simp only [if_pos last]
    exact stored.trans (Filling.cells_full full)
  · simp only [if_neg last]
    exact Filling.cells_full full

/-- A value ends, and one of its two buffers is full. -/
theorem Runs.valueOverrun (keyFills : Filling key) (fills : Filling read)
    (small : i < 2 ^ 31) (scan : MagnetScan Tracker)
    (stops : ¬ (byte ≠ ch '&' ∧ read.length < 256 ∧ (i : Int) < inputLen))
    (full : key.length = magnetBufferSize ∨
      read.length = magnetBufferSize)
    (notFit : ¬ FieldsFit trackerNew 257 scan.hashmap fields)
    (overruns : ∀ passed : CString × CString,
      (key.length = magnetBufferSize → passed.1.bytes = key) →
      (read.length = magnetBufferSize → passed.2.bytes = read) →
        fields.Overruns trackerNew scan.hashmap passed) :
    Runs trackerNew inputLen (byte :: rest) i
      (readingValue scan key read) fields := by
  rcases @endedValue_stops _ inputLen i byte key read scan fills stops with
    ⟨ended, ends, keyBuffer, valueCells⟩
  refine Runs.overrun small ends ?_ ?_ notFit (overruns _ ?_ ?_)
  · rw [keyBuffer]
    exact keyFills.length_cells
  · intro terminated
    rcases full with full | full
    · have inKey := terminated.1
      rw [keyBuffer, Filling.cells_full full] at inKey
      exact keyFills.noNul inKey
    · have inValue := terminated.2
      rw [valueCells full] at inValue
      exact fills.noNul inValue
  · intro full
    rw [MagnetScan.passed, keyBuffer, Filling.cells_full full,
      CString.ofBytes_noNul keyFills.noNul]
  · intro full
    rw [MagnetScan.passed, valueCells full,
      CString.ofBytes_noNul fills.noNul]

/-- Behind a key that fills its buffer the next call reads past it. -/
theorem Runs.keyOverrun (keyFills : Filling key) (fills : Filling read)
    (noNul : 0 ∉ rest) (all : i + rest.length = length)
    (last : inputLen = length - 1) (size : length ≤ 2 ^ 31)
    (more : rest ≠ []) (scan : MagnetScan Tracker)
    (full : key.length = magnetBufferSize)
    (notFit : ¬ FieldsFit trackerNew 257 scan.hashmap fields)
    (overruns : ∀ passed : CString × CString, passed.1.bytes = key →
      fields.Overruns trackerNew scan.hashmap passed) :
    Runs trackerNew inputLen rest i (readingValue scan key read)
      fields := by
  induction rest generalizing i read with
  | nil =>
      exact absurd rfl more
  | cons byte rest inductionHypothesis =>
      rw [List.mem_cons, not_or] at noNul
      rw [List.length_cons] at all
      by_cases inside :
          byte ≠ ch '&' ∧ read.length < 256 ∧ (i : Int) < inputLen
      · rcases inside with ⟨notEnd, room, before⟩
        refine Runs.goesOn (by omega)
          (endedValue_valueByte scan key notEnd room before)
          (scanStep_valueByte trackerNew scan key notEnd room before) rfl
          (inductionHypothesis (fills.snoc room (Ne.symm noNul.1)) noNul.2
            (by omega) ?_)
        intro nothing
        rw [nothing, List.length_nil] at all
        omega
      · exact Runs.valueOverrun keyFills fills (by omega) scan inside
          (.inl full) notFit fun passed keyPassed _ =>
            overruns passed (keyPassed full)

end Fields

/-! ## The run -/

section Overruns

variable {trackerNew : CString → Exec Tracker}
  {map : Hashmap (List UInt8)} {key read rest : List UInt8}
  {passed : CString × CString}

theorem take_of_front {front bytes : List UInt8}
    (isPrefix : front <+: bytes) (size : 256 ≤ front.length) :
    bytes.take 256 = front.take 256 := by
  rcases isPrefix with ⟨behind, rfl⟩
  exact List.take_append_of_le_length size

/-- A key that goes on behind 256 bytes. -/
theorem overruns_inKey (long : 256 < read.length) (more : rest ≠ [])
    (found : passed.1.bytes = read.take 256) :
    (readFields (.inKey read) rest).Overruns trackerNew map passed := by
  rcases readFields_inKey read more with
    ⟨key, value, others, openKey, fields, front⟩ |
    ⟨openKey, fields, front, size⟩
  · rw [fields]
    refine .inl ⟨⟨key, value⟩, List.mem_cons_self, .inl ⟨?_, ?_⟩⟩
    · have shorter := front.length_le
      show 256 ≤ key.length
      omega
    · rw [found]
      exact (take_of_front front (by omega)).symm
  · rw [fields]
    refine .inr ⟨rfl, ?_, ?_⟩
    · show 258 ≤ openKey.length
      omega
    · rw [found]
      exact (take_of_front front (by omega)).symm

/-- A value that has 256 bytes or more, or whose key has. -/
theorem overruns_inValue (more : rest ≠ [])
    (found : (256 ≤ key.length ∧ passed.1.bytes = key.take 256) ∨
      (256 ≤ read.length ∧ passed.2.bytes = read.take 256)) :
    (readFields (.inValue key read) rest).Overruns trackerNew map
      passed := by
  rcases readFields_inValue key read more with
    ⟨value, others, openKey, fields, front⟩
  rw [fields]
  refine .inl ⟨⟨key, value⟩, List.mem_cons_self, ?_⟩
  rcases found with keyFound | ⟨long, valueFound⟩
  · exact .inl keyFound
  · refine .inr ⟨Nat.le_trans long front.length_le, ?_⟩
    rw [valueFound]
    exact (take_of_front front long).symm

end Overruns

section Run

variable {trackerNew : CString → Exec Tracker} {inputLen : Int}
  {length i : Nat} {rest : List UInt8}

/-- The run of the loop from a field on. -/
theorem scanLoop_runs {reading : Reading} (fills : reading.Fills)
    (noNul : 0 ∉ rest) (all : i + rest.length = length)
    (last : inputLen = length - 1) (size : length ≤ 2 ^ 31)
    (scan : MagnetScan Tracker) :
    Runs trackerNew inputLen rest i (reading.scan scan)
      (readFields reading rest) := by
  have capacity : magnetBufferSize = 256 := rfl
  fun_induction readFields reading rest generalizing i scan with
  | case1 reading =>
      exact Runs.nil _ (Nat.zero_le _)
  | case2 read byte =>
      rw [List.length_singleton] at all
      have bound := Filling.fits fills
      refine Runs.goesOn (by omega) (endedValue_key scan read)
        (scanStep_keyLast trackerNew scan byte (by omega)) rfl
        (Runs.nil _ ?_)
      rw [List.length_append, List.length_singleton]
      omega
  | case3 key read byte =>
      rw [List.length_singleton] at all
      rw [List.mem_singleton] at noNul
      have atLast : (i : Int) = inputLen := by omega
      have single : (⟨[⟨key, read ++ [byte]⟩], []⟩ : MagnetFields) =
          MagnetFields.cons ⟨key, read ++ [byte]⟩ ⟨[], []⟩ :=
        rfl
      by_cases room : read.length < magnetBufferSize
      · have longer := fills.2.snoc room (Ne.symm noNul)
        have ends := @endedValue_valueLast _ _ _ read scan key byte atLast
        rw [Buffer.store_holding room] at ends
        rw [single]
        by_cases short : Parameter.Short ⟨key, read ++ [byte]⟩
        · exact Runs.valueEnd fills.1 longer (by omega) scan short ends
            fun after => Runs.nil _ (Nat.zero_le _)
        · exact Runs.pairOverrun fills.1 longer (by omega) scan short ends
      · have full := fills.2.full room
        have long := overlong_snoc full byte
        refine Runs.valueOverrun fills.1 fills.2 (by omega) scan
          (fun inside => room inside.2.1) (.inr full) ?_
          fun passed _ found => ?_
        · rw [fieldsFit_last]
          intro short
          have bound : (read ++ [byte]).length ≤ 255 := short.2
          omega
        · refine @overruns_inValue _ _ _ _ read [byte] _
            (List.cons_ne_nil _ _) (.inr ⟨by omega, ?_⟩)
          rw [found full, List.take_of_length_le (by omega)]
  | case4 read next rest inductionHypothesis =>
      rw [List.mem_cons, not_or] at noNul
      rw [List.length_cons, List.length_cons] at all
      have before : (i : Int) < inputLen := by omega
      exact Runs.goesOn (by omega) (endedValue_key scan read)
        (scanStep_keyEnd trackerNew scan before) rfl
        (inductionHypothesis ⟨fills, Filling.nil⟩ noNul.2
          (by rw [List.length_cons]; omega) scan)
  | case5 read byte next rest notEnd inductionHypothesis =>
      rw [List.mem_cons, not_or] at noNul
      rw [List.length_cons, List.length_cons] at all
      have before : (i : Int) < inputLen := by omega
      by_cases room : read.length < magnetBufferSize
      · exact Runs.goesOn (by omega) (endedValue_key scan read)
          (scanStep_keyByte trackerNew scan notEnd room before) rfl
          (inductionHypothesis
            (Filling.snoc fills room (Ne.symm noNul.1)) noNul.2
            (by rw [List.length_cons]; omega) scan)
      · have full := Filling.full fills room
        have long := overlong_snoc full byte
        refine Runs.goesOn (by omega) (endedValue_key scan read)
          (scanStep_keyFull trackerNew scan byte full before) rfl
          (Runs.keyOverrun fills Filling.nil noNul.2
            (by rw [List.length_cons]; omega) last size
            (List.cons_ne_nil _ _) scan full
            (not_fieldsFit_overlong long (List.cons_ne_nil _ _)
              (Nat.le_refl _)) fun passed found => ?_)
        refine overruns_inKey long (List.cons_ne_nil _ _) ?_
        rw [found, take_full full]
  | case6 key read next rest inductionHypothesis =>
      rw [List.mem_cons, not_or] at noNul
      rw [List.length_cons, List.length_cons] at all
      have ends := @endedValue_valueEnd _ inputLen i read (ch '&') scan key
        (by omega) (.inl rfl)
      by_cases short : Parameter.Short ⟨key, read⟩
      · exact Runs.valueEnd fills.1 fills.2 (by omega) scan short ends
          (inductionHypothesis Filling.nil noNul.2
            (by rw [List.length_cons]; omega))
      · exact Runs.pairOverrun fills.1 fills.2 (by omega) scan short ends
  | case7 key read byte next rest notEnd inductionHypothesis =>
      rw [List.mem_cons, not_or] at noNul
      rw [List.length_cons, List.length_cons] at all
      have before : (i : Int) < inputLen := by omega
      by_cases room : read.length < magnetBufferSize
      · exact Runs.goesOn (by omega)
          (endedValue_valueByte scan key notEnd room before)
          (scanStep_valueByte trackerNew scan key notEnd room before) rfl
          (inductionHypothesis
            ⟨fills.1, Filling.snoc fills.2 room (Ne.symm noNul.1)⟩ noNul.2
            (by rw [List.length_cons]; omega) scan)
      · have full := fills.2.full room
        have long := overlong_snoc full byte
        refine Runs.valueOverrun fills.1 fills.2 (by omega) scan
          (fun inside => room inside.2.1) (.inr full)
          (not_fieldsFit_overlong (.inr (Nat.lt_of_succ_lt long))
            (List.cons_ne_nil _ _) (Nat.le_refl _))
          fun passed _ found => ?_
        refine overruns_inValue (List.cons_ne_nil _ _)
          (.inr ⟨by omega, ?_⟩)
        rw [found full, take_full full]

end Run

end UvgTorrent
