import UvgTorrent.DataStructures.HashmapHistory
import UvgTorrent.Torrent.MagnetSeparators
import UvgTorrent.Torrent.Teardown

/-!
# Magnet files without a name or a hash

`Torrent_parse` on any file that it can read and for which it gets its
memory.  A missing key is a `NULL` for `strlen` and for the decoder of the
name.
-/

namespace UvgTorrent

open CProgram CText CArray MachineInt

variable {Tracker : Type}

/-- The file is read as a whole and every block is allocated. -/
structure ParseWorld.Granted (world : ParseWorld Tracker)
    (torrentContent : List UInt8) : Prop where
  file : world.file = some torrentContent
  whole : torrentContent.length ≤ world.delivered
  content : world.contentGranted = true
  hashmap : world.hashmapGranted = true
  trackers : world.trackersGranted = true
  nodes : ∀ index, world.nodeGranted index = true
  name : world.nameGranted = true
  hash : world.hashGranted = true

/-- The text of a file has a parameter of this name. -/
def HasKey (torrentContent key : List UInt8) : Prop :=
  ∃ parameter ∈ (fileFields torrentContent).parameters,
    parameter.key = key

/-- What a parse must do with a file. -/
structure RejectsIncomplete (torrentContent : List UInt8)
    (answer : Exec ExitCode) : Prop where
  reads : answer ≠ .error .readPast
  noNull : answer ≠ .error .nullPointer
  rejects : ¬ (HasKey torrentContent keyDn.bytes ∧
    HasKey torrentContent keyXt.bytes) → answer = .ok .failure

/-- The parameters of a file that are stored when every block is granted. -/
def storedOfFile (torrentContent : List UInt8) :
    List (CString × List UInt8) :=
  keptEntriesOf (fun _ => true) 0 hashmapNew
    (fileFields torrentContent).parameters

/-- The map has no room for the parameters of the file, and both keys are
among them or none of those that it took shares a slot with another; or both
keys are among them and no call for a tracker reads past an object or through
`NULL`. -/
def CallsAnswered (trackerNew : CString → Exec Tracker)
    (torrentContent : List UInt8) : Prop :=
  match callsEnd trackerNew hashmapNew
      (fileFields torrentContent).parameters with
  | .ok .failure =>
      (HasKey torrentContent keyDn.bytes ∧
        HasKey torrentContent keyXt.bytes) ∨
      (slots (storedOfFile torrentContent)).Nodup
  | .ok .success =>
      HasKey torrentContent keyDn.bytes ∧
        HasKey torrentContent keyXt.bytes
  | .error stop => stop ≠ .readPast ∧ stop ≠ .nullPointer ∧
      HasKey torrentContent keyDn.bytes ∧
        HasKey torrentContent keyXt.bytes

/-- An empty file, with `NULL` in a pointer that was never set; or a text
that an `int` can count, whose fields fit and whose calls are answered. -/
def HandlesContent (world : ParseWorld Tracker)
    (torrentContent : List UInt8) : Prop :=
  (torrentContent = [] ∧ world.hashmapIsJunk = false) ∨
  (8 ≤ torrentContent.length ∧
    (magnetText torrentContent).strlen < 2 ^ 31 ∧
    FieldsFit world.trackerNew 257 hashmapNew (fileFields torrentContent) ∧
    CallsAnswered world.trackerNew torrentContent)

/-! ## The answer of a parse -/

/-- The two lookups behind the loop. -/
def lookUpNameAndHash (depth : Nat) (hashmap : Hashmap (List UInt8)) :
    Exec ExitCode := do
  let _ ← hashmapString hashmap keyDn depth
  let _ ← hashmapString hashmap keyXt depth
  pure .success

/-- What the loop and the lookups come to. -/
def answerMagnet (depth : Nat) :
    ExitCode × MagnetScan Tracker → Exec ExitCode
  | (.failure, _) => pure .failure
  | (.success, scan) => lookUpNameAndHash depth scan.hashmap

/-- The end of a parse. -/
def destroyAndReturn (map : Hashmap (List UInt8)) (code : ExitCode) :
    Exec ExitCode := do
  freeEach (hashmapDestroy map)
  pure code

/-- What `Torrent_parse` answers for the bytes of a file. -/
def parseAnswer (trackerNew : CString → Exec Tracker) (depth : Nat)
    (torrentContent : List UInt8) : Exec ExitCode := do
  let (code, scan) ← scanMagnet trackerNew torrentContent
  let code ← answerMagnet depth (code, scan)
  destroyAndReturn scan.hashmap code

/-- Where the body is left, for an answer of the parse. -/
def ParseEnd.answer : ParseEnd → ExitCode
  | .done => .success
  | _ => .failure

section Answer

variable {world : ParseWorld Tracker} {depth : Nat}
  {torrentContent : List UInt8} {state : Parsing Tracker}

theorem destroyAndReturn_once {map : Hashmap (List UInt8)}
    (once : (hashmapDestroy map).Nodup) (code : ExitCode) :
    destroyAndReturn map code = .ok code := by
  rw [destroyAndReturn, freeEach_ok_iff.mpr once, ok_bind, pure_exec]

theorem destroyAndReturn_twice {map : Hashmap (List UInt8)}
    (twice : ¬ (hashmapDestroy map).Nodup) (code : ExitCode) :
    destroyAndReturn map code = .error .abort := by
  rw [destroyAndReturn, freeEach, if_neg twice, error_bind]

theorem parseNameAndHash_answers (name : world.nameGranted = true)
    (hash : world.hashGranted = true) (hashmap : Hashmap (List UInt8)) :
    ((parseNameAndHash world depth hashmap).from state).1.map
        ParseEnd.answer =
      lookUpNameAndHash depth hashmap := by
  rw [parseNameAndHash, lookUpNameAndHash]
  cases dn : hashmapString hashmap keyDn depth with
  | error stop => rfl
  | ok dnFound =>
      have decoded : decodeName world dnFound =
          .ok (stringUrldecode world.name dnFound).cells :=
        if_pos name
      cases xt : hashmapString hashmap keyXt depth with
      | error stop =>
          simp only [bind_from, liftExec_from, decoded, create,
            updateTorrent, modifyState_from]
          rfl
      | ok xtFound =>
          simp only [bind_from, liftExec_from, decoded, create,
            updateTorrent, modifyState_from, hash, if_true, pure_from]
          rfl

/-- A run of the body, beside the answer of the parse: the map is destroyed
where the body is left. -/
inductive BodyAnswers (answer : Exec ExitCode) :
    Exec ParseEnd × Parsing Tracker → Prop
  | ends {ended : ParseEnd} {after : Parsing Tracker}
      {map : Hashmap (List UInt8)} (made : after.hashmap = .made map)
      (same : answer = destroyAndReturn map ended.answer) :
      BodyAnswers answer (.ok ended, after)
  | stops {stop : Stop} {after : Parsing Tracker}
      (same : answer = .error stop) : BodyAnswers answer (.error stop, after)

theorem parseMagnet_answers (granted : world.Granted torrentContent) :
    BodyAnswers (parseAnswer world.trackerNew depth torrentContent)
      ((parseMagnet world depth torrentContent).from state) := by
  rw [parseMagnet, parseAnswer, scanMagnet]
  cases readString ((torrentContent ++ [0]).drop 8) with
  | error stop => exact .stops rfl
  | ok subString =>
      have looped := @parseLoop_answers _ world state granted.nodes
        (toInt32 (subString.strlen - 1)) subString.bytes 0 magnetStart
      rw [bind_from_ok (liftExec_from (.ok subString) _), ok_bind, ← looped,
        bind_from]
      cases ran : (parseLoop world (toInt32 (subString.strlen - 1))
          subString.bytes 0 magnetStart).from state with
      | mk answer reached =>
          cases answer with
          | error stop => exact .stops rfl
          | ok found =>
              rcases found with ⟨code, scan⟩
              cases code with
              | failure =>
                  refine .ends rfl ?_
                  simp only [ok_bind, answerMagnet, pure_exec,
                    ParseEnd.answer]
              | success =>
                  have looked := @parseNameAndHash_answers _ world depth
                    { reached with hashmap := .made scan.hashmap }
                    granted.name granted.hash scan.hashmap
                  simp only [ok_bind, answerMagnet, ← looked]
                  rw [bind_from_ok (modifyState_from _ _)]
                  cases last : (parseNameAndHash world depth
                      scan.hashmap).from
                        { reached with hashmap := .made scan.hashmap } with
                  | mk answer after =>
                      cases answer with
                      | error stop => exact .stops rfl
                      | ok ended =>
                          refine .ends (parseNameAndHash_hashmap last) ?_
                          simp only [Except.map, ok_bind]

/-- With the file in memory the body goes on to the text. -/
theorem torrentParseBody_reads (granted : world.Granted torrentContent)
    (nonempty : torrentContent ≠ []) (start : Parsing Tracker) :
    ∃ state, (torrentParseBody world depth).from start =
      (parseMagnet world depth torrentContent).from state := by
  have read : torrentContent.take world.delivered = torrentContent :=
    List.take_of_length_le granted.whole
  have copied : (world.content.block torrentContent.length).copyIn 0
      torrentContent = .ok ⟨torrentContent, []⟩ := by
    rw [Buffer.copyIn_of_le (by
      rw [Nat.zero_add, Surroundings.block_length])]
    simp [Surroundings.block, Buffer.ofCells]
  rw [torrentParseBody, granted.file]
  simp only [granted.content, if_true, read, if_neg nonempty, copied,
    create, bind_from, modifyState_from, liftExec_from, parseContent,
    granted.hashmap, granted.trackers, updateTorrent]
  exact ⟨_, rfl⟩

/-- Behind the body the map is destroyed, and then the rest. -/
theorem torrentParse_answer {path : CString} {ended : ParseEnd}
    {after : Parsing Tracker} {map : Hashmap (List UInt8)}
    (ran : (torrentParseBody world depth).from (parsingStart world path) =
      (.ok ended, after))
    (made : after.hashmap = .made map) :
    ((torrentParse world depth).from (parsingStart world path)).1 =
      destroyAndReturn map ended.answer := by
  by_cases once : (hashmapDestroy map).Nodup
  · rw [destroyAndReturn_once once]
    by_cases done : ended = .done
    · subst done
      rw [torrentParse, bind_from_ok ran]
      simp only []
      rw [bind_from_ok (getState_from after), made,
        bind_from_ok (destroyHashmap_from once)]
      rfl
    · rw [torrentParse_from ran done, torrentParseError_from made once]
      cases ended with
      | done => exact absurd rfl done
      | _ => rfl
  · rw [torrentParse_aborts ran made once, destroyAndReturn_twice once]

theorem torrentParse_reads (granted : world.Granted torrentContent)
    (nonempty : torrentContent ≠ []) (path : CString) :
    ((torrentParse world depth).from (parsingStart world path)).1 =
      parseAnswer world.trackerNew depth torrentContent := by
  rcases @torrentParseBody_reads _ world depth _ granted nonempty
    (parsingStart world path) with ⟨state, body⟩
  have answers := @parseMagnet_answers Tracker world depth torrentContent
    state granted
  rw [← body] at answers
  cases ran : (torrentParseBody world depth).from
      (parsingStart world path) with
  | mk answer after =>
      rw [ran] at answers
      cases answers with
      | ends made same =>
          rw [same]
          exact torrentParse_answer ran made
      | stops same =>
          rw [same, torrentParse, bind_from_error ran]

/-- Nothing is read of an empty file, and the clean-up looks at a pointer
that was never set. -/
theorem torrentParse_empty (granted : world.Granted []) (path : CString) :
    ((torrentParse world depth).from (parsingStart world path)).1 =
      if world.hashmapIsJunk then .error .uninitialised
      else .ok .failure := by
  have body : (torrentParseBody world depth).from
      (parsingStart world path) =
        (.ok .reading, { parsingStart world path with
          torrentFile := true
          torrentContent := true
          log := (parsingStart world path).log ++
            [.created .torrentFile] ++ [.created .torrentContent] }) := by
    rw [torrentParseBody, granted.file]
    simp only [granted.content, if_true, List.take_nil, create, bind_from,
      modifyState_from, pure_from]
  rw [torrentParse_from body (by decide)]
  cases junk : world.hashmapIsJunk with
  | false =>
      rw [torrentParseError]
      simp only [parsingStart, junk, bind_from, getState_from]
      rfl
  | true =>
      rw [torrentParseError]
      simp only [parsingStart, junk, bind_from, getState_from]
      rfl

end Answer

/-! ## The two lookups -/

/-- What the parameters store, first one first. -/
def storedEntries (parameters : List Parameter) :
    List (CString × List UInt8) :=
  (parameters.filter (fun parameter => parameter.key ≠ text "tr")).map
    fun parameter => (CString.ofBytes parameter.key, parameter.value)

theorem chainsHold_mapBehindAll {history : List (CString × List UInt8)}
    {map : Hashmap (List UInt8)} (holds : ChainsHold history map)
    (parameters : List Parameter) :
    ChainsHold (history ++ storedEntries parameters)
      (mapBehindAll map parameters) := by
  induction parameters generalizing history map with
  | nil =>
      simpa [storedEntries, mapBehindAll] using holds
  | cons parameter rest inductionHypothesis =>
      rw [mapBehindAll, List.foldl_cons, mapBehind]
      by_cases isTracker : parameter.key = text "tr"
      · rw [if_pos isTracker, storedEntries,
          List.filter_cons_of_neg (by simpa using isTracker)]
        exact inductionHypothesis holds
      · rw [if_neg isTracker, storedEntries,
          List.filter_cons_of_pos (by simpa using isTracker),
          List.map_cons, List.append_cons]
        exact inductionHypothesis (chainsHold_store holds _ _)

section Lookups

variable {torrentContent : List UInt8} {key : CString}
  {hashmap : Hashmap (List UInt8)}

/-- The keys that are stored are those of the text, trackers apart. -/
theorem storedEntries_hasKey (other : key.bytes ≠ text "tr") :
    (∃ entry ∈ storedEntries (fileFields torrentContent).parameters,
      entry.1 = key) ↔ HasKey torrentContent key.bytes := by
  have noNul := magnetFields_noNul (magnetText torrentContent).noNul
  constructor
  · intro found
    rcases found with ⟨entry, member, isKey⟩
    rcases List.mem_map.mp member with ⟨parameter, among, rfl⟩
    have inFields := (List.mem_filter.mp among).1
    refine ⟨parameter, inFields, ?_⟩
    rw [← isKey, CString.ofBytes_noNul (noNul parameter inFields).1]
  · intro found
    rcases found with ⟨parameter, member, isKey⟩
    refine ⟨_, List.mem_map_of_mem (List.mem_filter.mpr ⟨member, ?_⟩), ?_⟩
    · simpa [isKey] using other
    · show CString.ofBytes parameter.key = key
      rw [CString.ofBytes_noNul (noNul parameter member).1]
      exact CString.ext isKey

theorem hashmapString_stored
    (holds : ChainsHold
      (storedEntries (fileFields torrentContent).parameters) hashmap)
    (short : key.bytes.length < 2 ^ 32) (other : key.bytes ≠ text "tr")
    (found : HasKey torrentContent key.bytes) (depth : Nat) :
    (∃ string, hashmapString hashmap key depth = .ok string) ∨
      hashmapString hashmap key depth = .error .unfinished := by
  have stored := (storedEntries_hasKey other).mpr found
  rw [hashmapString]
  rcases hashmapGet_stored holds short stored depth with
    ⟨value, answered⟩ | unfinished
  · rw [answered, ok_bind]
    exact .inl ⟨_, if_pos (List.mem_append_right value
      List.mem_cons_self)⟩
  · rw [unfinished]
    exact .inr rfl

/-- Behind the loop nothing comes to a failure. -/
theorem lookUpNameAndHash_ne_failure (depth : Nat) :
    lookUpNameAndHash depth hashmap ≠ .ok .failure := by
  rw [lookUpNameAndHash]
  cases hashmapString hashmap keyDn depth with
  | error stop =>
      intro failed
      cases failed
  | ok dn =>
      cases hashmapString hashmap keyXt depth with
      | error stop =>
          intro failed
          cases failed
      | ok xt =>
          intro failed
          cases failed

/-- With both keys nothing is read past an object or through `NULL`. -/
theorem rejects_of_found {answer : Exec ExitCode}
    (both : HasKey torrentContent keyDn.bytes ∧
      HasKey torrentContent keyXt.bytes)
    (reads : answer ≠ .error .readPast)
    (noNull : answer ≠ .error .nullPointer) :
    RejectsIncomplete torrentContent answer :=
  ⟨reads, noNull, fun missing => absurd both missing⟩

/-- The destruction of a map reads nothing past an object or through
`NULL`. -/
theorem destroyAndReturn_cases (map : Hashmap (List UInt8))
    (code : ExitCode) :
    destroyAndReturn map code = .ok code ∨
      destroyAndReturn map code = .error .abort := by
  by_cases once : (hashmapDestroy map).Nodup
  · exact .inl (destroyAndReturn_once once code)
  · exact .inr (destroyAndReturn_twice once code)

theorem lookUpNameAndHash_rejects_iff
    (holds : ChainsHold
      (storedEntries (fileFields torrentContent).parameters) hashmap)
    (depth : Nat) :
    RejectsIncomplete torrentContent
        (lookUpNameAndHash depth hashmap >>= destroyAndReturn hashmap) ↔
      HasKey torrentContent keyDn.bytes ∧
        HasKey torrentContent keyXt.bytes := by
  constructor
  · intro rejects
    by_contra missing
    have failed := rejects.rejects missing
    cases looked : lookUpNameAndHash depth hashmap with
    | error stop =>
        rw [looked, error_bind] at failed
        cases failed
    | ok code =>
        rw [looked, ok_bind] at failed
        rcases destroyAndReturn_cases hashmap code with returned | aborted
        · cases returned.symm.trans failed
          exact lookUpNameAndHash_ne_failure depth looked
        · cases aborted.symm.trans failed
  · intro both
    have dn := hashmapString_stored holds (by decide) (by decide) both.1
      depth
    have xt := hashmapString_stored holds (by decide) (by decide) both.2
      depth
    have answer : lookUpNameAndHash depth hashmap = .ok .success ∨
        lookUpNameAndHash depth hashmap = .error .unfinished := by
      rw [lookUpNameAndHash]
      rcases dn with ⟨name, found⟩ | unfinished
      · rcases xt with ⟨hash, hashFound⟩ | unfinished
        · rw [found, hashFound]
          exact .inl rfl
        · rw [found, unfinished]
          exact .inr rfl
      · rw [unfinished]
        exact .inr rfl
    rcases answer with answer | answer
    · rw [answer, ok_bind]
      rcases destroyAndReturn_cases hashmap .success with ended | ended
      · rw [ended]
        exact rejects_of_found both (by decide) (by decide)
      · rw [ended]
        exact rejects_of_found both (by decide) (by decide)
    · rw [answer, error_bind]
      exact rejects_of_found both (by decide) (by decide)

end Lookups

/-! ## Files -/

section Files

variable {trackerNew : CString → Exec Tracker} {depth : Nat}
  {torrentContent : List UInt8}

theorem not_rejects_readPast :
    ¬ RejectsIncomplete torrentContent (.error .readPast) :=
  fun rejects => rejects.reads rfl

theorem scanMagnet_text (enough : 8 ≤ torrentContent.length) :
    scanMagnet trackerNew torrentContent =
      scanLoop trackerNew (toInt32 ((magnetText torrentContent).strlen - 1))
        (magnetText torrentContent).bytes 0 magnetStart := by
  rw [scanMagnet, readString_magnetText enough]
  rfl

theorem rejects_failure :
    RejectsIncomplete torrentContent (.ok .failure) :=
  ⟨by decide, by decide, fun _ => rfl⟩

/-- A file that is shorter than the prefix is read past its end. -/
theorem parseAnswer_short (short : torrentContent.length < 8) :
    parseAnswer trackerNew depth torrentContent = .error .readPast := by
  have behind : (torrentContent ++ [0]).drop 8 = [] := by
    apply List.drop_of_length_le
    rw [List.length_append, List.length_singleton]
    omega
  rw [parseAnswer, scanMagnet, behind]
  rfl

/-- The map that the loop leaves, with every block granted. -/
theorem scanLoop_keeps {world : ParseWorld Tracker}
    (granted : world.Granted torrentContent)
    (size : (magnetText torrentContent).strlen ≤ 2 ^ 31) {code : ExitCode}
    {final : MagnetScan Tracker}
    (ran : scanLoop world.trackerNew
      (toInt32 ((magnetText torrentContent).strlen - 1))
      (magnetText torrentContent).bytes 0 magnetStart = .ok (code, final)) :
    ChainsHold (storedOfFile torrentContent) final.hashmap := by
  have every : world.nodeGranted = fun _ => true :=
    funext granted.nodes
  have answered := (@file_keeps _ world _ size).answers
    (parsingStart world shortPath) trivial
  rw [← @parseLoop_answers _ world (parsingStart world shortPath)
    granted.nodes] at ran
  revert ran answered
  generalize (parseLoop world
    (toInt32 ((magnetText torrentContent).strlen - 1))
    (magnetText torrentContent).bytes 0 magnetStart).from
      (parsingStart world shortPath) = run
  rcases run with ⟨answer, after⟩
  rintro rfl answered
  rw [storedOfFile, ← every]
  exact answered

/-- Where the map has no room for a parameter, it is destroyed. -/
theorem destroyAndReturn_rejects_iff {map : Hashmap (List UInt8)}
    (holds : ChainsHold (storedOfFile torrentContent) map) :
    RejectsIncomplete torrentContent (destroyAndReturn map .failure) ↔
      (HasKey torrentContent keyDn.bytes ∧
        HasKey torrentContent keyXt.bytes) ∨
      (slots (storedOfFile torrentContent)).Nodup := by
  rw [← unchained_iff_nodup holds, ← hashmapDestroy_nodup_iff]
  by_cases once : (hashmapDestroy map).Nodup
  · rw [destroyAndReturn_once once]
    exact iff_of_true rejects_failure (.inr once)
  · rw [destroyAndReturn_twice once, or_iff_left once]
    constructor
    · intro rejects
      by_contra missing
      cases rejects.rejects missing
    · intro both
      exact rejects_of_found both (by decide) (by decide)

theorem parseAnswer_rejects_iff {world : ParseWorld Tracker}
    (granted : world.Granted torrentContent)
    (enough : 8 ≤ torrentContent.length)
    (size : (magnetText torrentContent).strlen < 2 ^ 31) :
    RejectsIncomplete torrentContent
        (parseAnswer world.trackerNew depth torrentContent) ↔
      FieldsFit world.trackerNew 257 hashmapNew (fileFields torrentContent) ∧
        CallsAnswered world.trackerNew torrentContent := by
  have runs := @file_runs Tracker world.trackerNew torrentContent
    (Nat.le_of_lt size)
  rw [parseAnswer, scanMagnet_text enough]
  by_cases fits : FieldsFit world.trackerNew 257 hashmapNew
      (fileFields torrentContent)
  · have ends : EndsAs world.trackerNew hashmapNew
        (fileFields torrentContent).parameters _ :=
      runs.ends fits (by rw [Nat.zero_add]; exact size)
    rw [and_iff_right fits]
    rw [EndsAs] at ends
    rw [CallsAnswered]
    cases calls : callsEnd world.trackerNew hashmapNew
        (fileFields torrentContent).parameters with
    | error stop =>
        rw [calls] at ends
        rw [ends]
        constructor
        · intro rejects
          refine ⟨fun same => rejects.reads (congrArg Except.error same),
            fun same => rejects.noNull (congrArg Except.error same), ?_⟩
          by_contra missing
          cases rejects.rejects missing
        · intro answered
          exact ⟨fun same => answered.1 (Except.error.inj same),
            fun same => answered.2.1 (Except.error.inj same),
            fun missing => absurd answered.2.2 missing⟩
    | ok code =>
        rw [calls] at ends
        cases code with
        | failure =>
            rcases ends with ⟨final, ran⟩
            have holds := scanLoop_keeps granted (Nat.le_of_lt size) ran
            rw [ran, ok_bind]
            simp only [answerMagnet, pure_exec, ok_bind]
            exact destroyAndReturn_rejects_iff holds
        | success =>
            rcases ends with ⟨final, ran, map⟩
            have holds := @chainsHold_mapBehindAll [] hashmapNew (fun _ => rfl)
              (fileFields torrentContent).parameters
            rw [← map] at holds
            rw [ran, ok_bind]
            simp only [answerMagnet]
            exact lookUpNameAndHash_rejects_iff holds depth
  · rw [(runs.overruns fits).2]
    exact iff_of_false not_rejects_readPast (fun both => fits both.1)

theorem torrentParse_rejects_iff {world : ParseWorld Tracker}
    (granted : world.Granted torrentContent) (path : CString)
    (size : (magnetText torrentContent).strlen < 2 ^ 31) :
    RejectsIncomplete torrentContent
        ((torrentParse world depth).from (parsingStart world path)).1 ↔
      HandlesContent world torrentContent := by
  by_cases empty : torrentContent = []
  · subst empty
    have missing : ¬ (HasKey [] keyDn.bytes ∧ HasKey [] keyXt.bytes) := by
      intro both
      rcases both.1 with ⟨parameter, member, _⟩
      exact absurd member List.not_mem_nil
    rw [torrentParse_empty granted]
    cases junk : world.hashmapIsJunk with
    | false =>
        exact iff_of_true rejects_failure (.inl ⟨rfl, junk⟩)
    | true =>
        refine iff_of_false (fun rejects => ?_) ?_
        · cases rejects.rejects missing
        · intro handles
          rcases handles with ⟨_, clean⟩ | ⟨enough, _⟩
          · cases junk.symm.trans clean
          · exact absurd enough (by decide)
  · rw [torrentParse_reads granted empty]
    by_cases enough : 8 ≤ torrentContent.length
    · rw [parseAnswer_rejects_iff granted enough size]
      constructor
      · intro handles
        exact .inr ⟨enough, size, handles⟩
      · intro handles
        rcases handles with ⟨nothing, _⟩ | ⟨_, _, handled⟩
        · exact absurd nothing empty
        · exact handled
    · rw [parseAnswer_short (Nat.not_le.mp enough)]
      refine iff_of_false not_rejects_readPast ?_
      intro handles
      rcases handles with ⟨nothing, _⟩ | ⟨long, _⟩
      · exact empty nothing
      · exact enough long

/-- Where memory is granted and the file can be read, a file that is handled
is read inside its bytes, without `NULL`, and rejected when a key is missing.
For a text that an `int` can count the condition is exact. -/
theorem torrentParse_rejectsIncomplete {world : ParseWorld Tracker}
    (granted : world.Granted torrentContent) (path : CString)
    (depth : Nat) :
    (HandlesContent world torrentContent →
      RejectsIncomplete torrentContent
        ((torrentParse world depth).from (parsingStart world path)).1) ∧
    ((magnetText torrentContent).strlen < 2 ^ 31 →
      RejectsIncomplete torrentContent
        ((torrentParse world depth).from (parsingStart world path)).1 →
      HandlesContent world torrentContent) := by
  constructor
  · intro handles
    have size : (magnetText torrentContent).strlen < 2 ^ 31 := by
      rcases handles with ⟨rfl, _⟩ | ⟨_, size, _⟩
      · decide
      · exact size
    exact (torrentParse_rejects_iff granted path size).mpr handles
  · intro size rejects
    exact (torrentParse_rejects_iff granted path size).mp rejects

/-- `magnet:?xt=a` lacks the name. -/
def namelessMagnet : List UInt8 :=
  magnetPrefix ++ text "xt=a"

theorem namelessMagnet_text :
    magnetText namelessMagnet = ⟨text "xt=a", by decide⟩ := by
  decide

theorem torrentParse_crashes :
    (grantingWorld (some namelessMagnet)).Granted namelessMagnet ∧
      ¬ RejectsIncomplete namelessMagnet
        ((torrentParse (grantingWorld (some namelessMagnet)) 2).from
          (parsingStart (grantingWorld (some namelessMagnet))
            shortPath)).1 := by
  have granted :
      (grantingWorld (some namelessMagnet)).Granted namelessMagnet :=
    ⟨rfl, by decide, rfl, rfl, rfl, fun _ => rfl, rfl, rfl⟩
  have size : (magnetText namelessMagnet).strlen < 2 ^ 31 := by
    rw [namelessMagnet_text]
    decide
  have fields : fileFields namelessMagnet =
      ⟨[⟨text "xt", text "a"⟩], []⟩ := by
    decide
  have noName : ¬ HasKey namelessMagnet keyDn.bytes := by
    rintro ⟨parameter, member, isDn⟩
    rw [fields, List.mem_singleton] at member
    rw [member] at isDn
    exact absurd isDn (by decide)
  refine ⟨granted, fun rejects => ?_⟩
  have handles := (torrentParse_rejects_iff granted shortPath size).mp
    rejects
  rcases handles with ⟨empty, _⟩ | ⟨_, _, _, answered⟩
  · exact absurd empty (by decide)
  · have calls : callsEnd (grantingWorld (some namelessMagnet)).trackerNew
        hashmapNew (fileFields namelessMagnet).parameters =
          .ok .success := by
      rw [fields]
      rfl
    rw [CallsAnswered, calls] at answered
    exact noName answered.1

theorem torrentParse_rejectsIncomplete_short :
    RejectsIncomplete shortMagnet
      ((torrentParse (grantingWorld (some shortMagnet)) 2).from
        (parsingStart (grantingWorld (some shortMagnet)) shortPath)).1 := by
  have granted : (grantingWorld (some shortMagnet)).Granted shortMagnet :=
    ⟨rfl, by decide, rfl, rfl, rfl, fun _ => rfl, rfl, rfl⟩
  have found : magnetText shortMagnet =
      ⟨text "xt=a&tr=b&dn=c", by decide⟩ := by
    decide
  have fields : fileFields shortMagnet =
      MagnetFields.cons ⟨text "xt", text "a"⟩
        (MagnetFields.cons ⟨text "tr", text "b"⟩
          ⟨[⟨text "dn", text "c"⟩], []⟩) := by
    decide
  refine (torrentParse_rejectsIncomplete granted shortPath 2).1
    (.inr ⟨by decide, ?_, ?_, ?_⟩)
  · rw [found]
    decide
  · rw [fields, fieldsFit_cons (by rfl), fieldsFit_cons (by rfl),
      fieldsFit_last]
    simp only [Parameter.Short]
    decide
  · have calls : callsEnd (grantingWorld (some shortMagnet)).trackerNew
        hashmapNew (fileFields shortMagnet).parameters = .ok .success := by
      rw [fields]
      rfl
    rw [CallsAnswered, calls]
    refine ⟨⟨⟨text "dn", text "c"⟩, ?_, rfl⟩,
      ⟨⟨text "xt", text "a"⟩, ?_, rfl⟩⟩
    · rw [fields]
      decide
    · rw [fields]
      decide

end Files

end UvgTorrent
