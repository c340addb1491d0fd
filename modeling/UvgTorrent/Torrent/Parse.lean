import UvgTorrent.DataStructures.HashmapDestroy
import UvgTorrent.Library.OwnershipLog
import UvgTorrent.Torrent.Magnet
import UvgTorrent.Utils.UrlCoding

/-!
# Parsing and destroying a torrent

`Torrent_parse` with its two clean-ups, and `Torrent_destroy`.  The log
records what is created and what is released.  The file is a regular file,
and the buckets of the map are allocated.
-/

namespace UvgTorrent

open CProgram CText CArray MachineInt OwnershipLog

variable {Tracker : Type}

/-- What a torrent and its parse own.  A tracker is made by `Tracker_new` and
then copied into the list, and `wild` is behind a pointer that was not
initialised. -/
inductive TorrentThing where
  | torrent
  | path
  | torrentFile
  | torrentContent
  | hashmap
  | trackers
  | trackerMade (index : Nat)
  | tracker (index : Nat)
  | node (index : Nat)
  | name
  | hash
  | wild
  deriving DecidableEq, Repr

structure Torrent (Tracker : Type) where
  path : Option CString
  name : Option (List UInt8)
  hash : Option CString
  trackers : Option (Linkedlist Tracker)

/-- The local variable `hashmap`. -/
inductive LocalHashmap where
  | null
  | made (map : Hashmap (List UInt8))
  | wild

@[simp]
def LocalHashmap.isMade : LocalHashmap → Bool
  | .made _ => true
  | _ => false

/-- A torrent, the local variables of `Torrent_parse` and the log. -/
structure Parsing (Tracker : Type) where
  torrent : Torrent Tracker
  torrentFile : Bool
  torrentContent : Bool
  hashmap : LocalHashmap
  log : List (Ownership TorrentThing)

/-- What the machine decides during a parse. -/
structure ParseWorld (Tracker : Type) where
  hashmapIsJunk : Bool
  file : Option (List UInt8)
  contentGranted : Bool
  delivered : Nat
  content : Surroundings
  hashmapGranted : Bool
  trackersGranted : Bool
  nodeGranted : Nat → Bool
  trackerNew : CString → Exec Tracker
  nameGranted : Bool
  name : Surroundings
  hashGranted : Bool

/-- Where the body of `Torrent_parse` is left. -/
inductive ParseEnd where
  | opening
  | allocatingContent
  | reading
  | allocatingHashmap
  | allocatingTrackers
  | parsing
  | allocatingHash
  | done
  deriving DecidableEq, Repr

def create (thing : TorrentThing) : Prog (Parsing Tracker) Unit :=
  modifyState fun this => { this with log := this.log ++ [.created thing] }

def release (thing : TorrentThing) : Prog (Parsing Tracker) Unit :=
  modifyState fun this => { this with log := this.log ++ [.released thing] }

/-- A pointer that is tested before it is freed. -/
def releaseIf (present : Bool) (thing : TorrentThing) :
    Prog (Parsing Tracker) Unit :=
  if present then release thing else pure ()

def updateTorrent (change : Torrent Tracker → Torrent Tracker) :
    Prog (Parsing Tracker) Unit :=
  modifyState fun this => { this with torrent := change this.torrent }

/-! ## The loop -/

/-- The call at the end of a value, with what it creates and releases. -/
def parseParameter (world : ParseWorld Tracker) (scan : MagnetScan Tracker) :
    Prog (Parsing Tracker) (ExitCode × MagnetScan Tracker) :=
  if (CString.ofBytes scan.keyBuffer.cells).bytes ≠ text "tr" then
    -- `Hashmap_set` owns its copies, which the map releases
    liftExec (storeParameter world.trackerNew scan)
  else do
    let address ← liftExec (readString scan.valueBuffer.cells)
    let tracker ← liftExec (world.trackerNew address)
    let index := scan.trackers.values.length
    create (.trackerMade index)
    let (code, trackers) :=
      linkedlistAppendOn (world.nodeGranted index) scan.trackers tracker
    let calls :=
      scan.calls ++ [.trackerNew address, .trackersAppend tracker]
    match code with
    | .failure => pure (.failure, { scan with trackers, calls })
    | .success => do
        create (.node index)
        create (.tracker index)
        updateTorrent fun torrent => { torrent with trackers := some trackers }
        -- the copy in the list keeps what the tracker points to
        release (.trackerMade index)
        pure (.success, { scan with
          trackers
          calls
          keyBuffer := scan.keyBuffer.clear
          valueBuffer := scan.valueBuffer.clear })

/-- The state at the end of a value, if a round ends one. -/
def endedValue (inputLen : Int) (i : Nat) (byte : UInt8)
    (scan : MagnetScan Tracker) : Option (MagnetScan Tracker) :=
  if scan.key then
    none
  else if byte ≠ ch '&' ∧ scan.strPos < 256 ∧ (i : Int) < inputLen then
    none
  else
    some { scan with
      valueBuffer :=
        if (i : Int) = inputLen then
          scan.valueBuffer.store scan.strPos byte
        else
          scan.valueBuffer
      key := true
      strPos := 0 }

/-- One round of the loop.  The other branches call nothing. -/
def parseStep (world : ParseWorld Tracker) (inputLen : Int) (i : Nat)
    (byte : UInt8) (scan : MagnetScan Tracker) :
    Prog (Parsing Tracker) (ExitCode × MagnetScan Tracker) :=
  match endedValue inputLen i byte scan with
  | some ended => parseParameter world ended
  | none => liftExec (scanStep world.trackerNew inputLen i byte scan)

/-- The loop from position `i`. -/
def parseLoop (world : ParseWorld Tracker) (inputLen : Int) :
    List UInt8 → Nat → MagnetScan Tracker →
      Prog (Parsing Tracker) (ExitCode × MagnetScan Tracker)
  | [], i, scan => do
      let _ ← liftExec (subscript i)
      pure (.success, scan)
  | byte :: rest, i, scan => do
      let _ ← liftExec (subscript i)
      let (code, scan) ← parseStep world inputLen i byte scan
      match code with
      | .failure => pure (.failure, scan)
      | .success => parseLoop world inputLen rest (i + 1) scan

section Refines

variable {world : ParseWorld Tracker} {state : Parsing Tracker}

theorem scanStep_ended {trackerNew : CString → Exec Tracker}
    {inputLen : Int} {i : Nat} {byte : UInt8}
    {scan ended : MagnetScan Tracker}
    (ends : endedValue inputLen i byte scan = some ended) :
    scanStep trackerNew inputLen i byte scan =
      storeParameter trackerNew ended := by
  rw [endedValue] at ends
  by_cases key : scan.key = true
  · rw [if_pos key] at ends
    cases ends
  · rw [if_neg key] at ends
    by_cases inside : byte ≠ ch '&' ∧ scan.strPos < 256 ∧ (i : Int) < inputLen
    · rw [if_pos inside] at ends
      cases ends
    · rw [if_neg inside] at ends
      cases ends
      rw [scanStep, if_neg key, if_neg inside]

theorem parseParameter_answers
    (granted : ∀ index, world.nodeGranted index = true)
    (scan : MagnetScan Tracker) :
    ((parseParameter world scan).from state).1 =
      storeParameter world.trackerNew scan := by
  rw [parseParameter]
  by_cases other :
      (CString.ofBytes scan.keyBuffer.cells).bytes ≠ text "tr"
  · rw [if_pos other, liftExec_from]
  · rw [if_neg other, storeParameter, if_neg other]
    cases readString scan.valueBuffer.cells with
    | error stop => rfl
    | ok address =>
        cases made : world.trackerNew address with
        | error stop =>
            simp only [bind_from, liftExec_from, made, ok_bind, error_bind]
        | ok tracker =>
            simp only [bind_from, liftExec_from, made, ok_bind, create,
              modifyState_from, granted, linkedlistAppendOn, if_true,
              linkedlistAppend, updateTorrent, release, pure_from]
            rfl

/-- With every node allocated, the loop answers as the scanner does. -/
theorem parseLoop_answers
    (granted : ∀ index, world.nodeGranted index = true) {inputLen : Int}
    (bytes : List UInt8) (i : Nat) (scan : MagnetScan Tracker) :
    ((parseLoop world inputLen bytes i scan).from state).1 =
      scanLoop world.trackerNew inputLen bytes i scan := by
  induction bytes generalizing i scan state with
  | nil =>
      rw [parseLoop, scanLoop]
      cases subscript i with
      | error stop => rfl
      | ok inside => rfl
  | cons byte rest inductionHypothesis =>
      have step : ((parseStep world inputLen i byte scan).from state).1 =
          scanStep world.trackerNew inputLen i byte scan := by
        rw [parseStep]
        cases ends : endedValue inputLen i byte scan with
        | none => rfl
        | some ended =>
            rw [scanStep_ended ends]
            exact parseParameter_answers granted ended
      rw [parseLoop, scanLoop]
      cases subscript i with
      | error stop => rfl
      | ok inside =>
          rw [bind_from_ok (liftExec_from (.ok inside) _), ok_bind,
            bind_from]
          cases ran : (parseStep world inputLen i byte scan).from state with
          | mk answer after =>
              rw [ran] at step
              rw [← step]
              cases answer with
              | error stop => rfl
              | ok found =>
                  rcases found with ⟨code, next⟩
                  cases code with
                  | failure => rfl
                  | success => exact inductionHypothesis (i + 1) next

end Refines

/-! ## The body -/

theorem noNul_dn : 0 ∉ text "dn" := by
  decide

theorem noNul_xt : 0 ∉ text "xt" := by
  decide

def keyDn : CString :=
  ⟨text "dn", noNul_dn⟩

def keyXt : CString :=
  ⟨text "xt", noNul_xt⟩

/-- A value of the map as a string. -/
def hashmapString (hashmap : Hashmap (List UInt8)) (key : CString)
    (depth : Nat) : Exec CString := do
  match ← hashmapGet hashmap (some key) depth with
  | some value => readString (value ++ [0])
  | none => .error .nullPointer

/-- `string_urldecode`, which does not test its block before it stores. -/
def decodeName (world : ParseWorld Tracker) (dn : CString) :
    Exec (List UInt8) :=
  if world.nameGranted then
    pure (stringUrldecode world.name dn).cells
  else
    .error .nullPointer

/-- `Torrent_parse` behind its loop. -/
def parseNameAndHash (world : ParseWorld Tracker) (depth : Nat)
    (hashmap : Hashmap (List UInt8)) :
    Prog (Parsing Tracker) ParseEnd := do
  let dn ← liftExec (hashmapString hashmap keyDn depth)
  let name ← liftExec (decodeName world dn)
  create .name
  updateTorrent fun torrent => { torrent with name := some name }
  let xt ← liftExec (hashmapString hashmap keyXt depth)
  if world.hashGranted then
    create .hash
    updateTorrent fun torrent => { torrent with hash := some xt }
    pure .done
  else
    pure .allocatingHash

/-- `Torrent_parse` from its buffers on. -/
def parseMagnet (world : ParseWorld Tracker) (depth : Nat)
    (torrentContent : List UInt8) : Prog (Parsing Tracker) ParseEnd := do
  let subString ← liftExec (readString ((torrentContent ++ [0]).drop 8))
  let inputLen := toInt32 (subString.strlen - 1)
  let (code, scan) ← parseLoop world inputLen subString.bytes 0 magnetStart
  -- `hashmap` points to the map that the loop has filled
  modifyState fun this => { this with hashmap := .made scan.hashmap }
  match code with
  | .failure => pure .parsing
  | .success => parseNameAndHash world depth scan.hashmap

/-- `Torrent_parse` from the declaration of `hashmap` on, with the bytes of
the file in memory. -/
def parseContent (world : ParseWorld Tracker) (depth : Nat)
    (torrentContent : List UInt8) : Prog (Parsing Tracker) ParseEnd := do
  modifyState fun this => { this with hashmap := .null }
  if world.hashmapGranted then
    create .hashmap
    modifyState fun this => { this with hashmap := .made hashmapNew }
    if world.trackersGranted then
      create .trackers
      updateTorrent fun torrent =>
        { torrent with trackers := some linkedlistNew }
      parseMagnet world depth torrentContent
    else
      pure .allocatingTrackers
  else
    pure .allocatingHashmap

/-- The body of `Torrent_parse`, up to one of its clean-ups. -/
def torrentParseBody (world : ParseWorld Tracker) (depth : Nat) :
    Prog (Parsing Tracker) ParseEnd := do
  match world.file with
  | none => pure .opening
  | some bytes =>
      create .torrentFile
      modifyState fun this => { this with torrentFile := true }
      if world.contentGranted then
        create .torrentContent
        modifyState fun this => { this with torrentContent := true }
        let read := bytes.take world.delivered
        if read = [] then
          pure .reading
        else
          let torrentContent ← liftExec
            ((world.content.block bytes.length).copyIn 0 read)
          parseContent world depth torrentContent.cells
      else
        pure .allocatingContent

/-! ## Cleaning up -/

/-- The call `hashmap->destroy(hashmap)`.  A block that is given to `free`
twice ends the run. -/
def destroyHashmap : LocalHashmap → Prog (Parsing Tracker) Unit
  | .null => liftExec (.error .nullPointer)
  | .made map => do
      liftExec (freeEach (hashmapDestroy map))
      release .hashmap
  | .wild => do
      release .wild
      liftExec (.error .uninitialised)

/-- The clean-up behind the label `error`. -/
def torrentParseError : Prog (Parsing Tracker) ExitCode := do
  let this ← getState
  match this.hashmap with
  | .null => pure ()
  | hashmap => destroyHashmap hashmap
  releaseIf this.torrentContent .torrentContent
  releaseIf this.torrentFile .torrentFile
  releaseIf this.torrent.name.isSome .name
  releaseIf this.torrent.hash.isSome .hash
  pure .failure

/-- `Torrent_parse`. -/
def torrentParse (world : ParseWorld Tracker) (depth : Nat) :
    Prog (Parsing Tracker) ExitCode := do
  match ← torrentParseBody world depth with
  | .done =>
      let this ← getState
      destroyHashmap this.hashmap
      release .torrentFile
      release .torrentContent
      pure .success
  | _ => torrentParseError

/-- The loop over the nodes, which leaves no value in them. -/
def destroyTrackers : List Nat →
    Prog (Parsing Tracker) (List (Nat × Bool))
  | [] => pure []
  | index :: rest => do
      release (.tracker index)
      let others ← destroyTrackers rest
      pure ((index, false) :: others)

/-- `Linkednode_destroy`, on a node and whether it has a value. -/
def linkednodeDestroy : List (Nat × Bool) → Prog (Parsing Tracker) Unit
  | [] => pure ()
  | (index, hasValue) :: rest => do
      releaseIf hasValue (.tracker index)
      linkednodeDestroy rest
      release (.node index)

/-- `Torrent_destroy`. -/
def torrentDestroy : Prog (Parsing Tracker) Unit := do
  let this ← getState
  releaseIf this.torrent.path.isSome .path
  releaseIf this.torrent.name.isSome .name
  releaseIf this.torrent.hash.isSome .hash
  match this.torrent.trackers with
  | none => liftExec (.error .nullPointer)
  | some trackers =>
      let nodes ← destroyTrackers (List.range trackers.values.length)
      linkednodeDestroy nodes
      release .trackers
      release .torrent

/-- A torrent behind `Torrent_new`, when `Torrent_parse` is called. -/
def parsingStart (world : ParseWorld Tracker) (path : CString) :
    Parsing Tracker where
  torrent := ⟨some path, none, none, none⟩
  torrentFile := false
  torrentContent := false
  hashmap := if world.hashmapIsJunk then .wild else .null
  log := [.created .torrent, .created .path]

end UvgTorrent
