import UvgTorrent.Torrent.IncompleteMagnet
import UvgTorrent.Torrent.MagnetInverse
import UvgTorrent.Torrent.Session
import UvgTorrent.Tracker.ExchangeHash

/-!
# From the link to the wire

A magnet link names a hash and trackers.  The program finds these trackers and
no others, and whatever it sends to them or to the peers that they name tells
the hash of the link.
-/

namespace UvgTorrent

open CProgram CText CArray MachineInt

/-! ## Links -/

/-- The parameters that name trackers. -/
def trackerPairs (pairs : List MagnetPair) : List MagnetPair :=
  pairs.filter fun pair => pair.key.bytes = text "tr"

/-- What the others store. -/
def storedPairs (pairs : List MagnetPair) :
    List (CString × List UInt8) :=
  (pairs.filter fun pair => pair.key.bytes ≠ text "tr").map
    fun pair => (pair.key, pair.value.bytes)

/-- A key came first to its slot. -/
def FirstInSlot (history : List (CString × List UInt8)) (key : CString)
    (value : List UInt8) : Prop :=
  ∃ rest, slotWrites history key = (key, value) :: rest

/-- An endpoint with the host and the port of a tracker's address. -/
def EndpointOf (pair : MagnetPair) (endpoint : TrackerEndpoint) : Prop :=
  ∃ parts : AddressParts, (decodedString pair.value).bytes = parts.text ∧
    endpoint.url.bytes = parts.host ∧
    atoi (endpoint.port.bytes ++ [0]) = .ok parts.port

/-- A link with a name, the hash and addresses of trackers, none of whose
other parameters shares a slot of the map with another. -/
structure LinkNames (pairs : List MagnetPair) (infoHash : InfoHash) :
    Prop where
  nonempty : pairs ≠ []
  lastValue : (pairs.getLast nonempty).value.bytes ≠ []
  size : (serialise pairs).length < 2 ^ 31
  room : HasRoom hashmapNew pairs
  name : ∃ name, 0 ∉ name ∧ FirstInSlot (storedPairs pairs) keyDn name
  hash : FirstInSlot (storedPairs pairs) keyXt (urnOf infoHash).bytes
  apart : (slots (storedPairs pairs)).Nodup
  addresses : ∀ pair ∈ trackerPairs pairs, ∃ parts : AddressParts,
    (decodedString pair.value).bytes = parts.text

/-- Every block of the program is allocated, and the file is read as a
whole. -/
structure SessionWorld.Granted (world : SessionWorld)
    (torrentContent : List UInt8) : Prop where
  torrent : world.torrentGranted = true
  path : world.pathGranted = true
  parse : world.parseWorld.Granted torrentContent
  tracker : ∀ address, world.trackerGranted address = true
  address : ∀ address, (world.address address).Granted

/-! ## The trackers -/

section Trackers

variable {world : SessionWorld}

/-- What `Tracker_new` makes of an address. -/
def SessionWorld.endpoint (world : SessionWorld) (address : CString) :
    TrackerEndpoint :=
  match world.trackerNew address with
  | .ok this => this
  | .error _ => ⟨address, address, ⟨[], []⟩⟩

theorem trackerNew_address {torrentContent : List UInt8}
    (granted : world.Granted torrentContent) {pair : MagnetPair}
    {parts : AddressParts}
    (decodes : (decodedString pair.value).bytes = parts.text) :
    world.trackerNew pair.value = .ok (world.endpoint pair.value) ∧
      EndpointOf pair (world.endpoint pair.value) := by
  rcases trackerInit_address (granted.address pair.value) pair.valueShort
    decodes with ⟨this, made, url, port⟩
  have new : world.trackerNew pair.value = .ok this := by
    rw [SessionWorld.trackerNew, if_pos (granted.tracker _), made, ok_bind]
    rfl
  have same : world.endpoint pair.value = this := by
    rw [SessionWorld.endpoint, new]
  rw [same]
  exact ⟨new, parts, decodes, url, port⟩

variable {Tracker : Type} {tracker : CString → Tracker}

theorem afterPair_trackers (scan : MagnetScan Tracker)
    (pairs : List MagnetPair) :
    (pairs.foldl (afterPair tracker) scan).trackers.values =
      scan.trackers.values ++
        (trackerPairs pairs).map fun pair => tracker pair.value := by
  induction pairs generalizing scan with
  | nil =>
      exact (List.append_nil _).symm
  | cons pair rest inductionHypothesis =>
      rw [List.foldl_cons, inductionHypothesis, trackerPairs, trackerPairs,
        afterPair]
      by_cases isTracker : pair.key.bytes = text "tr"
      · rw [if_pos isTracker, List.filter_cons_of_pos (by simpa),
          List.map_cons, ← List.singleton_append, ← List.append_assoc]
        rfl
      · rw [if_neg isTracker, List.filter_cons_of_neg (by simpa)]

theorem afterPair_chains {history : List (CString × List UInt8)}
    {scan : MagnetScan Tracker} (holds : ChainsHold history scan.hashmap)
    (pairs : List MagnetPair) :
    ChainsHold (history ++ storedPairs pairs)
      (pairs.foldl (afterPair tracker) scan).hashmap := by
  induction pairs generalizing history scan with
  | nil =>
      rw [storedPairs, List.filter_nil, List.map_nil, List.append_nil]
      exact holds
  | cons pair rest inductionHypothesis =>
      rw [List.foldl_cons, afterPair, storedPairs]
      by_cases isTracker : pair.key.bytes = text "tr"
      · rw [if_pos isTracker, List.filter_cons_of_neg (by simpa)]
        exact inductionHypothesis holds
      · rw [if_neg isTracker, List.filter_cons_of_pos (by simpa),
          List.map_cons, List.append_cons]
        exact inductionHypothesis (chainsHold_store holds _ _)

end Trackers

/-! ## The parse -/

section Parse

variable {Tracker : Type} {world : ParseWorld Tracker} {depth : Nat}
  {torrentContent : List UInt8}

theorem hashmapString_first {history : List (CString × List UInt8)}
    {map : Hashmap (List UInt8)} {key : CString} {value : List UInt8}
    (holds : ChainsHold history map) (short : key.bytes.length < 2 ^ 32)
    (first : FirstInSlot history key value) (noNul : 0 ∉ value) :
    hashmapString map key (depth + 1) = .ok ⟨value, noNul⟩ := by
  rcases first with ⟨rest, writes⟩
  have found : hashmapGet map (some key) (depth + 1) = .ok (some value) := by
    rw [hashmapGet_of_chainsHold holds short, writes]
    exact bucketGet_first key value rest depth
  rw [hashmapString, found, ok_bind]
  exact readString_stored ⟨value, noNul⟩ []

open Parsing in
/-- With the file in memory the body comes to the text with an empty list. -/
theorem torrentParseBody_loaded (granted : world.Granted torrentContent)
    (nonempty : torrentContent ≠ []) (path : CString) :
    ∃ state, (torrentParseBody world depth).from (parsingStart world path) =
        (parseMagnet world depth torrentContent).from state ∧
      state.Building ∧ state.torrent.trackers = some linkedlistNew := by
  have read : torrentContent.take world.delivered = torrentContent :=
    List.take_of_length_le granted.whole
  have copied : (world.content.block torrentContent.length).copyIn 0
      torrentContent = .ok ⟨torrentContent, []⟩ := by
    rw [Buffer.copyIn_of_le (by
      rw [Nat.zero_add, Surroundings.block_length])]
    simp [Surroundings.block, Buffer.ofCells]
  have opened : Building { parsingStart world path with
      torrentFile := true
      log := (parsingStart world path).log ++ [.created .torrentFile] } :=
    (parsingStart_building world path).create rfl
      (by simp [Made, Holds, parsingStart, trackerCount])
      (fun other => by
        cases other <;> simp [Holds, trackerCount, parsingStart]) rfl
  have filled : Building { parsingStart world path with
      torrentFile := true
      torrentContent := true
      log := (parsingStart world path).log ++ [.created .torrentFile] ++
        [.created .torrentContent] } :=
    opened.create rfl (by simp [Made, Holds, parsingStart, trackerCount])
      (fun other => by
        cases other <;> simp [Holds, trackerCount, parsingStart]) rfl
  have initialised := @building_repointed _ _ .null filled
    (parsingStart_unmade world path).symm
  have mapped : Building { parsingStart world path with
      torrentFile := true
      torrentContent := true
      hashmap := .made hashmapNew
      log := (parsingStart world path).log ++ [.created .torrentFile] ++
        [.created .torrentContent] ++ [.created .hashmap] } :=
    initialised.create rfl
      (by simp [Made, Holds, parsingStart, trackerCount])
      (fun other => by
        cases other <;> simp [Holds, trackerCount, parsingStart]) rfl
  have listed : Building { parsingStart world path with
      torrent := { (parsingStart world path).torrent with
        trackers := some linkedlistNew }
      torrentFile := true
      torrentContent := true
      hashmap := .made hashmapNew
      log := (parsingStart world path).log ++ [.created .torrentFile] ++
        [.created .torrentContent] ++ [.created .hashmap] ++
        [.created .trackers] } :=
    mapped.create rfl (by simp [Made, Holds, parsingStart, trackerCount])
      (fun other => by
        cases other <;>
          simp [Holds, trackerCount, parsingStart, linkedlistNew])
      (by simp [trackerCount, parsingStart, linkedlistNew])
  refine ⟨_, ?_, listed, rfl⟩
  rw [torrentParseBody, granted.file]
  simp only [granted.content, if_true, read, if_neg nonempty, copied,
    create, bind_from, modifyState_from, liftExec_from, parseContent,
    granted.hashmap, granted.trackers, updateTorrent]

/-- What the scan of a link leaves. -/
structure LinkScanned (tracker : CString → Tracker)
    (pairs : List MagnetPair) (final : MagnetScan Tracker) : Prop where
  trackers : final.trackers.values =
    (trackerPairs pairs).map fun pair => tracker pair.value
  chains : ChainsHold (storedPairs pairs) final.hashmap

theorem scanMagnet_link {tracker : CString → Tracker}
    {pairs : List MagnetPair} {infoHash : InfoHash}
    (names : LinkNames pairs infoHash)
    (answers : ∀ pair ∈ trackerPairs pairs,
      world.trackerNew pair.value = .ok (tracker pair.value)) :
    ∃ final, scanMagnet world.trackerNew
        (magnetPrefix ++ serialise pairs) = .ok (.success, final) ∧
      LinkScanned tracker pairs final := by
  have positive := serialise_length_pos names.nonempty
  have size := names.size
  have inputLen : toInt32 ((serialise pairs).length - 1) =
      (serialise pairs).length - 1 :=
    toInt32_of_range (by omega) (by omega)
  have ran := @scanLoop_serialise Tracker world.trackerNew tracker
    ((serialise pairs).length - 1) magnetStart pairs 0 names.nonempty
    names.lastValue (by omega) (by omega) names.room
    (fun pair member isTracker => answers pair
      (List.mem_filter.mpr ⟨member, by simpa using isTracker⟩))
  refine ⟨readingKey (pairs.foldl (afterPair tracker) magnetStart) [], ?_,
    afterPair_trackers magnetStart pairs, ?_⟩
  · rw [scanMagnet_serialise, inputLen]
    exact ran
  · exact @afterPair_chains Tracker tracker [] magnetStart (fun _ => rfl)
      pairs

/-- What the parse of a link leaves in the torrent. -/
structure LinkParsed (tracker : CString → Tracker)
    (pairs : List MagnetPair) (infoHash : InfoHash)
    (torrent : Torrent Tracker) : Prop where
  hash : torrent.hash = some (urnOf infoHash)
  trackers : ∃ trackers, torrent.trackers = some trackers ∧
    trackers.values =
      (trackerPairs pairs).map fun pair => tracker pair.value

/-- The parse of a link once the loop is left. -/
theorem parseNameAndHash_link {tracker : CString → Tracker}
    {pairs : List MagnetPair} {infoHash : InfoHash}
    (names : LinkNames pairs infoHash) {map : Hashmap (List UInt8)}
    (chains : ChainsHold (storedPairs pairs) map)
    (nameGranted : world.nameGranted = true)
    (hashGranted : world.hashGranted = true) {state : Parsing Tracker}
    {trackers : Linkedlist Tracker}
    (isSome : state.torrent.trackers = some trackers)
    (values : trackers.values =
      (trackerPairs pairs).map fun pair => tracker pair.value) :
    ∃ after, (parseNameAndHash world (depth + 1) map).from state =
        (.ok .done, after) ∧
      LinkParsed tracker pairs infoHash after.torrent := by
  rcases names.name with ⟨name, noNul, first⟩
  have dn := @hashmapString_first depth _ _ _ _ chains (by decide) first
    noNul
  have xt := @hashmapString_first depth _ _ _ _ chains (by decide)
    names.hash (urnOf infoHash).noNul
  have decoded : decodeName world ⟨name, noNul⟩ =
      .ok (stringUrldecode world.name ⟨name, noNul⟩).cells :=
    if_pos nameGranted
  rw [parseNameAndHash, dn, xt]
  simp only [bind_from, liftExec_from, decoded, create, updateTorrent,
    modifyState_from, hashGranted, if_true, pure_from]
  exact ⟨_, rfl, rfl, trackers, isSome, values⟩

theorem torrentParse_link {tracker : CString → Tracker}
    {pairs : List MagnetPair} {infoHash : InfoHash}
    (granted : world.Granted (magnetPrefix ++ serialise pairs))
    (names : LinkNames pairs infoHash)
    (answers : ∀ pair ∈ trackerPairs pairs,
      world.trackerNew pair.value = .ok (tracker pair.value))
    (path : CString) :
    ∃ after, (torrentParse world (depth + 1)).from
        (parsingStart world path) = (.ok .success, after) ∧
      LinkParsed tracker pairs infoHash after.torrent := by
  have nonempty : magnetPrefix ++ serialise pairs ≠ [] :=
    List.append_ne_nil_of_left_ne_nil (by decide) _
  rcases @torrentParseBody_loaded _ world (depth + 1) _ granted nonempty path
    with ⟨state, body, building, isSome⟩
  rcases scanMagnet_link names answers with ⟨final, scanned, behind⟩
  have enough : 8 ≤ (magnetPrefix ++ serialise pairs).length := by
    rw [List.length_append]
    exact Nat.le_add_right 8 _
  have looped := @parseLoop_answers _ world state granted.nodes
    (toInt32 ((magnetText (magnetPrefix ++ serialise pairs)).strlen - 1))
    (magnetText (magnetPrefix ++ serialise pairs)).bytes 0 magnetStart
  rw [← scanMagnet_text enough, scanned] at looped
  rcases loop : (parseLoop world
    (toInt32 ((magnetText (magnetPrefix ++ serialise pairs)).strlen - 1))
    (magnetText (magnetPrefix ++ serialise pairs)).bytes 0
      magnetStart).from state with ⟨answer, reached⟩
  rw [loop] at looped
  cases looped
  have ends := parseLoop_ends building isSome loop
  rcases @parseNameAndHash_link _ world depth tracker pairs infoHash names _
    behind.chains granted.name granted.hash
    { reached with hashmap := .made final.hashmap } _ ends.trackers
    behind.trackers with ⟨after, ran, parsed⟩
  have magnet : (parseMagnet world (depth + 1)
      (magnetPrefix ++ serialise pairs)).from state =
        (.ok .done, after) := by
    rw [parseMagnet, readString_magnetText enough,
      bind_from_ok (liftExec_from (.ok _) _)]
    simp only []
    rw [bind_from_ok loop]
    simp only []
    rw [bind_from_ok (modifyState_from _ _)]
    exact ran
  have made : after.hashmap = .made final.hashmap :=
    parseNameAndHash_hashmap ran
  have once := (hashmapDestroy_nodup_iff final.hashmap).mpr
    ((unchained_iff_nodup behind.chains).mpr names.apart)
  rw [torrentParse, bind_from_ok (body.trans magnet)]
  simp only []
  rw [bind_from_ok (getState_from after), made,
    bind_from_ok (destroyHashmap_from once)]
  exact ⟨_, rfl, parsed⟩

end Parse

/-! ## The program -/

section Program

variable {order : ByteOrder} {hash : CString} {depth : Nat}

theorem runEach_length {σ α : Type} (program : Prog σ α) (states : List σ) :
    ((runEach program).from states).2.length = states.length := by
  induction states with
  | nil =>
      rfl
  | cons state rest inductionHypothesis =>
      rw [runEach_cons]
      cases program.from state with
      | mk answer final =>
          cases answer with
          | error stop => rfl
          | ok value => exact congrArg Nat.succ inductionHypothesis

def AsMany (count : Nat) (runs : List TrackerRun) : Prop :=
  runs.length = count

/-- No tracker comes and none goes. -/
theorem torrentTalk_asMany (runs : List TrackerRun) :
    AsMany runs.length ((torrentTalk order hash depth).from runs).2 := by
  have connected : AsMany runs.length
      ((torrentConnect order).from runs).2 := by
    have each : AsMany runs.length
        ((runEach (trackerConnect order)).from runs).2 :=
      runEach_length _ runs
    refine bind_ends each fun statuses reached same => ?_
    dsimp only
    split
    · exact same
    · exact same
  refine bind_ends connected fun connection reached same => ?_
  split
  · exact same
  · have each : AsMany runs.length
        ((runEach (trackerAnnounce order hash depth)).from reached).2 :=
      (runEach_length _ reached).trans same
    exact bind_ends each fun _ _ last => last

/-- What a run on a link comes to. -/
structure TellsLink (futures : Nat → TrackerFuture)
    (pairs : List MagnetPair) (infoHash : InfoHash) (session : Session) :
    Prop where
  trackers : ∃ trackers, session.parsing.torrent.trackers = some trackers ∧
    List.Forall₂ EndpointOf (trackerPairs pairs) trackers.values
  runs : session.runs.length = (trackerPairs pairs).length
  tells : List.Forall₂
    (fun index run => AllTellHash (futures index) infoHash.bytes run)
    (List.range session.runs.length) session.runs

/-- Behind a parse that succeeds the torrent stays as it is. -/
theorem withTorrent_torrent {world : SessionWorld} {path : CString}
    {parsing : Parsing TrackerEndpoint} {trackers : Linkedlist TrackerEndpoint}
    (parsed : (torrentParse world.parseWorld depth).from
      (parsingStart world.parseWorld path) = (.ok .success, parsing))
    (hashed : parsing.torrent.hash = some hash)
    (isSome : parsing.torrent.trackers = some trackers) :
    ((withTorrent world order depth).from
      (sessionStart world path)).2.parsing.torrent = parsing.torrent := by
  have start : (torrentParse world.parseWorld depth).from
      (sessionStart world path).parsing = (.ok .success, parsing) :=
    parsed
  have talk : ((talkAfterParse world order depth).from
      (sessionStart world path)).2.parsing = parsing := by
    rw [talkAfterParse, bind_from, onParsing, onPart_from, start]
    simp only [meetTrackers, bind_from, modifyState_from, getState_from,
      hashed]
    rfl
  rw [withTorrent, bind_from]
  cases talked : (talkAfterParse world order depth).from
      (sessionStart world path) with
  | mk answer after =>
      rw [talked] at talk
      subst talk
      cases answer with
      | error stop => rfl
      | ok code =>
          simp only [bind_from, onParsing, onPart_from,
            torrentDestroy_from isSome]
          rfl

end Program

/-- The trackers are those of the link, and everything that is said to them
and to their peers tells its hash, whatever the network does. -/
theorem uvgTorrentMain_tellsLink {world : SessionWorld}
    {pairs : List MagnetPair} {infoHash : InfoHash}
    (granted : world.Granted (magnetPrefix ++ serialise pairs))
    (names : LinkNames pairs infoHash) (order : ByteOrder) (depth : Nat)
    (name path : CString) :
    ∃ session,
      (uvgTorrentMain world order (depth + 1) [name, path]).2 =
        some session ∧
      TellsLink world.future pairs infoHash session := by
  have made : ∀ pair ∈ trackerPairs pairs,
      world.trackerNew pair.value = .ok (world.endpoint pair.value) ∧
        EndpointOf pair (world.endpoint pair.value) := by
    intro pair member
    rcases names.addresses pair member with ⟨parts, decodes⟩
    exact trackerNew_address granted decodes
  rcases @torrentParse_link _ world.parseWorld depth world.endpoint pairs
    infoHash granted.parse names (fun pair member => (made pair member).1)
    path with ⟨parsing, parsed, hashed, trackers, isSome, values⟩
  have kept := @withTorrent_torrent order _ _ world path _ _ parsed hashed
    isSome
  have said := withTorrent_runs world order (depth + 1) path
  rw [parsed, SessionWorld.said, hashed] at said
  refine ⟨((withTorrent world order (depth + 1)).from
    (sessionStart world path)).2, ?_, ⟨trackers, ?_, ?_⟩, ?_, ?_⟩
  · rw [uvgTorrentMain, if_pos granted.torrent, if_pos granted.path]
  · rw [kept, isSome]
  · rw [values, List.forall₂_map_right_iff, List.forall₂_same]
    exact fun pair member => (made pair member).2
  · rw [said]
    simp only []
    rw [torrentTalk_asMany, SessionWorld.met, List.length_map,
      List.length_range, Parsing.trackerCount, isSome]
    simp only [values, List.length_map]
  · have met : List.Forall₂
        (fun index run =>
          TalksOneHash (world.future index) infoHash.bytes run)
        (List.range parsing.trackerCount) (world.met parsing) := by
      rw [SessionWorld.met, List.forall₂_map_right_iff, List.forall₂_same]
      exact fun index _ => (world.future index).start_talksOneHash _
    have talked := TalkInvariant.torrentTalk_along (fun index =>
      talksOneHash_invariant order infoHash (world.future index))
      (depth + 1) met
    rw [said]
    simp only []
    rw [← talked.length_eq, List.length_range]
    exact talked.imp fun _ _ talks => talks.told

/-! ## A link with one tracker -/

def namePair : MagnetPair :=
  ⟨keyDn, ⟨text "n", by decide⟩, by decide, by decide, by decide,
    by decide⟩

def hashPair : MagnetPair :=
  ⟨keyXt, urnOf zeroHash, by decide, by decide, by decide, by decide⟩

def addressPair : MagnetPair :=
  ⟨pairTr.key, encodedAddress, pairTr.keyShort, pairTr.keyFree, by decide,
    by decide⟩

def linkPairs : List MagnetPair :=
  [namePair, hashPair, addressPair]

theorem linkPairs_names : LinkNames linkPairs zeroHash where
  nonempty := List.cons_ne_nil _ _
  lastValue := by decide
  size := by decide
  room := by
    have first : ¬ namePair.key.bytes = text "tr" := by decide
    have second : ¬ hashPair.key.bytes = text "tr" := by decide
    have third : addressPair.key.bytes = text "tr" := by decide
    rw [linkPairs, HasRoom, if_neg first, HasRoom, if_neg second, HasRoom,
      if_pos third]
    exact ⟨by decide, by decide +kernel, trivial⟩
  name := ⟨text "n", by decide, [], by decide +kernel⟩
  hash := ⟨[], by decide +kernel⟩
  apart := by decide +kernel
  addresses := by
    have decodes : (decodedString encodedAddress).bytes =
        text "udp://host:80/a:b" := by
      decide
    have isPort : PortDigits (text "80") 80 :=
      ⟨by decide, List.all_eq_true.mp (by decide), by decide, by decide⟩
    have only : trackerPairs linkPairs = [addressPair] := by
      rw [trackerPairs, linkPairs, List.filter_cons_of_neg (by decide),
        List.filter_cons_of_neg (by decide),
        List.filter_cons_of_pos (by decide), List.filter_nil]
    intro pair member
    rw [only, List.mem_singleton] at member
    subst member
    exact ⟨⟨text "udp", text "host", text "80", 80, text "/a:b", by decide,
      by decide, isPort, .inr ⟨text "a:b", rfl⟩⟩, decodes⟩

def linkWorld : SessionWorld where
  torrentGranted := true
  pathGranted := true
  parse :=
    { hashmapIsJunk := false
      file := some (magnetPrefix ++ serialise linkPairs)
      contentGranted := true
      delivered := (magnetPrefix ++ serialise linkPairs).length
      content := ⟨0, fun _ => 0⟩
      hashmapGranted := true
      trackersGranted := true
      nodeGranted := fun _ => true
      trackerNew := fun _ => .error .nullPointer
      nameGranted := true
      name := ⟨0, fun _ => 0⟩
      hashGranted := true }
  trackerGranted := fun _ => true
  address := fun _ => grantingAddressWorld
  future := fun _ => answeredFuture true

theorem uvgTorrentMain_tellsLink_one :
    ∃ session,
      (uvgTorrentMain linkWorld .little 2 [shortPath, shortPath]).2 =
        some session ∧
      TellsLink linkWorld.future linkPairs zeroHash session :=
  uvgTorrentMain_tellsLink
    ⟨rfl, rfl, ⟨rfl, le_rfl, rfl, rfl, rfl, fun _ => rfl, rfl, rfl⟩,
      fun _ => rfl, fun _ => ⟨rfl, rfl, rfl, rfl⟩⟩
    linkPairs_names .little 1 shortPath shortPath

end UvgTorrent
