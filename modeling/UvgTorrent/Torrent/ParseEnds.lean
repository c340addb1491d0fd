import UvgTorrent.Torrent.Parse

/-!
# Where the body of the parse ends

What a torrent and the local variables of `Torrent_parse` hold at each place
where the body is left.
-/

namespace UvgTorrent

open CProgram CText CArray MachineInt EventLog OwnershipLog

variable {Tracker : Type}

/-! ## What a state holds -/

namespace Parsing

def trackerCount (state : Parsing Tracker) : Nat :=
  match state.torrent.trackers with
  | some trackers => trackers.values.length
  | none => 0

def Holds (state : Parsing Tracker) : TorrentThing → Prop
  | .torrent => True
  | .path => state.torrent.path.isSome = true
  | .torrentFile => state.torrentFile = true
  | .torrentContent => state.torrentContent = true
  | .hashmap => state.hashmap.isMade = true
  | .trackers => state.torrent.trackers.isSome = true
  | .trackerMade _ => False
  | .tracker index => index < state.trackerCount
  | .node index => index < state.trackerCount
  | .name => state.torrent.name.isSome = true
  | .hash => state.torrent.hash.isSome = true
  | .wild => False

/-- What may have been created. -/
def Made (state : Parsing Tracker) (thing : TorrentThing) : Prop :=
  state.Holds thing ∨
    ∃ index, index < state.trackerCount ∧ thing = .trackerMade index

/-- A state on the way through the body of `Torrent_parse`. -/
def Building (state : Parsing Tracker) : Prop :=
  Owned state.Holds state.Made state.log

/-- A state in which everything that it holds can be released. -/
def Releasable (state : Parsing Tracker) : Prop :=
  Owned state.Holds (fun _ => True) state.log

theorem Building.releasable {state : Parsing Tracker}
    (building : state.Building) : state.Releasable :=
  building.weaken (fun _ holds => holds) fun _ _ => trivial

/-- A thing is created and its pointer stored. -/
theorem Building.create {state after : Parsing Tracker}
    {thing : TorrentThing} (building : state.Building)
    (log : after.log = state.log ++ [.created thing])
    (fresh : ¬ state.Made thing)
    (holds : ∀ other, after.Holds other ↔ other = thing ∨ state.Holds other)
    (count : after.trackerCount = state.trackerCount) : after.Building := by
  have owned := Owned.create building fresh
  rw [← log] at owned
  refine owned.weaken (fun other held => (holds other).mp held) ?_
  rintro other (rfl | held | counted)
  · exact .inl ((holds other).mpr (.inl rfl))
  · exact .inl ((holds other).mpr (.inr held))
  · exact .inr (count ▸ counted)

/-- What the loop does not touch. -/
structure Framed (state after : Parsing Tracker) : Prop where
  path : after.torrent.path = state.torrent.path
  name : after.torrent.name = state.torrent.name
  hash : after.torrent.hash = state.torrent.hash
  torrentFile : after.torrentFile = state.torrentFile
  torrentContent : after.torrentContent = state.torrentContent
  hashmap : after.hashmap = state.hashmap

theorem Framed.refl (state : Parsing Tracker) : Framed state state :=
  ⟨rfl, rfl, rfl, rfl, rfl, rfl⟩

theorem Framed.trans {first second third : Parsing Tracker}
    (front : Framed first second) (back : Framed second third) :
    Framed first third :=
  ⟨back.path.trans front.path, back.name.trans front.name,
    back.hash.trans front.hash, back.torrentFile.trans front.torrentFile,
    back.torrentContent.trans front.torrentContent,
    back.hashmap.trans front.hashmap⟩

/-- What the loop over the parameters creates and releases. -/
def OfTrackers : TorrentThing → Prop
  | .trackers => True
  | .trackerMade _ => True
  | .tracker _ => True
  | .node _ => True
  | _ => False

theorem Framed.symm {state after : Parsing Tracker}
    (framed : Framed state after) : Framed after state :=
  ⟨framed.path.symm, framed.name.symm, framed.hash.symm,
    framed.torrentFile.symm, framed.torrentContent.symm,
    framed.hashmap.symm⟩

theorem Framed.holds {state after : Parsing Tracker}
    (framed : Framed state after) {thing : TorrentThing}
    (holds : state.Holds thing) (outside : ¬ OfTrackers thing) :
    after.Holds thing := by
  cases thing with
  | torrent => trivial
  | path => rwa [Holds, framed.path]
  | torrentFile => rwa [Holds, framed.torrentFile]
  | torrentContent => rwa [Holds, framed.torrentContent]
  | hashmap => rwa [Holds, framed.hashmap]
  | name => rwa [Holds, framed.name]
  | hash => rwa [Holds, framed.hash]
  | wild => exact holds
  | _ => exact absurd trivial outside

end Parsing

/-! ## The loop -/

section Loop

open Parsing

variable {world : ParseWorld Tracker} {state : Parsing Tracker}

/-- What the loop leaves behind. -/
structure LoopEnds (state : Parsing Tracker) (code : ExitCode)
    (scan : MagnetScan Tracker) (after : Parsing Tracker) : Prop where
  releasable : after.Releasable
  building : code = .success → after.Building
  trackers : after.torrent.trackers = some scan.trackers
  framed : Framed state after

theorem LoopEnds.ofBuilding {code : ExitCode} {scan : MagnetScan Tracker}
    {after : Parsing Tracker} (building : after.Building)
    (trackers : after.torrent.trackers = some scan.trackers)
    (framed : Framed state after) : LoopEnds state code scan after :=
  ⟨building.releasable, fun _ => building, trackers, framed⟩

theorem storeParameter_trackers {trackerNew : CString → Exec Tracker}
    {scan after : MagnetScan Tracker} {code : ExitCode}
    (other : (CString.ofBytes scan.keyBuffer.cells).bytes ≠ text "tr")
    (stored : storeParameter trackerNew scan = .ok (code, after)) :
    after.trackers = scan.trackers := by
  rw [storeParameter, if_pos other] at stored
  rcases (bind_eq_ok_iff _ _ _).mp stored with ⟨value, _, keyed⟩
  rcases (bind_eq_ok_iff _ _ _).mp keyed with ⟨key, _, setting⟩
  rcases (bind_eq_ok_iff _ _ _).mp setting with ⟨⟨answer, map⟩, _, last⟩
  cases answer with
  | failure =>
      cases last
      rfl
  | success =>
      cases last
      rfl

theorem scanStep_trackers {trackerNew : CString → Exec Tracker}
    {inputLen : Int} {i : Nat} {byte : UInt8}
    {scan after : MagnetScan Tracker} {code : ExitCode}
    (goesOn : endedValue inputLen i byte scan = none)
    (stepped : scanStep trackerNew inputLen i byte scan =
      .ok (code, after)) : after.trackers = scan.trackers := by
  rw [endedValue] at goesOn
  rw [scanStep] at stepped
  by_cases key : scan.key = true
  · rw [if_pos key] at stepped
    split at stepped
    · cases stepped
      rfl
    · cases stepped
      rfl
  · rw [if_neg key] at goesOn stepped
    split at stepped
    · cases stepped
      rfl
    · rename_i ends
      rw [if_neg ends] at goesOn
      cases goesOn

theorem trackerCount_some {trackers : Linkedlist Tracker}
    (isSome : state.torrent.trackers = some trackers) :
    state.trackerCount = trackers.values.length := by
  rw [trackerCount, isSome]

/-- A tracker is created, copied into the list and its first copy freed. -/
theorem building_append {trackers : Linkedlist Tracker} {tracker : Tracker}
    (building : state.Building)
    (isSome : state.torrent.trackers = some trackers)
    {after : Parsing Tracker} (framed : Framed state after)
    (grown : after.torrent.trackers =
      some ⟨trackers.values ++ [tracker], trackers.count + 1⟩)
    (log : after.log = state.log ++
      [.created (.trackerMade trackers.values.length)] ++
      [.created (.node trackers.values.length)] ++
      [.created (.tracker trackers.values.length)] ++
      [.released (.trackerMade trackers.values.length)]) :
    after.Building := by
  have before := trackerCount_some isSome
  have behind : after.trackerCount = trackers.values.length + 1 := by
    rw [trackerCount_some grown, List.length_append, List.length_singleton]
  have counted : ∀ {index}, index < after.trackerCount ↔
      index < state.trackerCount ∨ index = trackers.values.length := by
    intro index
    rw [behind, before]
    exact Nat.lt_succ_iff_lt_or_eq
  have unmade : ¬ state.Made (.trackerMade trackers.values.length) := by
    simp [Made, Holds, before]
  have made := Owned.create building unmade
  have noNode : ¬ (TorrentThing.node trackers.values.length =
      .trackerMade trackers.values.length ∨
      state.Made (.node trackers.values.length)) := by
    simp [Made, Holds, before]
  have node := made.create noNode
  have noCopy : ¬ (TorrentThing.tracker trackers.values.length =
      .node trackers.values.length ∨
      .tracker trackers.values.length =
        TorrentThing.trackerMade trackers.values.length ∨
      state.Made (.tracker trackers.values.length)) := by
    simp [Made, Holds, before]
  have copied := node.create noCopy
  have freed := copied.release (.inr (.inr (.inl rfl)))
  rw [← log] at freed
  refine freed.weaken ?_ ?_
  · intro thing holds
    cases thing with
    | trackers =>
        have present : state.Holds .trackers := by
          rw [Holds, isSome]
          rfl
        exact ⟨.inr (.inr (.inr present)), nofun⟩
    | trackerMade index =>
        exact holds.elim
    | tracker index =>
        refine ⟨?_, nofun⟩
        rcases counted.mp holds with earlier | rfl
        · exact .inr (.inr (.inr earlier))
        · exact .inl rfl
    | node index =>
        refine ⟨?_, nofun⟩
        rcases counted.mp holds with earlier | rfl
        · exact .inr (.inr (.inr earlier))
        · exact .inr (.inl rfl)
    | _ =>
        exact ⟨.inr (.inr (.inr (framed.symm.holds holds not_false))), nofun⟩
  · intro thing isMade
    rcases isMade with rfl | rfl | rfl | held | ⟨index, bound, rfl⟩
    · exact .inl (counted.mpr (.inr rfl))
    · exact .inl (counted.mpr (.inr rfl))
    · exact .inr ⟨_, counted.mpr (.inr rfl), rfl⟩
    · left
      cases thing with
      | trackers => rw [Holds, grown, Option.isSome_some]
      | trackerMade index => exact held
      | tracker index => exact counted.mpr (.inl held)
      | node index => exact counted.mpr (.inl held)
      | _ => exact framed.holds held not_false
    · exact .inr ⟨index, counted.mpr (.inl bound), rfl⟩

theorem parseParameter_ends {scan next : MagnetScan Tracker}
    {code : ExitCode} {after : Parsing Tracker} (building : state.Building)
    (isSome : state.torrent.trackers = some scan.trackers)
    (ran : (parseParameter world scan).from state =
      (.ok (code, next), after)) : LoopEnds state code next after := by
  rw [parseParameter] at ran
  by_cases other :
      (CString.ofBytes scan.keyBuffer.cells).bytes ≠ text "tr"
  · rw [if_pos other, liftExec_from] at ran
    obtain ⟨stored, rfl⟩ := Prod.mk.inj ran
    rw [← storeParameter_trackers other stored] at isSome
    exact .ofBuilding building isSome (.refl state)
  · rw [if_neg other] at ran
    cases read : readString scan.valueBuffer.cells with
    | error stop =>
        rw [read] at ran
        cases ran
    | ok address =>
        rw [read, bind_from_ok (liftExec_from (.ok address) _)] at ran
        cases made : world.trackerNew address with
        | error stop =>
            rw [made] at ran
            cases ran
        | ok tracker =>
            rw [made, bind_from_ok (liftExec_from (.ok tracker) _)] at ran
            cases granted :
                world.nodeGranted scan.trackers.values.length with
            | false =>
                simp only [bind_from, create, modifyState_from,
                  linkedlistAppendOn, granted, if_false, pure_from,
                  Bool.false_eq_true] at ran
                cases ran
                have unmade : ¬ state.Made
                    (.trackerMade scan.trackers.values.length) := by
                  simp [Made, Holds, trackerCount_some isSome]
                have kept := Owned.create building unmade
                exact ⟨kept.weaken (fun _ holds => .inr holds)
                  fun _ _ => trivial, (fun success => by cases success),
                  isSome, ⟨rfl, rfl, rfl, rfl, rfl, rfl⟩⟩
            | true =>
                simp only [bind_from, create, modifyState_from,
                  linkedlistAppendOn, granted, if_true, pure_from,
                  linkedlistAppend, updateTorrent, release] at ran
                cases ran
                exact .ofBuilding (building_append building isSome
                  ⟨rfl, rfl, rfl, rfl, rfl, rfl⟩ rfl rfl) rfl
                  ⟨rfl, rfl, rfl, rfl, rfl, rfl⟩

theorem parseStep_ends {scan next : MagnetScan Tracker} {code : ExitCode}
    {after : Parsing Tracker} {inputLen : Int} {i : Nat} {byte : UInt8}
    (building : state.Building)
    (isSome : state.torrent.trackers = some scan.trackers)
    (ran : (parseStep world inputLen i byte scan).from state =
      (.ok (code, next), after)) : LoopEnds state code next after := by
  rw [parseStep] at ran
  cases ends : endedValue inputLen i byte scan with
  | none =>
      rw [ends] at ran
      obtain ⟨stepped, rfl⟩ := Prod.mk.inj ran
      rw [← scanStep_trackers ends stepped] at isSome
      exact .ofBuilding building isSome (.refl state)
  | some ended =>
      rw [ends] at ran
      have same : ended.trackers = scan.trackers := by
        rw [endedValue] at ends
        split at ends
        · cases ends
        · split at ends
          · cases ends
          · cases ends
            rfl
      rw [← same] at isSome
      exact parseParameter_ends building isSome ran

theorem parseLoop_ends {bytes : List UInt8} {i : Nat}
    {scan next : MagnetScan Tracker} {code : ExitCode}
    {after : Parsing Tracker} {inputLen : Int} (building : state.Building)
    (isSome : state.torrent.trackers = some scan.trackers)
    (ran : (parseLoop world inputLen bytes i scan).from state =
      (.ok (code, next), after)) : LoopEnds state code next after := by
  induction bytes generalizing i scan state with
  | nil =>
      rw [parseLoop] at ran
      cases inside : subscript i with
      | error stop =>
          rw [inside] at ran
          cases ran
      | ok value =>
          rw [inside] at ran
          cases ran
          exact .ofBuilding building isSome (.refl _)
  | cons byte rest inductionHypothesis =>
      rw [parseLoop] at ran
      cases inside : subscript i with
      | error stop =>
          rw [inside] at ran
          cases ran
      | ok value =>
          rw [inside, bind_from_ok (liftExec_from (.ok value) _),
            bind_from] at ran
          cases stepped :
              (parseStep world inputLen i byte scan).from state with
          | mk answer middle =>
              rw [stepped] at ran
              cases answer with
              | error stop => cases ran
              | ok found =>
                  rcases found with ⟨reached, further⟩
                  have ends := parseStep_ends building isSome stepped
                  cases reached with
                  | failure =>
                      cases ran
                      exact ends
                  | success =>
                      have last := inductionHypothesis (ends.building rfl)
                        ends.trackers ran
                      exact ⟨last.releasable, last.building, last.trackers,
                        ends.framed.trans last.framed⟩

end Loop

/-! ## The body -/

/-- The body ends before it has made the list of trackers. -/
def ParseEnd.early : ParseEnd → Bool
  | .opening => true
  | .allocatingContent => true
  | .reading => true
  | .allocatingHashmap => true
  | .allocatingTrackers => true
  | .parsing => false
  | .allocatingHash => false
  | .done => false

/-- The body ends behind the copy of the name. -/
def ParseEnd.named : ParseEnd → Bool
  | .allocatingHash => true
  | .done => true
  | _ => false

/-- The body ends with the file in memory. -/
def ParseEnd.loaded : ParseEnd → Bool
  | .opening => false
  | .allocatingContent => false
  | .reading => false
  | _ => true

section Body

open Parsing

variable {world : ParseWorld Tracker} {state after : Parsing Tracker}
  {depth : Nat} {ended : ParseEnd}

/-- The state where the body ends. -/
structure LeftBy (ended : ParseEnd) (state : Parsing Tracker) : Prop where
  releasable : state.Releasable
  trackers : state.torrent.trackers.isSome = !ended.early
  locals : ended.early = false → state.hashmap.isMade = true ∧
    state.torrentFile = true ∧ state.torrentContent = true
  name : state.torrent.name.isSome = ended.named
  hash : state.torrent.hash.isSome = (ended == .done)

theorem LeftBy.ofEarly (early : ended.early = true)
    (releasable : state.Releasable)
    (trackers : state.torrent.trackers = none)
    (name : state.torrent.name = none) (hash : state.torrent.hash = none) :
    LeftBy ended state where
  releasable := releasable
  trackers := by
    rw [trackers, early]
    rfl
  locals := by
    intro late
    cases early.symm.trans late
  name := by
    rw [name]
    cases ended <;> first | rfl | cases early
  hash := by
    rw [hash]
    cases ended <;> first | rfl | cases early

/-- The state once the file is in memory. -/
structure Loaded (state : Parsing Tracker) : Prop where
  building : state.Building
  name : state.torrent.name = none
  hash : state.torrent.hash = none
  torrentFile : state.torrentFile = true
  torrentContent : state.torrentContent = true

theorem loaded_of_late (late : ended.early = false) :
    ended.loaded = true := by
  cases ended <;> first | rfl | cases late

theorem parseNameAndHash_ends {hashmap : Hashmap (List UInt8)}
    {trackers : Linkedlist Tracker} (loaded : Loaded state)
    (isSome : state.torrent.trackers = some trackers)
    (map : state.hashmap.isMade = true)
    (ran : (parseNameAndHash world depth hashmap).from state =
      (.ok ended, after)) :
    LeftBy ended after ∧ ended.early = false := by
  rw [parseNameAndHash] at ran
  cases dn : hashmapString hashmap keyDn depth with
  | error stop =>
      rw [dn] at ran
      cases ran
  | ok nameText =>
      rw [dn, bind_from_ok (liftExec_from (.ok nameText) _)] at ran
      cases decoded : decodeName world nameText with
      | error stop =>
          rw [decoded] at ran
          cases ran
      | ok name =>
          rw [decoded, bind_from_ok (liftExec_from (.ok name) _)] at ran
          have noName : ¬ state.Made .name := by
            simp [Made, Holds, loaded.name]
          have named : Building { state with
              torrent := { state.torrent with name := some name }
              log := state.log ++ [.created .name] } :=
            loaded.building.create rfl noName
              (fun other => by cases other <;> simp [Holds, trackerCount]) rfl
          cases xt : hashmapString hashmap keyXt depth with
          | error stop =>
              simp only [xt, create, updateTorrent, bind_from,
                modifyState_from, liftExec_from] at ran
              cases ran
          | ok hashText =>
              cases granted : world.hashGranted with
              | false =>
                  simp only [xt, create, updateTorrent, bind_from,
                    modifyState_from, liftExec_from, granted, if_false,
                    Bool.false_eq_true, pure_from] at ran
                  cases ran
                  exact ⟨⟨named.releasable, congrArg Option.isSome isSome,
                    fun _ => ⟨map, loaded.torrentFile,
                      loaded.torrentContent⟩, rfl,
                    congrArg Option.isSome loaded.hash⟩, rfl⟩
              | true =>
                  simp only [xt, create, updateTorrent, bind_from,
                    modifyState_from, liftExec_from, granted, if_true,
                    pure_from] at ran
                  cases ran
                  have hashed : Building { state with
                      torrent := { state.torrent with
                        name := some name
                        hash := some hashText }
                      log := state.log ++ [.created .name] ++
                        [.created .hash] } :=
                    named.create rfl (by simp [Made, Holds, loaded.hash])
                      (fun other => by
                        cases other <;> simp [Holds, trackerCount]) rfl
                  exact ⟨⟨hashed.releasable, congrArg Option.isSome isSome,
                    fun _ => ⟨map, loaded.torrentFile,
                      loaded.torrentContent⟩, rfl, rfl⟩, rfl⟩

section Repointed

variable {hashmap : LocalHashmap}

/-- A store to `hashmap` that neither makes a map nor loses one. -/
theorem holds_repointed (kept : hashmap.isMade = state.hashmap.isMade)
    (thing : TorrentThing) :
    Holds { state with hashmap } thing ↔ state.Holds thing := by
  cases thing with
  | hashmap => rw [Holds, Holds, kept]
  | _ => exact Iff.rfl

theorem releasable_repointed (releasable : state.Releasable)
    (kept : hashmap.isMade = state.hashmap.isMade) :
    Releasable { state with hashmap } :=
  Owned.weaken releasable
    (fun thing held => (holds_repointed kept thing).mp held)
    fun _ _ => trivial

theorem building_repointed (building : state.Building)
    (kept : hashmap.isMade = state.hashmap.isMade) :
    Building { state with hashmap } := by
  refine Owned.weaken building
    (fun thing held => (holds_repointed kept thing).mp held) ?_
  rintro thing (held | counted)
  · exact .inl ((holds_repointed kept thing).mpr held)
  · exact .inr counted

end Repointed

theorem parseMagnet_ends {torrentContent : List UInt8}
    (loaded : Loaded state)
    (isSome : state.torrent.trackers = some linkedlistNew)
    (map : state.hashmap.isMade = true)
    (ran : (parseMagnet world depth torrentContent).from state =
      (.ok ended, after)) :
    LeftBy ended after ∧ ended.early = false := by
  rw [parseMagnet] at ran
  cases read : readString ((torrentContent ++ [0]).drop 8) with
  | error stop =>
      rw [read] at ran
      cases ran
  | ok subString =>
      rw [read, bind_from_ok (liftExec_from (.ok subString) _)] at ran
      cases looped : (parseLoop world (toInt32 (subString.strlen - 1))
          subString.bytes 0 magnetStart).from state with
      | mk answer reached =>
          rw [bind_from, looped] at ran
          cases answer with
          | error stop =>
              cases ran
          | ok found =>
              rcases found with ⟨code, scan⟩
              have ends := parseLoop_ends loaded.building isSome looped
              have kept : (LocalHashmap.made scan.hashmap).isMade =
                  reached.hashmap.isMade := by
                rw [ends.framed.hashmap, map]
                rfl
              simp only [] at ran
              rw [bind_from_ok (modifyState_from _ _)] at ran
              have name := ends.framed.name.trans loaded.name
              have hash := ends.framed.hash.trans loaded.hash
              have file := ends.framed.torrentFile.trans loaded.torrentFile
              have content :=
                ends.framed.torrentContent.trans loaded.torrentContent
              cases code with
              | failure =>
                  cases ran
                  exact ⟨⟨releasable_repointed ends.releasable kept,
                    congrArg Option.isSome ends.trackers,
                    fun _ => ⟨rfl, file, content⟩,
                    congrArg Option.isSome name,
                    congrArg Option.isSome hash⟩, rfl⟩
              | success =>
                  exact parseNameAndHash_ends
                    ⟨building_repointed (ends.building rfl) kept, name, hash,
                      file, content⟩
                    ends.trackers rfl ran

theorem parseContent_ends {torrentContent : List UInt8}
    (loaded : Loaded state) (noTrackers : state.torrent.trackers = none)
    (unmade : state.hashmap.isMade = false)
    (ran : (parseContent world depth torrentContent).from state =
      (.ok ended, after)) :
    LeftBy ended after ∧ ended.loaded = true := by
  have initialised := @building_repointed _ state .null loaded.building
    unmade.symm
  rw [parseContent, bind_from_ok (modifyState_from _ _)] at ran
  cases hashmapGranted : world.hashmapGranted with
  | false =>
      rw [hashmapGranted] at ran
      cases ran
      exact ⟨.ofEarly rfl initialised.releasable noTrackers loaded.name
        loaded.hash, rfl⟩
  | true =>
      have mapped : Building { state with
          hashmap := .made hashmapNew
          log := state.log ++ [.created .hashmap] } :=
        initialised.create rfl (by simp [Made, Holds])
          (fun other => by cases other <;> simp [Holds, trackerCount]) rfl
      cases trackersGranted : world.trackersGranted with
      | false =>
          simp only [hashmapGranted, trackersGranted, if_true, if_false,
            Bool.false_eq_true, create, bind_from, modifyState_from,
            pure_from] at ran
          cases ran
          exact ⟨.ofEarly rfl mapped.releasable noTrackers loaded.name
            loaded.hash, rfl⟩
      | true =>
          have listed : Building { state with
              torrent := { state.torrent with
                trackers := some linkedlistNew }
              hashmap := .made hashmapNew
              log := state.log ++ [.created .hashmap] ++
                [.created .trackers] } :=
            mapped.create rfl (by simp [Made, Holds, noTrackers])
              (fun other => by
                cases other <;>
                  simp [Holds, trackerCount, noTrackers, linkedlistNew])
              (by simp [trackerCount, noTrackers, linkedlistNew])
          simp only [hashmapGranted, trackersGranted, if_true, create,
            updateTorrent, bind_from, modifyState_from] at ran
          have ends := parseMagnet_ends ⟨listed, loaded.name, loaded.hash,
            loaded.torrentFile, loaded.torrentContent⟩ rfl rfl ran
          exact ⟨ends.1, loaded_of_late ends.2⟩

theorem parsingStart_unmade (world : ParseWorld Tracker) (path : CString) :
    (parsingStart world path).hashmap.isMade = false := by
  rw [parsingStart]
  cases world.hashmapIsJunk with
  | false => rfl
  | true => rfl

/-- The torrent that `main` parses. -/
theorem parsingStart_building (world : ParseWorld Tracker)
    (path : CString) : (parsingStart world path).Building where
  sound := by
    have first : Orderly ReleasesLive
        [.created TorrentThing.torrent] :=
      orderly_snoc orderly_nil trivial
    exact orderly_snoc first trivial
  created := by
    intro thing holds
    cases thing with
    | torrent => simp only [parsingStart, List.mem_cons, true_or]
    | path => simp only [parsingStart, List.mem_cons, true_or, or_true]
    | hashmap =>
        cases (parsingStart_unmade world path).symm.trans holds
    | tracker index => exact absurd holds (Nat.not_lt_zero index)
    | node index => exact absurd holds (Nat.not_lt_zero index)
    | _ => cases holds
  kept := by
    intro thing _
    simp [parsingStart]
  made := by
    intro thing member
    simp [parsingStart] at member
    rcases member with rfl | rfl
    · exact .inl trivial
    · exact .inl rfl

/-- `fopen` succeeds and `fread` delivers something. -/
def ParseWorld.ReadsFile (world : ParseWorld Tracker) : Prop :=
  ∃ bytes, world.file = some bytes ∧ bytes.take world.delivered ≠ []

/-- The end of the body, and what it says about the file. -/
structure BodyEnds (world : ParseWorld Tracker) (ended : ParseEnd)
    (after : Parsing Tracker) : Prop where
  left : LeftBy ended after
  reads : ended.early = false → world.ReadsFile
  misses : ended = .opening ∨ ended = .reading → ¬ world.ReadsFile

theorem torrentParseBody_ends {path : CString}
    (ran : (torrentParseBody world depth).from (parsingStart world path) =
      (.ok ended, after)) : BodyEnds world ended after := by
  have start := parsingStart_building world path
  have unmade := parsingStart_unmade world path
  rw [torrentParseBody] at ran
  cases file : world.file with
  | none =>
      rw [file] at ran
      cases ran
      refine ⟨.ofEarly rfl start.releasable rfl rfl rfl,
        (fun late => by cases late), ?_⟩
      rintro _ ⟨bytes, opened, _⟩
      cases file.symm.trans opened
  | some bytes =>
      have opened : Building { parsingStart world path with
          torrentFile := true
          log := (parsingStart world path).log ++
            [.created .torrentFile] } :=
        start.create rfl (by simp [Made, Holds, parsingStart, trackerCount])
          (fun other => by
            cases other <;> simp [Holds, trackerCount, parsingStart]) rfl
      rw [file] at ran
      cases contentGranted : world.contentGranted with
      | false =>
          simp only [contentGranted, create, bind_from, modifyState_from,
            if_false, Bool.false_eq_true, pure_from] at ran
          cases ran
          refine ⟨.ofEarly rfl opened.releasable rfl rfl rfl,
            (fun late => by cases late), ?_⟩
          rintro (same | same)
          · cases same
          · cases same
      | true =>
          have filled : Building { parsingStart world path with
              torrentFile := true
              torrentContent := true
              log := (parsingStart world path).log ++
                [.created .torrentFile] ++ [.created .torrentContent] } :=
            opened.create rfl
              (by simp [Made, Holds, parsingStart, trackerCount])
              (fun other => by
                cases other <;> simp [Holds, trackerCount, parsingStart])
              rfl
          simp only [contentGranted, create, bind_from, modifyState_from,
            if_true] at ran
          by_cases nothing : bytes.take world.delivered = []
          · rw [if_pos nothing] at ran
            cases ran
            refine ⟨.ofEarly rfl filled.releasable rfl rfl rfl,
              (fun late => by cases late), ?_⟩
            rintro _ ⟨other, same, read⟩
            cases file.symm.trans same
            exact read nothing
          · rw [if_neg nothing] at ran
            cases copied : (world.content.block bytes.length).copyIn 0
                (bytes.take world.delivered) with
            | error stop =>
                rw [copied] at ran
                cases ran
            | ok torrentContent =>
                rw [copied, bind_from_ok
                  (liftExec_from (.ok torrentContent) _)] at ran
                have ends := parseContent_ends
                  ⟨filled, rfl, rfl, rfl, rfl⟩ rfl unmade ran
                refine ⟨ends.1, fun _ => ⟨bytes, file, nothing⟩, ?_⟩
                rintro (rfl | rfl)
                · cases ends.2
                · cases ends.2

end Body

end UvgTorrent
