import UvgTorrent.Torrent.KeptParameters

/-!
# Tearing a torrent down

`main` calls `Torrent_destroy` behind every `Torrent_parse`.  What the parse
holds where it is left decides whether both together release everything once.
-/

namespace UvgTorrent

open CProgram CText CArray MachineInt EventLog OwnershipLog

variable {Tracker : Type}

/-! ## Releasing -/

section Releasing

open Parsing

variable {state : Parsing Tracker}

def Parsing.releasing (state : Parsing Tracker)
    (things : List TorrentThing) : Parsing Tracker :=
  { state with log := state.log ++ things.map .released }

/-- A thing behind a pointer that may be `NULL`. -/
def present (pointer : Bool) (thing : TorrentThing) : List TorrentThing :=
  if pointer then [thing] else []

theorem releasing_releasing (first second : List TorrentThing) :
    (state.releasing first).releasing second =
      state.releasing (first ++ second) := by
  simp [Parsing.releasing]

theorem release_from (thing : TorrentThing) :
    (release thing).from state = (.ok (), state.releasing [thing]) :=
  rfl

theorem releaseIf_from (pointer : Bool) (thing : TorrentThing) :
    (releaseIf pointer thing).from state =
      (.ok (), state.releasing (present pointer thing)) := by
  cases pointer with
  | false => simp [releaseIf, present, Parsing.releasing]
  | true => rfl

theorem destroyTrackers_from (indices : List Nat) :
    (destroyTrackers indices).from state =
      (.ok (indices.map fun index => (index, false)),
        state.releasing (indices.map .tracker)) := by
  induction indices generalizing state with
  | nil =>
      simp [destroyTrackers, Parsing.releasing]
  | cons index rest inductionHypothesis =>
      rw [destroyTrackers, bind_from_ok (release_from _),
        bind_from_ok inductionHypothesis, releasing_releasing]
      rfl

theorem linkednodeDestroy_from (indices : List Nat) :
    (linkednodeDestroy (indices.map fun index => (index, false))).from
        state =
      (.ok (), state.releasing (indices.reverse.map .node)) := by
  induction indices generalizing state with
  | nil =>
      simp [linkednodeDestroy, Parsing.releasing]
  | cons index rest inductionHypothesis =>
      rw [List.map_cons, linkednodeDestroy,
        bind_from_ok (releaseIf_from _ _), bind_from_ok inductionHypothesis,
        release_from, releasing_releasing, releasing_releasing,
        List.reverse_cons, List.map_append]
      rfl

/-- What `Torrent_destroy` releases, in its order. -/
def destroyedThings (torrent : Torrent Tracker) (count : Nat) :
    List TorrentThing :=
  present torrent.path.isSome .path ++ (present torrent.name.isSome .name ++
    (present torrent.hash.isSome .hash ++
      ((List.range count).map .tracker ++
        ((List.range count).reverse.map .node ++ [.trackers, .torrent]))))

theorem torrentDestroy_from {trackers : Linkedlist Tracker}
    (isSome : state.torrent.trackers = some trackers) :
    torrentDestroy.from state = (.ok (), state.releasing
      (destroyedThings state.torrent trackers.values.length)) := by
  rw [torrentDestroy, bind_from_ok (getState_from state),
    bind_from_ok (releaseIf_from _ _), bind_from_ok (releaseIf_from _ _),
    bind_from_ok (releaseIf_from _ _), isSome]
  simp only []
  rw [bind_from_ok (destroyTrackers_from _),
    bind_from_ok (linkednodeDestroy_from _), bind_from_ok (release_from _),
    release_from]
  simp only [releasing_releasing, List.append_assoc, List.cons_append,
    List.nil_append, destroyedThings]

/-- Without a list the loop reads through `NULL`. -/
theorem torrentDestroy_noTrackers
    (isNone : state.torrent.trackers = none) :
    (torrentDestroy.from state).1 = .error .nullPointer := by
  rw [torrentDestroy, bind_from_ok (getState_from state),
    bind_from_ok (releaseIf_from _ _), bind_from_ok (releaseIf_from _ _),
    bind_from_ok (releaseIf_from _ _), isNone]
  rfl

theorem LocalHashmap.exists_of_isMade {hashmap : LocalHashmap}
    (isMade : hashmap.isMade = true) : ∃ map, hashmap = .made map := by
  cases hashmap with
  | made map => exact ⟨map, rfl⟩
  | _ => cases isMade

/-- What the clean-up behind the label `error` releases. -/
def cleanedThings (state : Parsing Tracker) : List TorrentThing :=
  .hashmap :: (present state.torrentContent .torrentContent ++
    (present state.torrentFile .torrentFile ++
      (present state.torrent.name.isSome .name ++
        present state.torrent.hash.isSome .hash)))

/-- A map none of whose blocks is freed twice. -/
theorem destroyHashmap_from {map : Hashmap (List UInt8)}
    (once : (hashmapDestroy map).Nodup) :
    (destroyHashmap (.made map)).from state =
      (.ok (), state.releasing [.hashmap]) := by
  rw [destroyHashmap, freeEach_ok_iff.mpr once,
    bind_from_ok (liftExec_from (.ok ()) state), release_from]

theorem destroyHashmap_aborts {map : Hashmap (List UInt8)}
    (twice : ¬ (hashmapDestroy map).Nodup) :
    (destroyHashmap (.made map)).from state = (.error .abort, state) := by
  rw [destroyHashmap, freeEach, if_neg twice]
  rfl

theorem torrentParseError_made {map : Hashmap (List UInt8)}
    (made : state.hashmap = .made map) :
    torrentParseError.from state = (destroyHashmap (.made map) >>= fun _ =>
      releaseIf state.torrentContent .torrentContent >>= fun _ =>
      releaseIf state.torrentFile .torrentFile >>= fun _ =>
      releaseIf state.torrent.name.isSome .name >>= fun _ =>
      releaseIf state.torrent.hash.isSome .hash >>= fun _ =>
      pure .failure).from state := by
  rw [torrentParseError, bind_from_ok (getState_from state), made]

theorem torrentParseError_from {map : Hashmap (List UInt8)}
    (made : state.hashmap = .made map)
    (once : (hashmapDestroy map).Nodup) :
    torrentParseError.from state =
      (.ok .failure, state.releasing (cleanedThings state)) := by
  rw [torrentParseError_made made, bind_from_ok (destroyHashmap_from once),
    bind_from_ok (releaseIf_from _ _), bind_from_ok (releaseIf_from _ _),
    bind_from_ok (releaseIf_from _ _), bind_from_ok (releaseIf_from _ _)]
  simp only [releasing_releasing, pure_from, List.append_assoc,
    List.cons_append, List.nil_append, cleanedThings]

theorem torrentParseError_aborts {map : Hashmap (List UInt8)}
    (made : state.hashmap = .made map)
    (twice : ¬ (hashmapDestroy map).Nodup) :
    torrentParseError.from state = (.error .abort, state) := by
  rw [torrentParseError_made made]
  exact bind_from_error (destroyHashmap_aborts twice) _

/-- The clean-up leaves the fields of the torrent as they are. -/
theorem torrentParseError_torrent :
    (torrentParseError.from state).2.torrent = state.torrent := by
  cases map : state.hashmap with
  | null =>
      simp only [torrentParseError, bind_from, getState_from, map,
        pure_from, releaseIf_from, Parsing.releasing]
  | made found =>
      by_cases once : (hashmapDestroy found).Nodup
      · rw [torrentParseError_from map once]
        rfl
      · rw [torrentParseError_aborts map once]
  | wild =>
      simp only [torrentParseError, bind_from, getState_from, map,
        destroyHashmap, release_from, liftExec_from, Parsing.releasing]

theorem mem_present {pointer : Bool} {thing other : TorrentThing} :
    other ∈ present pointer thing ↔ pointer = true ∧ other = thing := by
  cases pointer with
  | false => simp [present]
  | true => simp [present]

theorem present_sublist (pointer : Bool) (thing : TorrentThing) :
    (present pointer thing).Sublist [thing] := by
  cases pointer with
  | false => exact List.nil_sublist _
  | true => exact List.Sublist.refl _

/-- What a torrent with a given number of trackers owns at most. -/
def wholeThings (count : Nat) : List TorrentThing :=
  .path :: .name :: .hash :: ((List.range count).map .tracker ++
    ((List.range count).reverse.map .node ++ [.trackers, .torrent]))

theorem wholeThings_nodup (count : Nat) : (wholeThings count).Nodup := by
  have trackers : ((List.range count).map TorrentThing.tracker).Nodup :=
    List.nodup_range.map fun _ _ same => TorrentThing.tracker.inj same
  have nodes : ((List.range count).reverse.map TorrentThing.node).Nodup :=
    (List.nodup_reverse.mpr List.nodup_range).map
      fun _ _ same => TorrentThing.node.inj same
  have behind : ((List.range count).reverse.map TorrentThing.node ++
      [TorrentThing.trackers, TorrentThing.torrent]).Nodup := by
    apply nodes.append (by decide)
    intro thing isNode last
    rcases List.mem_map.mp isNode with ⟨index, _, rfl⟩
    simp at last
  have whole : ((List.range count).map TorrentThing.tracker ++
      ((List.range count).reverse.map TorrentThing.node ++
        [TorrentThing.trackers, TorrentThing.torrent])).Nodup := by
    apply trackers.append behind
    intro thing isTracker last
    rcases List.mem_map.mp isTracker with ⟨index, _, rfl⟩
    simp at last
  simpa [wholeThings] using whole

theorem destroyedThings_nodup (torrent : Torrent Tracker) (count : Nat) :
    (destroyedThings torrent count).Nodup := by
  have part : (destroyedThings torrent count).Sublist (wholeThings count) :=
    (present_sublist _ _).append ((present_sublist _ _).append
      ((present_sublist _ _).append (List.Sublist.refl _)))
  exact (wholeThings_nodup count).sublist part

theorem destroyedThings_holds {trackers : Linkedlist Tracker}
    (isSome : state.torrent.trackers = some trackers)
    {thing : TorrentThing} (member : thing ∈ destroyedThings state.torrent
      trackers.values.length) : state.Holds thing := by
  have count := trackerCount_some isSome
  simp only [destroyedThings, List.mem_append, mem_present, List.mem_map,
    List.mem_reverse, List.mem_range, List.mem_cons, List.not_mem_nil,
    or_false] at member
  rcases member with ⟨path, rfl⟩ | ⟨name, rfl⟩ | ⟨hash, rfl⟩ |
    ⟨index, bound, rfl⟩ | ⟨index, bound, rfl⟩ | rfl | rfl
  · exact path
  · exact name
  · exact hash
  · rwa [Holds, count]
  · rwa [Holds, count]
  · rw [Holds, isSome, Option.isSome_some]
  · trivial

/-- What the local variables of `Torrent_parse` own. -/
def localThings : List TorrentThing :=
  [.hashmap, .torrentContent, .torrentFile]

theorem destroyedThings_notLocal {torrent : Torrent Tracker} {count : Nat}
    {thing : TorrentThing} (member : thing ∈ destroyedThings torrent count) :
    thing ∉ localThings := by
  simp only [destroyedThings, List.mem_append, mem_present, List.mem_map,
    List.mem_reverse, List.mem_range, List.mem_cons, List.not_mem_nil,
    or_false] at member
  rcases member with ⟨_, rfl⟩ | ⟨_, rfl⟩ | ⟨_, rfl⟩ | ⟨_, _, rfl⟩ |
    ⟨_, _, rfl⟩ | rfl | rfl <;> simp [localThings]

end Releasing

/-! ## Both functions -/

/-- `Torrent_parse` and then `Torrent_destroy`. -/
def teardown (world : ParseWorld Tracker) (path : CString) (depth : Nat) :
    Exec Unit × Parsing Tracker :=
  torrentDestroy.from
    ((torrentParse world depth).from (parsingStart world path)).2

/-- The clean-up of the parse touches only what was created, the destruction
reads through no `NULL` pointer, and nothing is released twice. -/
structure TearsDown (world : ParseWorld Tracker) (path : CString)
    (depth : Nat) : Prop where
  returns : ∃ code,
    ((torrentParse world depth).from (parsingStart world path)).1 =
      .ok code
  destroys : (teardown world path depth).1 = .ok ()
  created : Orderly ReleasesCreated (teardown world path depth).2.log
  once : ∀ thing,
    (teardown world path depth).2.log.count (.released thing) ≤ 1

section Both

open Parsing

variable {world : ParseWorld Tracker} {path : CString} {depth : Nat}
  {ended : ParseEnd} {after : Parsing Tracker}

/-- Where the clean-up releases what the local variables own, the torrent is
left whole. -/
theorem tearsDown_of_cleaned {code : ExitCode} {cleaned : List TorrentThing}
    (left : LeftBy ended after) (late : ended.early = false)
    (parsed : (torrentParse world depth).from (parsingStart world path) =
      (.ok code, after.releasing cleaned))
    (locals : cleaned.Perm localThings) : TearsDown world path depth := by
  have listed : after.torrent.trackers.isSome = true := by
    rw [left.trackers, late]
    rfl
  rcases Option.isSome_iff_exists.mp listed with ⟨trackers, isSome⟩
  rcases left.locals late with ⟨map, file, content⟩
  have nodup : cleaned.Nodup := locals.nodup_iff.mpr (by decide)
  have held : ∀ thing ∈ cleaned, after.Holds thing := by
    intro thing member
    have isLocal := locals.mem_iff.mp member
    simp only [localThings, List.mem_cons, List.not_mem_nil, or_false]
      at isLocal
    rcases isLocal with rfl | rfl | rfl
    · exact map
    · exact content
    · exact file
  have cleanedUp := left.releasable.releaseAll nodup held
  have destroyed := cleanedUp.releaseAll
    (destroyedThings_nodup after.torrent trackers.values.length)
    fun thing member => ⟨destroyedThings_holds isSome member,
      fun isLocal => destroyedThings_notLocal member
        (locals.mem_iff.mp isLocal)⟩
  have ran : teardown world path depth = (.ok (),
      (after.releasing cleaned).releasing
        (destroyedThings after.torrent trackers.values.length)) := by
    have isSome' : (after.releasing cleaned).torrent.trackers =
        some trackers :=
      isSome
    rw [teardown, parsed, torrentDestroy_from isSome']
    rfl
  have log : (teardown world path depth).2.log =
      after.log ++ cleaned.map .released ++
        (destroyedThings after.torrent trackers.values.length).map
          .released := by
    rw [ran]
    rfl
  refine ⟨⟨code, by rw [parsed]⟩, by rw [ran], ?_, ?_⟩
  · rw [log]
    exact releasesCreated_of_live destroyed.sound
  · rw [log]
    exact released_once destroyed.sound

theorem torrentParse_from (ran : (torrentParseBody world depth).from
      (parsingStart world path) = (.ok ended, after))
    (unfinished : ended ≠ .done) :
    (torrentParse world depth).from (parsingStart world path) =
      torrentParseError.from after := by
  rw [torrentParse, bind_from_ok ran]
  cases ended with
  | done => exact absurd rfl unfinished
  | _ => rfl

theorem tearsDown_done {map : Hashmap (List UInt8)}
    (ran : (torrentParseBody world depth).from (parsingStart world path) =
      (.ok .done, after))
    (made : after.hashmap = .made map)
    (once : (hashmapDestroy map).Nodup) : TearsDown world path depth := by
  have parsed : (torrentParse world depth).from (parsingStart world path) =
      (.ok .success, after.releasing
        [.hashmap, .torrentFile, .torrentContent]) := by
    rw [torrentParse, bind_from_ok ran]
    simp only []
    rw [bind_from_ok (getState_from after), made,
      bind_from_ok (destroyHashmap_from once),
      bind_from_ok (release_from _), bind_from_ok (release_from _)]
    simp only [pure_from, releasing_releasing, List.cons_append,
      List.nil_append]
  exact tearsDown_of_cleaned (torrentParseBody_ends ran).left rfl parsed
    (by decide)

theorem tearsDown_parsing {map : Hashmap (List UInt8)}
    (ran : (torrentParseBody world depth).from (parsingStart world path) =
      (.ok .parsing, after))
    (made : after.hashmap = .made map)
    (once : (hashmapDestroy map).Nodup) : TearsDown world path depth := by
  have left := (torrentParseBody_ends ran).left
  rcases left.locals rfl with ⟨_, file, content⟩
  have cleaned : cleanedThings after = localThings := by
    rw [cleanedThings, content, file, left.name, left.hash]
    rfl
  have parsed := torrentParse_from ran nofun
  rw [torrentParseError_from made once, cleaned] at parsed
  exact tearsDown_of_cleaned left rfl parsed (List.Perm.refl _)

/-- A map with two buckets in a slot is not destroyed. -/
theorem torrentParse_aborts {map : Hashmap (List UInt8)}
    (ran : (torrentParseBody world depth).from (parsingStart world path) =
      (.ok ended, after))
    (made : after.hashmap = .made map)
    (twice : ¬ (hashmapDestroy map).Nodup) :
    ((torrentParse world depth).from (parsingStart world path)).1 =
      .error .abort := by
  by_cases done : ended = .done
  · subst done
    rw [torrentParse, bind_from_ok ran]
    simp only []
    rw [bind_from_ok (getState_from after), made,
      bind_from_error (destroyHashmap_aborts twice)]
  · rw [torrentParse_from ran done, torrentParseError_aborts made twice]

theorem TearsDown.once_of_made {map : Hashmap (List UInt8)}
    (tears : TearsDown world path depth)
    (ran : (torrentParseBody world depth).from (parsingStart world path) =
      (.ok ended, after))
    (made : after.hashmap = .made map) : (hashmapDestroy map).Nodup := by
  by_contra twice
  rcases tears.returns with ⟨code, returned⟩
  cases (torrentParse_aborts ran made twice).symm.trans returned

/-- A parse that ends before it has made the list leaves a torrent that
cannot be destroyed. -/
theorem not_tearsDown_early (ran : (torrentParseBody world depth).from
      (parsingStart world path) = (.ok ended, after))
    (early : ended.early = true) : ¬ TearsDown world path depth := by
  intro tears
  have left := (torrentParseBody_ends ran).left
  have unfinished : ended ≠ .done := by
    rintro rfl
    cases early
  have none : after.torrent.trackers = none := by
    have absent := left.trackers
    rw [early] at absent
    exact Option.not_isSome_iff_eq_none.mp (by rw [absent]; decide)
  have stopped : (teardown world path depth).1 = .error .nullPointer := by
    rw [teardown, torrentParse_from ran unfinished]
    apply torrentDestroy_noTrackers
    rw [torrentParseError_torrent, none]
  cases stopped.symm.trans tears.destroys

/-- When only the copy of the hash is not allocated, both functions release
the name. -/
theorem not_tearsDown_allocatingHash
    (ran : (torrentParseBody world depth).from (parsingStart world path) =
      (.ok .allocatingHash, after)) : ¬ TearsDown world path depth := by
  intro tears
  have left := (torrentParseBody_ends ran).left
  rcases LocalHashmap.exists_of_isMade (left.locals rfl).1 with ⟨map, made⟩
  have once := tears.once_of_made ran made
  have named : after.torrent.name.isSome = true := left.name
  rcases Option.isSome_iff_exists.mp left.trackers with
    ⟨trackers, isSome⟩
  have isSome' : (after.releasing (cleanedThings after)).torrent.trackers =
      some trackers :=
    isSome
  have log : (teardown world path depth).2.log =
      after.log ++ (cleanedThings after).map .released ++
        (destroyedThings after.torrent trackers.values.length).map
          .released := by
    rw [teardown, torrentParse_from ran nofun,
      torrentParseError_from made once, torrentDestroy_from isSome']
    rfl
  have cleaned : .name ∈ cleanedThings after := by
    simp [cleanedThings, mem_present, named]
  have destroyed : .name ∈
      destroyedThings after.torrent trackers.values.length := by
    simp [destroyedThings, mem_present, named]
  have first := List.count_pos_iff.mpr
    (List.mem_map_of_mem (f := Ownership.released) cleaned)
  have second := List.count_pos_iff.mpr
    (List.mem_map_of_mem (f := Ownership.released) destroyed)
  have nameOnce := tears.once .name
  rw [log, List.count_append, List.count_append] at nameOnce
  omega

/-- By the end of the body: the map is there, and nothing of it is freed
twice. -/
theorem tearsDown_iff (ran : (torrentParseBody world depth).from
      (parsingStart world path) = (.ok ended, after)) :
    TearsDown world path depth ↔
      (ended = .parsing ∨ ended = .done) ∧
        ∃ map, after.hashmap = .made map ∧
          (hashmapDestroy map).Nodup := by
  have left := (torrentParseBody_ends ran).left
  constructor
  · intro tears
    have ends : ended = .parsing ∨ ended = .done := by
      cases ended with
      | parsing => exact .inl rfl
      | done => exact .inr rfl
      | allocatingHash => exact absurd tears (not_tearsDown_allocatingHash ran)
      | _ => exact absurd tears (not_tearsDown_early ran rfl)
    have late : ended.early = false := by
      rcases ends with rfl | rfl
      · rfl
      · rfl
    rcases LocalHashmap.exists_of_isMade (left.locals late).1 with
      ⟨map, made⟩
    exact ⟨ends, map, made, tears.once_of_made ran made⟩
  · rintro ⟨rfl | rfl, map, made, once⟩
    · exact tearsDown_parsing ran made once
    · exact tearsDown_done ran made once

end Both

/-- The outcomes of `Torrent_parse` when its own allocations succeed. -/
def ParseEnd.AllocationsSucceed : ParseEnd → Prop
  | .opening => True
  | .reading => True
  | .parsing => True
  | .done => True
  | _ => False

/-- `fopen` succeeds, `fread` delivers something, an `int` can count the
text, and no two of the parameters that the map takes share a slot. -/
def ParseWorld.KeepsApart (world : ParseWorld Tracker) : Prop :=
  ∃ bytes, world.file = some bytes ∧ bytes.take world.delivered ≠ [] ∧
    (magnetText (world.torrentContent bytes)).strlen ≤ 2 ^ 31 ∧
    (slots (world.keptEntries (world.torrentContent bytes))).Nodup

/-- An `int` can count the text of the file, if there is one. -/
def ParseWorld.Countable (world : ParseWorld Tracker) : Prop :=
  ∀ bytes, world.file = some bytes →
    (magnetText (world.torrentContent bytes)).strlen ≤ 2 ^ 31

/-- A torrent can be torn down when something was read of its file and the
map takes no second parameter to a slot.  For a text that an `int` can count
the condition is exact. -/
theorem torrentParse_tearsDown_iff (world : ParseWorld Tracker)
    (path : CString) (depth : Nat) (ended : ParseEnd)
    (after : Parsing Tracker)
    (ran : (torrentParseBody world depth).from (parsingStart world path) =
      (.ok ended, after))
    (allocated : ended.AllocationsSucceed) :
    (world.KeepsApart → TearsDown world path depth) ∧
    (world.Countable → TearsDown world path depth → world.KeepsApart) := by
  have ends := torrentParseBody_ends ran
  have ending : world.ReadsFile → ended = .parsing ∨ ended = .done := by
    intro reads
    cases ended with
    | opening => exact absurd reads (ends.misses (.inl rfl))
    | reading => exact absurd reads (ends.misses (.inr rfl))
    | parsing => exact .inl rfl
    | done => exact .inr rfl
    | _ => exact allocated.elim
  have late : ended = .parsing ∨ ended = .done → ended.early = false := by
    rintro (rfl | rfl)
    · rfl
    · rfl
  rw [tearsDown_iff ran]
  constructor
  · rintro ⟨bytes, file, nonempty, size, apart⟩
    have ending := ending ⟨bytes, file, nonempty⟩
    rcases torrentParseBody_keeps file size (late ending) ran with
      ⟨map, made, holds⟩
    refine ⟨ending, map, made, (hashmapDestroy_nodup_iff map).mpr ?_⟩
    exact (unchained_iff_nodup holds).mpr apart
  · rintro countable ⟨ending, map, made, once⟩
    rcases ends.reads (late ending) with ⟨bytes, file, nonempty⟩
    have size := countable bytes file
    rcases torrentParseBody_keeps file size (late ending) ran with
      ⟨_, same, holds⟩
    cases made.symm.trans same
    exact ⟨bytes, file, nonempty, size, (unchained_iff_nodup holds).mp
      ((hashmapDestroy_nodup_iff map).mp once)⟩

/-- A file, or none, on a machine that grants everything. -/
def grantingWorld (file : Option (List UInt8)) : ParseWorld Unit where
  hashmapIsJunk := false
  file
  contentGranted := true
  delivered := 100
  content := ⟨0, fun _ => 0⟩
  hashmapGranted := true
  trackersGranted := true
  nodeGranted := fun _ => true
  trackerNew := fun _ => .ok ()
  nameGranted := true
  name := ⟨0, fun _ => 0⟩
  hashGranted := true

theorem noNul_shortPath : 0 ∉ text "short" := by
  decide

def shortPath : CString :=
  ⟨text "short", noNul_shortPath⟩

def shortMagnet : List UInt8 :=
  text "magnet:?xt=a&tr=b&dn=c"

theorem shortMagnet_keepsApart :
    (grantingWorld (some shortMagnet)).KeepsApart := by
  have content : (grantingWorld (some shortMagnet)).torrentContent
      shortMagnet = shortMagnet := by
    decide
  refine ⟨shortMagnet, rfl, by decide, ?_⟩
  rw [content]
  exact ⟨by decide, by decide +kernel⟩

theorem torrentParse_tearsDown_iff_short :
    TearsDown (grantingWorld (some shortMagnet)) shortPath 2 := by
  have done : ((torrentParseBody (grantingWorld (some shortMagnet)) 2).from
      (parsingStart (grantingWorld (some shortMagnet)) shortPath)).1 =
        .ok .done := by
    decide +kernel
  cases ran : (torrentParseBody (grantingWorld (some shortMagnet)) 2).from
      (parsingStart (grantingWorld (some shortMagnet)) shortPath) with
  | mk answer after =>
      rw [ran] at done
      cases done
      exact (torrentParse_tearsDown_iff _ shortPath 2 .done after ran
        trivial).1 shortMagnet_keepsApart

/-- Without the file, the destruction reads the list through `NULL`. -/
theorem missingFile_not_tearsDown :
    ((torrentParseBody (grantingWorld none) 2).from
      (parsingStart (grantingWorld none) shortPath)).1 = .ok .opening ∧
    ¬ TearsDown (grantingWorld none) shortPath 2 := by
  have ran : (torrentParseBody (grantingWorld none) 2).from
      (parsingStart (grantingWorld none) shortPath) =
        (.ok .opening, parsingStart (grantingWorld none) shortPath) :=
    rfl
  exact ⟨congrArg Prod.fst ran, not_tearsDown_early ran rfl⟩

end UvgTorrent
