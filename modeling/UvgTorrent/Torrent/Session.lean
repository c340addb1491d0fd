import UvgTorrent.Torrent.Teardown
import UvgTorrent.Torrent.Trackers
import UvgTorrent.Tracker.Address
import UvgTorrent.Tracker.AnnounceRetries
import UvgTorrent.Tracker.CallsLeft

/-!
# The program

`main` makes a torrent of its argument, parses its file, talks to the trackers
that the file names and destroys the torrent.
-/

namespace UvgTorrent

open CProgram CText CArray MachineInt EventLog

/-- What the machine and the network decide for a run of the program. -/
structure SessionWorld where
  torrentGranted : Bool
  pathGranted : Bool
  parse : ParseWorld TrackerEndpoint
  trackerGranted : CString → Bool
  address : CString → AddressWorld
  future : Nat → TrackerFuture

/-- The torrent, and its trackers with what is said to them. -/
structure Session where
  parsing : Parsing TrackerEndpoint
  runs : List TrackerRun

/-- `Tracker_new`.  A tracker that is not made is `NULL`, which
`Linkedlist_append` copies from.  Where the port was refused the clean-up
looks at a field that was never set. -/
def SessionWorld.trackerNew (world : SessionWorld) (address : CString) :
    Exec TrackerEndpoint :=
  if world.trackerGranted address then do
    match ← trackerInit (world.address address) address with
    | some this => pure this
    | none =>
        if (world.address address).portGranted then
          .error .nullPointer
        else
          .error .uninitialised
  else
    .error .nullPointer

/-- The world of the parse, with the trackers of this program. -/
def SessionWorld.parseWorld (world : SessionWorld) :
    ParseWorld TrackerEndpoint :=
  { world.parse with trackerNew := world.trackerNew }

def onParsing {α : Type} (program : Prog (Parsing TrackerEndpoint) α) :
    Prog Session α :=
  onPart Session.parsing (fun parsing this => { this with parsing }) program

def onRuns {α : Type} (program : Prog (List TrackerRun) α) :
    Prog Session α :=
  onPart Session.runs (fun runs this => { this with runs }) program

/-- The trackers of the list, before anything is said to them. -/
def SessionWorld.met (world : SessionWorld)
    (parsing : Parsing TrackerEndpoint) : List TrackerRun :=
  (List.range parsing.trackerCount).map
    fun index => (world.future index).start

def meetTrackers (world : SessionWorld) : Prog Session Unit :=
  modifyState fun this => { this with runs := world.met this.parsing }

/-- The part of `main` between the two ends of the torrent. -/
def talkAfterParse (world : SessionWorld) (order : ByteOrder)
    (depth : Nat) : Prog Session ExitCode := do
  match ← onParsing (torrentParse world.parseWorld depth) with
  | .failure => pure .success
  | .success =>
      -- the torrent is printed here
      meetTrackers world
      let this ← getState
      match this.parsing.torrent.hash with
      | none => liftExec (.error .nullPointer)
      | some hash => onRuns (torrentTalk order hash depth)

/-- `main` once it has a torrent. -/
def withTorrent (world : SessionWorld) (order : ByteOrder) (depth : Nat) :
    Prog Session ExitCode := do
  let code ← talkAfterParse world order depth
  onParsing torrentDestroy
  pure code

/-- A torrent behind `Torrent_new`; without its path it is destroyed at
once. -/
def sessionStart (world : SessionWorld) (path : CString) : Session :=
  ⟨parsingStart world.parseWorld path, []⟩

def pathlessStart (world : SessionWorld) (path : CString) : Session :=
  ⟨{ parsingStart world.parseWorld path with
    torrent := ⟨none, none, none, none⟩
    log := [.created .torrent] }, []⟩

/-- `main`.  The first argument is the name of the program. -/
def uvgTorrentMain (world : SessionWorld) (order : ByteOrder) (depth : Nat)
    (arguments : List CString) : Exec ExitCode × Option Session :=
  match arguments with
  | [_, path] =>
      if world.torrentGranted then
        if world.pathGranted then
          let ended := (withTorrent world order depth).from
            (sessionStart world path)
          (ended.1, some ended.2)
        else
          let ended := (onParsing torrentDestroy).from
            (pathlessStart world path)
          (ended.1.map fun _ => .failure, some ended.2)
      else
        (.ok .failure, none)
  | _ => (.ok .failure, none)

/-- What was said to the trackers, by what the parse came to. -/
def SessionWorld.said (world : SessionWorld) (order : ByteOrder)
    (depth : Nat) : Exec ExitCode × Parsing TrackerEndpoint →
      List TrackerRun
  | (.ok .success, parsing) =>
      match parsing.torrent.hash with
      | none => world.met parsing
      | some hash =>
          ((torrentTalk order hash depth).from (world.met parsing)).2
  | _ => []

theorem withTorrent_runs (world : SessionWorld) (order : ByteOrder)
    (depth : Nat) (path : CString) :
    ((withTorrent world order depth).from (sessionStart world path)).2.runs =
      world.said order depth ((torrentParse world.parseWorld depth).from
        (parsingStart world.parseWorld path)) := by
  have kept : ∀ {code session}, ((onParsing torrentDestroy >>=
      fun _ => pure code : Prog Session ExitCode).from session).2.runs =
        session.runs := by
    intro code session
    simp only [bind_from, onParsing, onPart_from]
    cases torrentDestroy.from session.parsing with
    | mk answer after =>
        cases answer with
        | error stop => rfl
        | ok value => rfl
  have talked : ∀ {session},
      ((withTorrent world order depth).from session).2.runs =
        ((talkAfterParse world order depth).from session).2.runs := by
    intro session
    rw [withTorrent, bind_from]
    cases (talkAfterParse world order depth).from session with
    | mk answer after =>
        cases answer with
        | error stop => rfl
        | ok code => exact kept
  rw [talked, talkAfterParse, bind_from, onParsing, onPart_from]
  cases parsed : (torrentParse world.parseWorld depth).from
      (sessionStart world path).parsing with
  | mk answer parsing =>
      have start : (torrentParse world.parseWorld depth).from
          (parsingStart world.parseWorld path) = (answer, parsing) :=
        parsed
      rw [start]
      cases answer with
      | error stop => rfl
      | ok code =>
          cases code with
          | failure => rfl
          | success =>
              simp only [meetTrackers, bind_from, modifyState_from,
                getState_from, SessionWorld.said]
              cases parsing.torrent.hash with
              | none => rfl
              | some hash => rfl

/-! ## The exit code -/

section ExitCode

variable {order : ByteOrder} {world : SessionWorld} {depth : Nat}

/-- The bitwise or of a flag that is set and any exit codes is set. -/
theorem foldl_or_value (statuses : List ExitCode) :
    statuses.foldl (fun success status => success ||| status.value) 1 =
      1 := by
  induction statuses with
  | nil =>
      rfl
  | cons status rest inductionHypothesis =>
      rw [List.foldl_cons]
      cases status with
      | success => exact inductionHypothesis
      | failure => exact inductionHypothesis

/-- `Torrent_connect` never fails. -/
theorem connectEach_ne_failure {σ : Type} {connect : Prog σ ExitCode}
    {states after : List σ} {answer : ExitCode × Nat}
    (ran : (connectEach connect).from states = (.ok answer, after)) :
    answer.1 = .success := by
  rw [connectEach, bind_from] at ran
  cases each : (runEach connect).from states with
  | mk result reached =>
      rw [each] at ran
      cases result with
      | error stop => cases ran
      | ok statuses =>
          simp only [foldl_or_value, if_true] at ran
          cases ran
          rfl

theorem torrentTalk_ne_failure {hash : CString}
    {runs after : List TrackerRun} {code : ExitCode}
    (ran : (torrentTalk order hash depth).from runs = (.ok code, after)) :
    code = .success := by
  rw [torrentTalk, bind_from] at ran
  cases connecting : (torrentConnect order).from runs with
  | mk result reached =>
      rw [connecting] at ran
      cases result with
      | error stop => cases ran
      | ok answer =>
          rw [torrentConnect] at connecting
          simp only [connectEach_ne_failure connecting] at ran
          rw [torrentAnnounce, bind_from] at ran
          cases announcing : (runEach
              (trackerAnnounce order hash depth)).from reached with
          | mk answered last =>
              rw [announcing] at ran
              cases answered with
              | error stop => cases ran
              | ok statuses =>
                  cases ran
                  rfl

theorem talkAfterParse_ne_failure {session after : Session}
    {code : ExitCode}
    (ran : (talkAfterParse world order depth).from session =
      (.ok code, after)) : code = .success := by
  rw [talkAfterParse, bind_from, onParsing, onPart_from] at ran
  cases parsed : (torrentParse world.parseWorld depth).from
      session.parsing with
  | mk answer parsing =>
      rw [parsed] at ran
      cases answer with
      | error stop => cases ran
      | ok parseCode =>
          cases parseCode with
          | failure =>
              cases ran
              rfl
          | success =>
              simp only [meetTrackers, bind_from, modifyState_from,
                getState_from] at ran
              cases hash : parsing.torrent.hash with
              | none =>
                  rw [hash] at ran
                  cases ran
              | some found =>
                  rw [hash] at ran
                  simp only [onRuns, onPart_from] at ran
                  rcases Prod.mk.inj ran with ⟨answered, -⟩
                  exact torrentTalk_ne_failure (Prod.ext answered rfl)

end ExitCode

/-- `main` returns `EXIT_FAILURE` if and only if it is not given one argument
or there is no memory for the torrent: whatever the file holds and whatever
the trackers answer, it does not. -/
theorem uvgTorrentMain_failure_iff (world : SessionWorld)
    (order : ByteOrder) (depth : Nat) (arguments : List CString) :
    (uvgTorrentMain world order depth arguments).1 = .ok .failure ↔
      arguments.length ≠ 2 ∨ world.torrentGranted = false := by
  match arguments with
  | [] => exact iff_of_true rfl (.inl nofun)
  | [_] => exact iff_of_true rfl (.inl (by simp))
  | [name, path] =>
      have two : ¬ [name, path].length ≠ 2 := by simp
      rw [or_iff_right two, uvgTorrentMain]
      cases world.torrentGranted with
      | false => exact iff_of_true rfl rfl
      | true =>
          refine iff_of_false ?_ nofun
          cases world.pathGranted with
          | false =>
              intro failed
              have destroyed := @torrentDestroy_noTrackers _
                (pathlessStart world path).parsing rfl
              simp only [if_true, Bool.false_eq_true, if_false, onParsing,
                onPart_from, destroyed] at failed
              cases failed
          | true =>
              intro failed
              simp only [if_true] at failed
              rw [withTorrent, bind_from] at failed
              cases talked : (talkAfterParse world order depth).from
                  (sessionStart world path) with
              | mk answer after =>
                  rw [talked] at failed
                  cases answer with
                  | error stop => cases failed
                  | ok code =>
                      rw [talkAfterParse_ne_failure talked] at failed
                      simp only [bind_from, onParsing, onPart_from] at failed
                      cases destroyed :
                          torrentDestroy.from after.parsing with
                      | mk result last =>
                          rw [destroyed] at failed
                          cases result with
                          | error stop => cases failed
                          | ok value => cases failed
  | _ :: _ :: _ :: _ => exact iff_of_true rfl (.inl (by simp))

/-! ## The requests -/

/-- The number of requests of a kind in a log. -/
def requestsOf (request : TrackerRequest) (log : List TrackerEvent) : Nat :=
  log.countP fun
    | .sent other _ _ => other = request
    | _ => false

/-- No more requests of each kind than allowed were sent. -/
structure SentWithin (connects announces : Nat) (run : TrackerRun) :
    Prop where
  connects : requestsOf .connect run.log ≤ connects
  announces : requestsOf .announce run.log ≤ announces
  maxAttempts : run.tracker.maxAttempts = 5

section Requests

variable {order : ByteOrder} {hash : CString} {run after : TrackerRun}
  {connects announces depth : Nat}

theorem SentWithin.grows {events : List TrackerEvent} {more further : Nat}
    (within : SentWithin connects announces run)
    (log : after.log = run.log ++ events)
    (sentConnects : requestsOf .connect events ≤ more)
    (sentAnnounces : requestsOf .announce events ≤ further)
    (maxAttempts : after.tracker.maxAttempts = run.tracker.maxAttempts) :
    SentWithin (connects + more) (announces + further) after where
  connects := by
    rw [requestsOf, log, List.countP_append]
    exact Nat.add_le_add within.connects sentConnects
  announces := by
    rw [requestsOf, log, List.countP_append]
    exact Nat.add_le_add within.announces sentAnnounces
  maxAttempts := maxAttempts.trans within.maxAttempts

theorem SentWithin.oneConnect {events : List TrackerEvent}
    (within : SentWithin connects announces run)
    (log : after.log = run.log ++ events)
    (one : requestsOf .connect events = 1)
    (noAnnounce : requestsOf .announce events = 0)
    (maxAttempts : after.tracker.maxAttempts = run.tracker.maxAttempts) :
    SentWithin (connects + 1) announces after :=
  within.grows log one.le noAnnounce.le maxAttempts

theorem SentWithin.oneAnnounce {events : List TrackerEvent}
    (within : SentWithin connects announces run)
    (log : after.log = run.log ++ events)
    (noConnect : requestsOf .connect events = 0)
    (one : requestsOf .announce events = 1)
    (maxAttempts : after.tracker.maxAttempts = run.tracker.maxAttempts) :
    SentWithin connects (announces + 1) after :=
  within.grows log noConnect.le one.le maxAttempts

/-- Nothing is sent. -/
theorem SentWithin.silent {events : List TrackerEvent}
    (within : SentWithin connects announces run)
    (log : after.log = run.log ++ events)
    (noConnect : requestsOf .connect events = 0)
    (noAnnounce : requestsOf .announce events = 0)
    (maxAttempts : after.tracker.maxAttempts = run.tracker.maxAttempts) :
    SentWithin connects announces after :=
  within.grows log noConnect.le noAnnounce.le maxAttempts

theorem SentWithin.mono {more further : Nat}
    (within : SentWithin connects announces run) (first : connects ≤ more)
    (second : announces ≤ further) : SentWithin more further run :=
  ⟨within.connects.trans first, within.announces.trans second,
    within.maxAttempts⟩

/-- What is said stays, and so does the limit. -/
theorem SentWithin.quiet (within : SentWithin connects announces run)
    (log : after.log = run.log)
    (maxAttempts : after.tracker.maxAttempts = run.tracker.maxAttempts) :
    SentWithin connects announces after :=
  within.silent (log.trans (List.append_nil _).symm) rfl rfl maxAttempts

theorem sentWithin_connectAttempt
    (within : SentWithin connects announces run) :
    SentWithin (connects + 1) announces
      ((trackerConnectAttempt order).from run).2 := by
  rw [trackerConnectAttempt, bind_from]
  cases connecting : trackerSocketConnect.from run with
  | mk answer middle =>
      have quiet := trackerSocketConnect_quiet connecting
      have kept : middle.tracker.maxAttempts = run.tracker.maxAttempts := by
        simp only [trackerSocketConnect, bind_from, getState_from,
          setState_from, liftExec_from] at connecting
        cases connecting
        rfl
      have between : SentWithin connects announces middle :=
        within.quiet quiet.log kept
      have still := between.mono (Nat.le_add_right _ 1) le_rfl
      cases answer with
      | error stop => exact still
      | ok code =>
          cases code with
          | failure => exact still
          | success =>
              rcases trackerSocketConnect_open connecting with ⟨fd, isOpen⟩
              have outcome := @trackerConnectExchange_outcome middle order fd
                isOpen
              simp only []
              generalize (trackerConnectExchange order).from middle =
                ended at outcome ⊢
              cases outcome with
              | silent noReply => exact between.oneConnect rfl rfl rfl rfl
              | refused arrived response decoded fails =>
                  exact between.oneConnect rfl rfl rfl rfl
              | accepted arrived response decoded action same =>
                  exact between.oneConnect rfl rfl rfl rfl

/-- A call sends no more than the attempts that are left, whatever number of
calls of itself it is allowed. -/
theorem sentWithin_connectFrom {rounds : Nat}
    (within : SentWithin connects announces run) :
    SentWithin (connects + run.tracker.calls) announces
      ((trackerConnectFrom order rounds).from run).2 := by
  induction rounds generalizing run connects with
  | zero =>
      exact within.mono (Nat.le_add_right _ _) le_rfl
  | succ rounds inductionHypothesis =>
      have one := @sentWithin_connectAttempt order _ _ _ within
      have enough : connects + 1 ≤ connects + run.tracker.calls :=
        Nat.add_le_add_left (Nat.le_add_left 1 _) connects
      rw [trackerConnectFrom, bind_from]
      cases attempted : (trackerConnectAttempt order).from run with
      | mk answer middle =>
          rw [attempted] at one
          have still := one.mono enough le_rfl
          cases answer with
          | error stop => exact still
          | ok verdict =>
              cases verdict with
              | accepted value => exact still
              | refused =>
                  exact still.quiet rfl rfl
              | timedOut =>
                  simp only []
                  rw [bind_from_ok (getState_from middle)]
                  split
                  · rename_i further
                    have fewer :=
                      (sameAttempts_connectAttempt attempted).calls further
                    rw [bind_from_ok (trackerTryAgain_from middle)]
                    have counted : SentWithin (connects + 1) announces
                        middle.oneMore :=
                      one.quiet rfl rfl
                    exact (inductionHypothesis counted).mono (by omega) le_rfl
                  · exact still.quiet rfl rfl

theorem sentWithin_visitAnnounced {infoHash : List UInt8}
    {peers : List AnnouncedPeer}
    (within : SentWithin connects announces run) :
    SentWithin connects announces
      ((visitAnnounced infoHash depth peers).from run).2 := by
  induction peers generalizing run with
  | nil =>
      exact within
  | cons peer rest inductionHypothesis =>
      cases ended : (visitPeerOn infoHash depth run.visits.head).from
          run.visits.head.peer with
      | mk answer final =>
          have talked : SentWithin connects announces
              (run.talkedTo infoHash final) :=
            within.silent rfl rfl rfl rfl
          rw [visitAnnounced_cons ended]
          cases answer with
          | error stop => exact talked
          | ok value => exact inductionHypothesis talked

theorem sentWithin_announceExchange
    (within : SentWithin connects announces run) :
    SentWithin connects (announces + 1)
      ((trackerAnnounceExchange order hash).from run).2 := by
  have outcome := trackerAnnounceExchange_outcome order hash run
  generalize (trackerAnnounceExchange order hash).from run = ended
    at outcome ⊢
  cases outcome with
  | unsent stop unready =>
      have quiet : SentWithin connects announces (run.began .announce) :=
        within.quiet rfl rfl
      exact quiet.mono le_rfl (Nat.le_add_right _ 1)
  | silent read noReply =>
      exact within.oneAnnounce rfl rfl rfl rfl
  | refused read arrived response decoded fails =>
      exact within.oneAnnounce rfl rfl rfl rfl
  | accepted read arrived response decoded action same =>
      exact within.oneAnnounce rfl rfl rfl rfl

theorem sentWithin_announceFrom {rounds : Nat}
    (within : SentWithin connects announces run) :
    SentWithin connects (announces + run.tracker.calls)
      ((trackerAnnounceFrom order hash depth rounds).from run).2 := by
  induction rounds generalizing run announces with
  | zero =>
      exact within.mono le_rfl (Nat.le_add_right _ _)
  | succ rounds inductionHypothesis =>
      have enough : announces + 1 ≤ announces + run.tracker.calls :=
        Nat.add_le_add_left (Nat.le_add_left 1 _) announces
      rw [trackerAnnounceFrom, bind_from_ok (getState_from run)]
      cases connected : run.tracker.connected with
      | false =>
          exact within.mono le_rfl (Nat.le_add_right _ _)
      | true =>
          have one := @sentWithin_announceExchange order hash _ _ _ within
          rw [if_pos rfl, bind_from]
          cases exchanged :
              (trackerAnnounceExchange order hash).from run with
          | mk answer middle =>
              rw [exchanged] at one
              have still := one.mono le_rfl enough
              cases answer with
              | error stop => exact still
              | ok verdict =>
                  cases verdict with
                  | accepted found =>
                      exact bind_ends (sentWithin_visitAnnounced still)
                        fun _ _ last => last
                  | refused =>
                      exact still.quiet rfl rfl
                  | timedOut =>
                      simp only []
                      rw [bind_from_ok (getState_from middle)]
                      split
                      · rename_i further
                        have fewer :=
                          (sameAttempts_announceExchange exchanged).calls
                            further
                        rw [bind_from_ok (trackerTryAgain_from middle)]
                        have counted : SentWithin connects (announces + 1)
                            middle.oneMore :=
                          one.quiet rfl rfl
                        have again := (inductionHypothesis counted).mono
                          le_rfl (by omega :
                            announces + 1 + middle.oneMore.tracker.calls ≤
                              announces + run.tracker.calls)
                        exact bind_ends again fun _ _ last => last
                      · exact still

/-- A call makes at most six attempts. -/
theorem SentWithin.calls (within : SentWithin connects announces run) :
    run.tracker.calls ≤ 6 := by
  rw [Tracker.calls, within.maxAttempts]
  omega

theorem sentWithin_torrentTalk {runs : List TrackerRun}
    (start : AllHold (SentWithin 0 0) runs) :
    AllHold (SentWithin 6 6) ((torrentTalk order hash depth).from runs).2 := by
  have connected : AllHold (SentWithin 6 0)
      ((torrentConnect order).from runs).2 := by
    have each : AllHold (SentWithin 6 0)
        ((runEach (trackerConnect order)).from runs).2 := by
      refine runEach_ends (fun _ within => within.mono (Nat.zero_le 6) le_rfl)
        (fun run within => ?_) start
      rw [trackerConnect, bind_from_ok (getState_from run)]
      exact (sentWithin_connectFrom within).mono
        (by rw [Nat.zero_add]; exact within.calls) le_rfl
    refine bind_ends each fun statuses reached further => ?_
    dsimp only
    split
    · exact further
    · exact further
  have waiting : ∀ {runs}, AllHold (SentWithin 6 0) runs →
      AllHold (SentWithin 6 6) runs :=
    fun within run member => (within run member).mono le_rfl (Nat.zero_le 6)
  rw [torrentTalk, bind_from]
  cases connecting : (torrentConnect order).from runs with
  | mk answer reached =>
      rw [connecting] at connected
      cases answer with
      | error stop => exact waiting connected
      | ok connection =>
          simp only []
          split
          · exact waiting connected
          · have each : AllHold (SentWithin 6 6) ((runEach
                (trackerAnnounce order hash depth)).from reached).2 := by
              refine runEach_ends
                (fun _ within => within.mono le_rfl (Nat.zero_le 6))
                (fun run within => ?_) connected
              rw [trackerAnnounce, bind_from_ok (getState_from run)]
              exact (sentWithin_announceFrom within).mono le_rfl
                (by rw [Nat.zero_add]; exact within.calls)
            exact bind_ends each fun _ _ last => last

end Requests

/-- The trackers of a run of the program and what was said to them. -/
def trackerRuns (ended : Exec ExitCode × Option Session) :
    List TrackerRun :=
  ended.2.elim [] Session.runs

/-- What a run of the program leaves of its trackers. -/
theorem trackerRuns_main (world : SessionWorld) (order : ByteOrder)
    (depth : Nat) (arguments : List CString) :
    trackerRuns (uvgTorrentMain world order depth arguments) = [] ∨
    ∃ name path, arguments = [name, path] ∧
      trackerRuns (uvgTorrentMain world order depth arguments) =
        world.said order depth ((torrentParse world.parseWorld depth).from
          (parsingStart world.parseWorld path)) := by
  match arguments with
  | [] => exact .inl rfl
  | [_] => exact .inl rfl
  | [name, path] =>
      rw [uvgTorrentMain]
      split
      · split
        · exact .inr ⟨name, path, rfl, withTorrent_runs world order depth path⟩
        · exact .inl rfl
      · exact .inl rfl
  | _ :: _ :: _ :: _ => exact .inl rfl

/-- Whatever the file holds and the network does, no tracker is sent more than
six connect requests and six announce requests.  What stops the calls is the
test of the attempts: with any number of calls of themselves from the attempts
left on, `Tracker_connect` and `Tracker_announce` do the same. -/
theorem uvgTorrentMain_requests (world : SessionWorld) (order : ByteOrder)
    (depth : Nat) (arguments : List CString) :
    AllHold (fun run => requestsOf .connect run.log ≤ 6 ∧
        requestsOf .announce run.log ≤ 6)
      (trackerRuns (uvgTorrentMain world order depth arguments)) ∧
    ∀ (run : TrackerRun) (more : Nat),
      (trackerConnectFrom order (run.tracker.calls + more)).from run =
        (trackerConnect order).from run ∧
      ∀ hash, (trackerAnnounceFrom order hash depth
          (run.tracker.calls + more)).from run =
        (trackerAnnounce order hash depth).from run := by
  have met : ∀ parsing, AllHold (SentWithin 0 0) (world.met parsing) := by
    intro parsing run member
    rcases List.mem_map.mp member with ⟨index, _, rfl⟩
    exact ⟨le_rfl, le_rfl, rfl⟩
  have said : ∀ parsed, AllHold (SentWithin 6 6)
      (world.said order depth parsed) := by
    intro parsed
    rw [SessionWorld.said.eq_def]
    split
    · split
      · exact fun run member =>
          (met _ run member).mono (Nat.zero_le 6) (Nat.zero_le 6)
      · exact sentWithin_torrentTalk (met _)
    · exact fun run member => absurd member List.not_mem_nil
  constructor
  · intro run member
    rcases trackerRuns_main world order depth arguments with
      none | ⟨_, path, -, same⟩
    · rw [none] at member
      cases member
    · rw [same] at member
      have within := said _ run member
      exact ⟨within.connects, within.announces⟩
  · intro run more
    have enough : run.tracker.calls ≤ run.tracker.calls + more :=
      Nat.le_add_right _ _
    exact ⟨trackerConnectFrom_enough enough,
      fun hash => trackerAnnounceFrom_enough enough⟩

end UvgTorrent
