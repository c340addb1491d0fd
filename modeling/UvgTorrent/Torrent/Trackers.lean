import UvgTorrent.Tracker.Attempts

/-!
# The trackers of a torrent

`Torrent_connect` and `Torrent_announce` call every tracker in turn.  A peer
handshake is started only behind a connect response and an announce response
that answer the requests that went out last.
-/

namespace UvgTorrent

open CProgram CText CArray MachineInt EventLog

/-! ## The loops over the trackers -/

/-- The loop of `Torrent_connect` over any call of a tracker.  The answer is
the exit code and `connected_trackers`. -/
def connectEach {σ : Type} (connect : Prog σ ExitCode) :
    Prog (List σ) (ExitCode × Nat) := do
  let statuses ← runEach connect
  let success := statuses.foldl
    (fun success status => success ||| status.value) 1
  let connectedTrackers := statuses.count .success
  if success = 1 then
    pure (.success, connectedTrackers)
  else
    pure (.failure, connectedTrackers)

/-- `Torrent_connect`. -/
def torrentConnect (order : ByteOrder) :
    Prog (List TrackerRun) (ExitCode × Nat) :=
  connectEach (trackerConnect order)

/-- `Torrent_announce`. -/
def torrentAnnounce (order : ByteOrder) (hash : CString) (depth : Nat) :
    Prog (List TrackerRun) ExitCode := do
  let _ ← runEach (trackerAnnounce order hash depth)
  pure .success

/-- The calls of `main` behind `Torrent_parse`. -/
def torrentTalk (order : ByteOrder) (hash : CString) (depth : Nat) :
    Prog (List TrackerRun) ExitCode := do
  let connected ← torrentConnect order
  match connected.1 with
  | .failure => pure .failure
  | .success => torrentAnnounce order hash depth

def AllHold (Holds : TrackerRun → Prop) (runs : List TrackerRun) : Prop :=
  ∀ run ∈ runs, Holds run

/-- What the functions of a tracker preserve beside a companion, the loops
preserve for each. -/
theorem TalkInvariant.torrentTalk_along {order : ByteOrder} {hash : CString}
    {Companion : Type} {Holds : Companion → TrackerRun → Prop}
    {Ready : Companion → List UInt8 → TrackerRun → Prop}
    (talk : ∀ companion,
      TalkInvariant order hash (Holds companion) (Ready companion))
    (depth : Nat) {companions : List Companion} {runs : List TrackerRun}
    (start : List.Forall₂ Holds companions runs) :
    List.Forall₂ Holds companions
      ((torrentTalk order hash depth).from runs).2 := by
  have connected : List.Forall₂ Holds companions
      ((torrentConnect order).from runs).2 := by
    have each : List.Forall₂ Holds companions
        ((runEach (UvgTorrent.trackerConnect order)).from runs).2 :=
      runEach_along (fun companion _ holds =>
        (talk companion).trackerConnect holds) start
    refine @bind_ends _ _ _ (fun reached =>
      List.Forall₂ Holds companions reached) _ _ _ each ?_
    intro statuses reached further
    dsimp only
    split
    · exact further
    · exact further
  refine @bind_ends _ _ _ (fun reached =>
    List.Forall₂ Holds companions reached) _ _ _ connected ?_
  intro connection reached further
  split
  · exact further
  · have each : List.Forall₂ Holds companions ((runEach
        (UvgTorrent.trackerAnnounce order hash depth)).from reached).2 :=
      runEach_along (fun companion _ holds =>
        (talk companion).trackerAnnounce depth holds) further
    exact @bind_ends _ _ _ (fun last => List.Forall₂ Holds companions last)
      _ _ _ each fun _ _ last => last

theorem allHold_of_along {Companion : Type} {Holds : TrackerRun → Prop}
    {companions : List Companion} {runs : List TrackerRun}
    (along : List.Forall₂ (fun _ run => Holds run) companions runs) :
    AllHold Holds runs := by
  induction along with
  | nil =>
      exact fun _ member => absurd member List.not_mem_nil
  | cons first rest inductionHypothesis =>
      exact List.forall_mem_cons.mpr ⟨first, inductionHypothesis⟩

theorem TalkInvariant.torrentTalk {order : ByteOrder} {hash : CString}
    {Holds : TrackerRun → Prop} {Ready : List UInt8 → TrackerRun → Prop}
    (talk : TalkInvariant order hash Holds Ready) (depth : Nat)
    {runs : List TrackerRun} (start : AllHold Holds runs) :
    AllHold Holds ((torrentTalk order hash depth).from runs).2 :=
  allHold_of_along (TalkInvariant.torrentTalk_along (fun _ => talk) depth
    (List.forall₂_same.mpr start))

/-! ## Answers -/

/-- A request of a kind that went out. -/
def wentOut (request : TrackerRequest) : TrackerEvent → Option (List UInt8)
  | .sent other message .success =>
      if other = request then some message else none
  | _ => none

def lastSent (request : TrackerRequest) (log : List TrackerEvent) :
    Option (List UInt8) :=
  (log.filterMap (wentOut request)).getLast?

/-- A datagram has the action of a request and the transaction id of the
request of that kind that went out last. -/
def AnswersLast (request : TrackerRequest) (before : List TrackerEvent)
    (datagram : List UInt8) : Prop :=
  datagram.take 4 = networkBytes 4 request.action ∧
  ∃ message, lastSent request before = some message ∧
    (datagram.drop 4).take 4 = (message.drop 12).take 4

/-- A connect response that was an answer was accepted. -/
def connectAnswered : Milestone TrackerEvent :=
  Milestone.occurred fun before event => ∃ datagram,
    event = .accepted .connect datagram ∧
    AnswersLast .connect before datagram

/-- And after it an announce response. -/
def announceAnswered : Milestone TrackerEvent :=
  Milestone.occurred fun before event => ∃ datagram,
    event = .accepted .announce datagram ∧
    AnswersLast .announce before datagram ∧
    connectAnswered.Reached before

def HandshakeAnswered (before : List TrackerEvent) : TrackerEvent → Prop
  | .handshake _ => announceAnswered.Reached before
  | _ => True

/-! ## Attempts -/

/-- What passes the test comes behind a `sendto` that succeeded. -/
def Attempt.SendHeeded (order : ByteOrder) (request : TrackerRequest)
    (attempt : Attempt) : Prop :=
  ∀ reply, attempt.reply = some reply →
    attempt.Passes order request reply → attempt.sent = true

def TrackerFuture.LongReplies (future : TrackerFuture) : Prop :=
  ∀ request count, ((future.coming request).get count).LongReply request

def TrackerFuture.SendsHeeded (order : ByteOrder) (future : TrackerFuture) :
    Prop :=
  ∀ request count,
    ((future.coming request).get count).SendHeeded order request

/-! ## The invariant -/

structure HoldsAnswers (order : ByteOrder) (run : TrackerRun) : Prop where
  log : Orderly HandshakeAnswered run.log
  connected : run.tracker.connected = true →
    connectAnswered.Reached run.log
  long : ∀ request count,
    ((run.coming request).get count).LongReply request
  heeded : ∀ request count,
    ((run.coming request).get count).SendHeeded order request

section Answers

variable {order : ByteOrder} {run after : TrackerRun}
  {request : TrackerRequest} {attempt : Attempt}
  {reply datagram : List UInt8} {log : List TrackerEvent}

theorem lastSent_sent (message : List UInt8) (events : List TrackerEvent)
    (nothing : events.filterMap (wentOut request) = []) :
    lastSent request
        (log ++ .sent request message .success :: events) =
      some message := by
  have went : wentOut request (.sent request message .success) =
      some message :=
    if_pos rfl
  rw [lastSent, List.filterMap_append, List.filterMap_cons_some went,
    nothing]
  exact List.getLast?_concat

/-- What is accepted answers the request that went out last. -/
theorem accepted_answersLast (holds : HoldsAnswers order run)
    (arrived : (run.next request).reply = some reply)
    {message : List UInt8}
    (sent : (message.drop 12).take 4 =
      store32 order (run.next request).transactionId.toUInt32)
    (action : networkField ((run.next request).array (arrives reply)) 0 =
      networkField (networkBytes 4 request.action) 0)
    (same : rawField order ((run.next request).array (arrives reply)) 4 =
      (run.next request).transactionId) :
    AnswersLast request
      (run.log ++ [.sent request message (run.next request).code,
        .received (arrives reply), .compared true])
      (arrives reply) := by
  have long := holds.long request 0 reply arrived
  have cut := arrives_long long
  have eight := le_trans (eight_le_headerSize request) cut
  have front := (networkField_action cut).mp action
  have echoed := rawField_sent same sent eight
  have passes := (passes_iff long).mpr ⟨action, same.symm⟩
  have success := holds.heeded request 0 reply arrived passes
  have code : (run.next request).code = .success := if_pos success
  refine ⟨front, message, ?_, echoed⟩
  rw [code]
  exact lastSent_sent message [.received (arrives reply), .compared true] rfl

/-- The state keeps the invariant over events that start no handshake. -/
theorem HoldsAnswers.keeps {events : List TrackerEvent}
    (holds : HoldsAnswers order run) (log : after.log = run.log ++ events)
    (connected : after.tracker.connected = run.tracker.connected)
    (coming : ∀ request count, ∃ index,
      (after.coming request).get count = (run.coming request).get index)
    (free : ∀ event ∈ events, ∀ before, HandshakeAnswered before event) :
    HoldsAnswers order after where
  log := log ▸ orderly_append holds.log free
  connected := by
    intro isConnected
    rw [log]
    rw [connected] at isConnected
    exact connectAnswered.persists_append (holds.connected isConnected)
  long := by
    intro request count
    rcases coming request count with ⟨index, same⟩
    rw [same]
    exact holds.long request index
  heeded := by
    intro request count
    rcases coming request count with ⟨index, same⟩
    rw [same]
    exact holds.heeded request index

/-- The attempts that are left once one has begun. -/
theorem began_coming (run : TrackerRun) (taken request : TrackerRequest)
    (count : Nat) : ∃ index, ((run.began taken).coming request).get count =
      (run.coming request).get index := by
  by_cases same : request = taken
  · refine ⟨count + 1, ?_⟩
    simp only [TrackerRun.began, if_pos same]
    rfl
  · refine ⟨count, ?_⟩
    simp only [TrackerRun.began, if_neg same]

theorem holdsAnswers_connect {answer : Exec (Verdict Unit)}
    (holds : HoldsAnswers order run)
    (outcome : ConnectOutcome order run (answer, after)) :
    HoldsAnswers order after := by
  have coming := began_coming run .connect
  cases outcome with
  | silent noReply =>
      exact holds.keeps rfl rfl coming (by simp [HandshakeAnswered])
  | refused arrived response decoded =>
      exact holds.keeps rfl rfl coming (by simp [HandshakeAnswered])
  | accepted arrived response decoded action same =>
      have fields := trackerConnectResponse_fields decoded
      rw [fields] at action same
      have answers := accepted_answersLast holds arrived
        (connectMessage_id order _) action same
      have reached : connectAnswered.Reached _ :=
        Milestone.occurred_snoc ⟨_, rfl, answers⟩
      rw [List.append_assoc] at reached
      have began : HoldsAnswers order (run.began .connect) :=
        holds.keeps (List.append_nil _).symm rfl coming (by simp)
      exact ⟨orderly_append holds.log (by simp [HandshakeAnswered]),
        fun _ => reached, began.long, began.heeded⟩

theorem holdsAnswers_announce {hash : CString}
    {answer : Exec (Verdict (List AnnouncedPeer × List UInt8))}
    (holds : HoldsAnswers order run)
    (outcome : AnnounceOutcome order hash run (answer, after)) :
    HoldsAnswers order after := by
  have coming := began_coming run .announce
  cases outcome with
  | unsent stop =>
      exact holds.keeps (List.append_nil _).symm rfl coming (by simp)
  | silent read noReply =>
      exact holds.keeps rfl rfl coming (by simp [HandshakeAnswered])
  | refused read arrived response decoded =>
      exact holds.keeps rfl rfl coming (by simp [HandshakeAnswered])
  | accepted read arrived response decoded action same =>
      exact holds.keeps rfl rfl coming (by simp [HandshakeAnswered])

/-- An announce response that is accepted answers its request. -/
theorem announceAnswered_accepted {hash : CString} {infoHash : List UInt8}
    {peers : List AnnouncedPeer} (holds : HoldsAnswers order run)
    (connected : run.tracker.connected = true)
    (outcome : AnnounceOutcome order hash run
      (.ok (.accepted (peers, infoHash)), after)) :
    announceAnswered.Reached after.log := by
  cases outcome with
  | @accepted _ infoHashBytes _ read arrived response decoded action same =>
      rcases trackerAnnounceResponse_fields (arrives_lt _) decoded with
        ⟨copies, fields⟩
      rw [fields] at action same
      have sent := @announceMessage_id order run.tracker.connectionId
        (run.next .announce).transactionId infoHashBytes
        (announcePeerId.take 20)
      have answers := accepted_answersLast holds arrived sent action same
      have reached : announceAnswered.Reached _ :=
        Milestone.occurred_snoc ⟨_, rfl, answers,
          connectAnswered.persists_append (holds.connected connected)⟩
      rwa [List.append_assoc] at reached

theorem holdsAnswers_invariant (order : ByteOrder) (hash : CString) :
    TalkInvariant order hash (HoldsAnswers order)
      fun _ run => announceAnswered.Reached run.log where
  quiet := fun quiet holds =>
    holds.keeps (quiet.log.trans (List.append_nil _).symm) quiet.connected
      (fun request count => ⟨count, by rw [quiet.coming]⟩) (by simp)
  connect := holdsAnswers_connect
  announce := fun holds _ outcome => holdsAnswers_announce holds outcome
  ready := announceAnswered_accepted
  visit := fun _ holds reached =>
    ⟨holds.keeps (List.append_nil _).symm rfl
      (fun _ count => ⟨count, rfl⟩) (by simp), reached⟩
  handshake := by
    intro infoHash run holds reached
    have started : HandshakeAnswered run.log (.handshake infoHash) := reached
    exact ⟨⟨orderly_snoc holds.log started,
      fun connected => connectAnswered.persists (holds.connected connected),
      holds.long, holds.heeded⟩, announceAnswered.persists reached⟩

end Answers

/-- Where what passes the test comes behind a request that went out, a peer
handshake comes behind answers to both requests. -/
theorem torrentTalk_handshakesAnswered (order : ByteOrder) (hash : CString)
    (depth : Nat) (futures : List TrackerFuture)
    (long : ∀ future ∈ futures, future.LongReplies)
    (heeded : ∀ future ∈ futures, future.SendsHeeded order) :
    AllHold (fun run => Orderly HandshakeAnswered run.log)
      ((torrentTalk order hash depth).from
        (futures.map TrackerFuture.start)).2 := by
  have start : AllHold (HoldsAnswers order)
      (futures.map TrackerFuture.start) := by
    intro run member
    rcases List.mem_map.mp member with ⟨future, isOne, rfl⟩
    exact ⟨orderly_nil, nofun, long future isOne, heeded future isOne⟩
  have held := (holdsAnswers_invariant order hash).torrentTalk depth start
  exact fun run member => (held run member).log

/-! ## A request that does not go out -/

theorem answeredFuture_long (sent : Bool) :
    (answeredFuture sent).LongReplies := by
  intro request count reply arrived
  cases request with
  | connect =>
      cases arrived
      decide
  | announce =>
      cases arrived
      decide

theorem answeredFuture_heeded (order : ByteOrder) :
    (answeredFuture true).SendsHeeded order := by
  intro request count reply arrived passes
  cases request with
  | connect => rfl
  | announce => rfl

theorem torrentTalk_handshakesAnswered_one :
    AllHold (fun run => Orderly HandshakeAnswered run.log)
      ((torrentTalk .little (urnOf zeroHash) 1).from
        ([answeredFuture true].map TrackerFuture.start)).2 := by
  apply torrentTalk_handshakesAnswered
  · intro future member
    rw [List.mem_singleton.mp member]
    exact answeredFuture_long true
  · intro future member
    rw [List.mem_singleton.mp member]
    exact answeredFuture_heeded .little

/-- A handshake needs a connect request that went out. -/
theorem handshake_needsRequest {log : List TrackerEvent}
    {infoHash : List UInt8} (orderly : Orderly HandshakeAnswered log)
    (started : .handshake infoHash ∈ log) :
    log.filterMap (wentOut .connect) ≠ [] := by
  obtain ⟨before, after, split⟩ := List.append_of_mem started
  rcases orderly before _ after split with
    ⟨front, _, _, announced, _, _, _, connected⟩
  rcases connected with ⟨first, _, _, accepted, _, _, _, message, last, _⟩
  have isSent := List.mem_of_getLast? last
  rw [split, announced, accepted]
  intro none
  simp only [List.filterMap_append, List.append_eq_nil_iff] at none
  rw [none.1.1.1] at isSent
  cases isSent

theorem unsentRequest_startsHandshake :
    (answeredFuture false).LongReplies ∧
    ¬ AllHold (fun run => Orderly HandshakeAnswered run.log)
      ((torrentTalk .little (urnOf zeroHash) 1).from
        ([answeredFuture false].map TrackerFuture.start)).2 := by
  refine ⟨answeredFuture_long false, fun orderly => ?_⟩
  have logs : ((torrentTalk .little (urnOf zeroHash) 1).from
      ([answeredFuture false].map TrackerFuture.start)).2.map
        (fun run => (run.log.filterMap (wentOut .connect),
          run.log.getLast?)) =
      [([], some (.handshake (zeroHash.digits ++ [0])))] := by
    decide +kernel
  obtain ⟨run, member, seen⟩ := List.mem_map.mp
    (logs ▸ List.mem_singleton_self _)
  obtain ⟨nothing, last⟩ := Prod.mk.inj seen
  exact handshake_needsRequest (orderly run member)
    (List.mem_of_getLast? last) nothing

end UvgTorrent
