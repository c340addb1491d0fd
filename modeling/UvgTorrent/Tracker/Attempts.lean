import UvgTorrent.Library.Retry
import UvgTorrent.Tracker.ExchangeIds
import UvgTorrent.Tracker.PeerOrder

/-!
# Attempts

Which datagrams a tracker takes for the answer to the request of an attempt.
-/

namespace UvgTorrent

open CProgram CText CArray MachineInt

def TrackerRequest.action : TrackerRequest → Nat
  | .connect => 0
  | .announce => 1

/-- The bytes of a response that are decoded whatever its size. -/
def TrackerRequest.headerSize : TrackerRequest → Nat
  | .connect => 16
  | .announce => 20

/-- The datagrams are as long as what is decoded of them. -/
def Attempt.LongReply (request : TrackerRequest) (attempt : Attempt) :
    Prop :=
  ∀ reply, attempt.reply = some reply → request.headerSize ≤ reply.length

/-- A datagram passes the test of the request of its attempt. -/
def Attempt.Passes (order : ByteOrder) (request : TrackerRequest)
    (attempt : Attempt) (reply : List UInt8) : Prop :=
  reply.take 4 = networkBytes 4 request.action ∧
  (reply.drop 4).take 4 = store32 order attempt.transactionId.toUInt32

/-- No datagram came. -/
def Attempt.Silent (attempt : Attempt) : Prop :=
  attempt.reply = none

/-- A datagram came that passes the test. -/
def Attempt.Answered (order : ByteOrder) (request : TrackerRequest)
    (attempt : Attempt) : Prop :=
  ∃ reply, attempt.reply = some reply ∧ attempt.Passes order request reply

/-- The state for one more attempt. -/
def TrackerRun.oneMore (run : TrackerRun) : TrackerRun :=
  { run with tracker := { run.tracker with
      attempts := run.tracker.attempts + 1 } }

theorem trackerTryAgain_from (run : TrackerRun) :
    trackerTryAgain.from run = (.ok (), run.oneMore) :=
  rfl

/-- The number of requests in a log. -/
def requestsIn (log : List TrackerEvent) : Nat :=
  log.countP fun
    | .sent .. => true
    | _ => false

/-- Between two states so many requests are sent. -/
def Sends (count : Nat) (run after : TrackerRun) : Prop :=
  ∃ events, after.log = run.log ++ events ∧ requestsIn events = count

/-- At most so many. -/
def SendsAtMost (bound : Nat) (run after : TrackerRun) : Prop :=
  ∃ count, Sends count run after ∧ count ≤ bound

section Sends

variable {run middle after : TrackerRun} {first second : Nat}

theorem Sends.trans (one : Sends first run middle)
    (other : Sends second middle after) :
    Sends (first + second) run after := by
  rcases one with ⟨events, log, count⟩
  rcases other with ⟨further, laterLog, laterCount⟩
  refine ⟨events ++ further, ?_, ?_⟩
  · rw [laterLog, log, List.append_assoc]
  · rw [requestsIn, List.countP_append, ← count, ← laterCount]
    rfl

theorem Sends.unique (one : Sends first run after)
    (other : Sends second run after) : first = second := by
  rcases one with ⟨events, log, rfl⟩
  rcases other with ⟨further, laterLog, rfl⟩
  rw [List.append_cancel_left (log.symm.trans laterLog)]

theorem Sends.none (log : after.log = run.log) : Sends 0 run after :=
  ⟨[], log.trans (List.append_nil _).symm, rfl⟩

theorem SendsAtMost.trans (one : SendsAtMost first run middle)
    (other : SendsAtMost second middle after) :
    SendsAtMost (first + second) run after := by
  rcases one with ⟨count, sends, few⟩
  rcases other with ⟨laterCount, laterSends, laterFew⟩
  exact ⟨count + laterCount, sends.trans laterSends,
    Nat.add_le_add few laterFew⟩

theorem SendsAtMost.mono (sends : SendsAtMost first run after)
    (more : first ≤ second) : SendsAtMost second run after := by
  rcases sends with ⟨count, sends, few⟩
  exact ⟨count, sends, le_trans few more⟩

end Sends

section Attempts

variable {order : ByteOrder} {request : TrackerRequest} {attempt : Attempt}
  {reply datagram : List UInt8}

theorem arrives_long (long : request.headerSize ≤ reply.length) :
    request.headerSize ≤ (arrives reply).length := by
  rw [arrives, List.length_take]
  cases request with
  | connect => exact le_min (by decide) long
  | announce => exact le_min (by decide) long

theorem eight_le_headerSize (request : TrackerRequest) :
    8 ≤ request.headerSize := by
  cases request with
  | connect => decide
  | announce => decide

/-- The array of a long datagram shows its action. -/
theorem networkField_action (long : request.headerSize ≤ datagram.length) :
    networkField (attempt.array datagram) 0 =
        networkField (networkBytes 4 request.action) 0 ↔
      datagram.take 4 = networkBytes 4 request.action := by
  have inside : 0 + 4 ≤ datagram.length := by
    have eight := eight_le_headerSize request
    omega
  have whole : (networkBytes 4 request.action).take 4 =
      networkBytes 4 request.action :=
    List.take_of_length_le (networkBytes_length 4 _).le
  rw [Attempt.array, networkField_append inside]
  constructor
  · intro action
    have bytes := networkField_inj inside (by simp) action
    rwa [List.drop_zero, List.drop_zero, whole] at bytes
  · intro bytes
    rw [networkField, networkField, List.drop_zero, List.drop_zero, bytes,
      whole]

/-- And its transaction id. -/
theorem rawField_id (long : request.headerSize ≤ datagram.length) :
    rawField order (attempt.array datagram) 4 = attempt.transactionId ↔
      (datagram.drop 4).take 4 =
        store32 order attempt.transactionId.toUInt32 := by
  have eight := le_trans (eight_le_headerSize request) long
  have sent := connectMessage_id order attempt.transactionId
  constructor
  · intro same
    exact (rawField_sent same sent eight).trans sent
  · intro echoed
    exact rawField_echo (echoed.trans sent.symm) sent eight

/-- The test of the decoded fields is the one of the bytes. -/
theorem passes_iff (long : request.headerSize ≤ reply.length) :
    attempt.Passes order request reply ↔
      networkField (attempt.array (arrives reply)) 0 =
          networkField (networkBytes 4 request.action) 0 ∧
        attempt.transactionId =
          rawField order (attempt.array (arrives reply)) 4 := by
  have cut := arrives_long long
  have front : (arrives reply).take 4 = reply.take 4 := by
    rw [arrives, List.take_take]
    rfl
  have id : ((arrives reply).drop 4).take 4 = (reply.drop 4).take 4 := by
    rw [arrives, List.drop_take, List.take_take]
    rfl
  rw [networkField_action cut, @eq_comm _ attempt.transactionId,
    rawField_id cut, front, id, Attempt.Passes]

end Attempts

/-! ## A conversation -/

def stillSurroundings : Surroundings :=
  ⟨0, fun _ => 0⟩

/-- The first request of a kind has the id 0, and a reply comes to it. -/
def attemptOf (sent : Bool) (reply : List UInt8) : Attempt where
  rand := 0
  packet := ⟨stillSurroundings, stillSurroundings, stillSurroundings⟩
  infoHashBytes := stillSurroundings
  out := stillSurroundings
  sent
  reply := some reply

/-- Both requests are answered, the announce request with a peer that refuses
the connection. -/
def answeredFuture (sent : Bool) : TrackerFuture where
  connecting := .const ⟨0, some 3, true, true, true, true⟩
  coming
    | .connect => .const (attemptOf sent (List.replicate 16 0))
    | .announce => .const (attemptOf true
        ([0, 0, 0, 1] ++ List.replicate 16 0 ++ [10, 0, 0, 1, 26, 225]))
  visits := .const ⟨newPeer .refused [],
    ⟨stillSurroundings, stillSurroundings,
      ⟨fun _ => 0, fun _ => stillSurroundings, .little⟩⟩, stillSurroundings⟩

/-- The first attempt times out, and the others are answered. -/
def lateFuture : TrackerFuture :=
  { answeredFuture true with
    coming := fun request => Stream'.cons
      { attemptOf true [] with reply := none }
      ((answeredFuture true).coming request) }

theorem lateFuture_long (request : TrackerRequest) (count : Nat) :
    ((lateFuture.coming request).get count).LongReply request := by
  intro reply arrived
  cases count with
  | zero => cases arrived
  | succ count =>
      cases request with
      | connect =>
          cases arrived
          decide
      | announce =>
          cases arrived
          decide

end UvgTorrent
