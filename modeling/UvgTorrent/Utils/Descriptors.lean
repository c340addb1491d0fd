import UvgTorrent.Peer.Socket

/-!
# The descriptors of a socket

`Socket_connect` may be called again on a socket that is connected.  The log
records each descriptor that `socket` returns and each value that is passed
to `close`.
-/

namespace UvgTorrent.Descriptors

open CProgram

inductive SocketType where
  | tcp
  | udp
  deriving DecidableEq, Repr

/-- What the calls in one `Socket_connect` come to.  `socket` is `none` when
it returns -1, and `junk` is what the block for the descriptor holds before
it is written. -/
structure Outcome where
  junk : Int
  socket : Option Nat
  gethostbyname : Bool
  bind : Bool
  getsockname : Bool
  connect : Bool
  deriving DecidableEq, Repr

inductive DescriptorEvent where
  | opened (fd : Nat)
  | closed (value : Int)
  deriving DecidableEq, Repr

/-- `sock_desc` is `none` while the pointer is `NULL`. -/
structure Socket where
  type : SocketType
  sockDesc : Option Int
  log : List DescriptorEvent
  deriving DecidableEq, Repr

/-- `Socket_init`. -/
def socketNew (type : SocketType) : Socket :=
  ⟨type, none, []⟩

def record (event : DescriptorEvent) : Prog Socket Unit :=
  modifyState fun this => { this with log := this.log ++ [event] }

/-- Whether the calls behind `gethostbyname` all succeed. -/
def passes (type : SocketType) (outcome : Outcome) : Bool :=
  match type with
  | .udp => outcome.bind && outcome.getsockname
  | .tcp => outcome.connect

/-- The clean-up of `Socket_connect`. -/
def socketConnectError (fd : Int) : Prog Socket ExitCode := do
  record (.closed fd)
  modifyState fun this => { this with sockDesc := none }
  pure .failure

/-- `Socket_connect`.  An unknown host ends the program. -/
def socketConnect (outcome : Outcome) : Prog Socket ExitCode := do
  modifyState fun this =>
    { this with sockDesc := some (this.sockDesc.getD outcome.junk) }
  match outcome.socket with
  | none => socketConnectError (-1)
  | some fd =>
      record (.opened fd)
      if outcome.gethostbyname then
        let this ← getState
        if passes this.type outcome then
          modifyState fun this => { this with sockDesc := some (fd : Int) }
          pure .success
        else
          socketConnectError fd
      else
        liftExec (.error .exited)

/-- `Socket_destroy`. -/
def socketDestroy : Prog Socket Unit := do
  let this ← getState
  match this.sockDesc with
  | none => pure ()
  | some value => record (.closed value)

/-- Calls of `Socket_connect` on one socket, and its end. -/
def connectAll : List Outcome → Prog Socket Unit
  | [] => socketDestroy
  | outcome :: rest => do
      let _ ← socketConnect outcome
      connectAll rest

/-! ## What the calls leave in the log -/

/-- The descriptor that a call leaves with the socket. -/
def obtained (type : SocketType) (outcome : Outcome) : Option Int :=
  if passes type outcome then
    outcome.socket.map fun fd : Nat => (fd : Int)
  else
    none

/-- The events of one call. -/
def eventsOf (type : SocketType) (outcome : Outcome) :
    List DescriptorEvent :=
  match outcome.socket with
  | none => [.closed (-1)]
  | some fd =>
      if passes type outcome then
        [.opened fd]
      else
        [.opened fd, .closed fd]

/-- What a call answers. -/
def codeOf (type : SocketType) (outcome : Outcome) : ExitCode :=
  if (obtained type outcome).isSome then .success else .failure

theorem socketConnect_from {this : Socket} {outcome : Outcome}
    (goesOn : outcome.socket = none ∨ outcome.gethostbyname = true) :
    (socketConnect outcome).from this =
      (.ok (codeOf this.type outcome), { this with
        sockDesc := obtained this.type outcome
        log := this.log ++ eventsOf this.type outcome }) := by
  cases opening : outcome.socket with
  | none =>
      simp only [socketConnect, socketConnectError, record, bind_from,
        modifyState_from, pure_from, opening, codeOf, obtained, eventsOf,
        ite_self, Option.map_none, Option.isSome_none, if_false,
        Bool.false_eq_true]
  | some fd =>
      have known : outcome.gethostbyname = true :=
        goesOn.resolve_left (by rw [opening]; exact nofun)
      cases passed : passes this.type outcome with
      | true =>
          simp only [socketConnect, record, bind_from, modifyState_from,
            getState_from, pure_from, opening, known, passed, codeOf,
            obtained, eventsOf, if_true, Option.map_some,
            Option.isSome_some]
      | false =>
          simp only [socketConnect, socketConnectError, record, bind_from,
            modifyState_from, getState_from, pure_from, opening, known,
            passed, codeOf, obtained, eventsOf, if_true, if_false,
            Bool.false_eq_true, List.append_assoc, List.singleton_append,
            Option.isSome_none]

theorem socketConnect_exits {this : Socket} {outcome : Outcome} {fd : Nat}
    (opening : outcome.socket = some fd)
    (unknown : outcome.gethostbyname = false) :
    ((socketConnect outcome).from this).1 = .error .exited := by
  simp only [socketConnect, record, bind_from, modifyState_from,
    liftExec_from, opening, unknown, if_false, Bool.false_eq_true]

/-- The descriptor that the last call leaves with the socket. -/
def remaining (type : SocketType) (start : Option Int) :
    List Outcome → Option Int
  | [] => start
  | outcome :: rest => remaining type (obtained type outcome) rest

/-- The log of a run that reaches its end. -/
theorem connectAll_log {outcomes : List Outcome} {this final : Socket}
    (ran : (connectAll outcomes).from this = (.ok (), final)) :
    final.log = this.log ++ outcomes.flatMap (eventsOf this.type) ++
      (remaining this.type this.sockDesc outcomes).toList.map .closed := by
  induction outcomes generalizing this with
  | nil =>
      cases held : this.sockDesc with
      | none =>
          simp only [connectAll, socketDestroy, bind_from, getState_from,
            held, pure_from] at ran
          cases ran
          simp [remaining]
      | some value =>
          simp only [connectAll, socketDestroy, bind_from, getState_from,
            held, record, modifyState_from] at ran
          cases ran
          simp [remaining]
  | cons outcome rest inductionHypothesis =>
      by_cases goesOn : outcome.socket = none ∨ outcome.gethostbyname = true
      · have called := @socketConnect_from this outcome goesOn
        rw [connectAll, bind_from_ok called] at ran
        rw [inductionHypothesis ran, List.flatMap_cons, remaining]
        simp only [List.append_assoc]
      · rw [not_or] at goesOn
        rcases Option.ne_none_iff_exists'.mp goesOn.1 with ⟨fd, opening⟩
        have stopped := @socketConnect_exits this outcome fd opening
          (Bool.eq_false_iff.mpr goesOn.2)
        have whole := congrArg Prod.fst ran
        rw [connectAll, bind_from_stops stopped] at whole
        cases whole

/-! ## The socket of a peer -/

/-- What the calls come to, for the socket of a peer. -/
def outcomeOf : Connecting → Outcome
  | .socketFails => ⟨0, none, true, true, true, true⟩
  | .hostUnknown => ⟨0, some 0, false, true, true, true⟩
  | .refused => ⟨0, some 0, true, true, true, false⟩
  | .connected fd => ⟨0, some fd, true, true, true, true⟩

/-- The socket of a peer follows `Socket_connect`. -/
theorem socketConnect_peer {socket after : UvgTorrent.Socket}
    {this : Socket} (isTcp : this.type = .tcp) {code : ExitCode}
    (ran : UvgTorrent.socketConnect.from socket = (.ok code, after)) :
    ∃ final, (socketConnect (outcomeOf socket.connecting)).from this =
        (.ok code, final) ∧
      final.sockDesc = after.sockDesc.map fun fd : Nat => (fd : Int) := by
  simp only [UvgTorrent.socketConnect, bind_from, getState_from] at ran
  cases connecting : socket.connecting with
  | socketFails =>
      rw [connecting] at ran
      cases ran
      exact ⟨_, rfl, rfl⟩
  | hostUnknown =>
      rw [connecting] at ran
      cases ran
  | refused =>
      rw [connecting] at ran
      cases ran
      refine ⟨{ this with
        sockDesc := none
        log := this.log ++ [.opened 0] ++ [.closed 0] }, ?_, rfl⟩
      simp only [outcomeOf, socketConnect, socketConnectError, record,
        bind_from, modifyState_from, getState_from, pure_from, passes, isTcp,
        if_true, if_false, Bool.false_eq_true]
      rfl
  | connected fd =>
      rw [connecting] at ran
      cases ran
      refine ⟨{ this with
        sockDesc := some (fd : Int)
        log := this.log ++ [.opened fd] }, ?_, rfl⟩
      simp only [outcomeOf, socketConnect, record, bind_from,
        modifyState_from, getState_from, pure_from, passes, isTcp, if_true]

/-! ## Which logs are settled -/

/-- Each descriptor is closed as often as it was opened, and nothing else is
passed to `close`. -/
structure Settled (log : List DescriptorEvent) : Prop where
  once : ∀ fd : Nat, log.count (.closed fd) = log.count (.opened fd)
  own : ∀ value : Int, .closed value ∈ log →
    ∃ fd : Nat, value = fd ∧ .opened fd ∈ log

/-- Each call obtains a descriptor from `socket`, and none but the last one
leaves it with the socket. -/
def LastAtMostConnects (type : SocketType) (outcomes : List Outcome) :
    Prop :=
  (∀ outcome ∈ outcomes, outcome.socket ≠ none) ∧
    ∀ outcome ∈ outcomes.dropLast, obtained type outcome = none

section Settled

variable {type : SocketType} {outcomes : List Outcome}

/-- A call that leaves no descriptor closes the one it opened. -/
theorem eventsOf_count (type : SocketType) (outcome : Outcome) (fd : Nat) :
    (eventsOf type outcome).count (.opened fd) =
      (eventsOf type outcome).count (.closed fd) +
        if obtained type outcome = some (fd : Int) then 1 else 0 := by
  unfold eventsOf obtained
  cases opening : outcome.socket with
  | none => simp
  | some opened =>
      cases passed : passes type outcome with
      | true => simp [List.count_cons]
      | false => simp [List.count_cons]

theorem flatMap_count (type : SocketType) (outcomes : List Outcome)
    (fd : Nat) :
    (outcomes.flatMap (eventsOf type)).count (.opened fd) =
      (outcomes.flatMap (eventsOf type)).count (.closed fd) +
        outcomes.countP (obtained type · = some (fd : Int)) := by
  induction outcomes with
  | nil =>
      rfl
  | cons outcome rest inductionHypothesis =>
      have here := eventsOf_count type outcome fd
      simp only [List.flatMap_cons, List.count_append, List.countP_cons,
        decide_eq_true_eq]
      omega

theorem obtained_eq_some {outcome : Outcome} {value : Int}
    (held : obtained type outcome = some value) :
    ∃ fd : Nat, value = fd ∧ .opened fd ∈ eventsOf type outcome := by
  unfold obtained at held
  split at held
  · rename_i passed
    rcases Option.map_eq_some_iff.mp held with ⟨fd, opening, rfl⟩
    refine ⟨fd, rfl, ?_⟩
    simp [eventsOf, opening, passed]
  · cases held

theorem eventsOf_own {outcome : Outcome} {value : Int}
    (opening : outcome.socket ≠ none)
    (closing : .closed value ∈ eventsOf type outcome) :
    ∃ fd : Nat, value = fd ∧ .opened fd ∈ eventsOf type outcome := by
  rcases Option.ne_none_iff_exists'.mp opening with ⟨fd, opened⟩
  simp only [eventsOf, opened] at closing ⊢
  split at closing
  · simp at closing
  · rename_i failed
    refine ⟨fd, ?_, ?_⟩
    · simpa using closing
    · simp [failed]

theorem remaining_snoc (type : SocketType) (start : Option Int)
    (front : List Outcome) (last : Outcome) :
    remaining type start (front ++ [last]) = obtained type last := by
  induction front generalizing start with
  | nil =>
      rfl
  | cons outcome front inductionHypothesis =>
      exact inductionHypothesis _

/-- The events of a whole run on a new socket. -/
def runEvents (type : SocketType) (outcomes : List Outcome) :
    List DescriptorEvent :=
  outcomes.flatMap (eventsOf type) ++
    (remaining type none outcomes).toList.map .closed

theorem runEvents_count_iff (type : SocketType) (front : List Outcome)
    (last : Outcome) (fd : Nat) :
    (runEvents type (front ++ [last])).count (.closed fd) =
        (runEvents type (front ++ [last])).count (.opened fd) ↔
      ∀ outcome ∈ front, obtained type outcome ≠ some (fd : Int) := by
  have counted := flatMap_count type (front ++ [last]) fd
  have closing : ((remaining type none (front ++ [last])).toList.map
      DescriptorEvent.closed).count (.closed fd) =
        if obtained type last = some (fd : Int) then 1 else 0 := by
    rw [remaining_snoc]
    cases held : obtained type last with
    | none => simp
    | some value => simp [List.count_cons]
  have opening : ((remaining type none (front ++ [last])).toList.map
      DescriptorEvent.closed).count (.opened fd) = 0 := by
    rw [List.count_eq_zero]
    simp
  rw [List.countP_append, List.countP_singleton] at counted
  simp only [decide_eq_true_eq] at counted
  rw [runEvents, List.count_append, List.count_append, counted, closing,
    opening]
  have none : List.countP (obtained type · = some (fd : Int)) front = 0 ↔
      ∀ outcome ∈ front, obtained type outcome ≠ some (fd : Int) := by
    rw [List.countP_eq_zero]
    simp
  rw [← none]
  omega

theorem runEvents_settled_iff (type : SocketType) (outcomes : List Outcome) :
    Settled (runEvents type outcomes) ↔
      LastAtMostConnects type outcomes := by
  rcases List.eq_nil_or_concat outcomes with rfl | ⟨front, last, rfl⟩
  · refine ⟨fun _ => ⟨nofun, nofun⟩, fun _ => ⟨fun _ => rfl, nofun⟩⟩
  rw [List.concat_eq_append]
  constructor
  · intro settled
    constructor
    · intro outcome member failed
      have closing : .closed (-1) ∈ runEvents type (front ++ [last]) := by
        apply List.mem_append_left
        apply List.mem_flatMap_of_mem member
        simp [eventsOf, failed]
      rcases settled.own _ closing with ⟨fd, same, _⟩
      omega
    · intro outcome member
      rw [List.dropLast_concat] at member
      by_contra held
      rcases Option.ne_none_iff_exists'.mp held with ⟨value, isHeld⟩
      rcases obtained_eq_some isHeld with ⟨fd, rfl, _⟩
      exact (runEvents_count_iff type front last fd).mp
        (settled.once fd) outcome member isHeld
  · rintro ⟨opens, leaves⟩
    rw [List.dropLast_concat] at leaves
    constructor
    · intro fd
      apply (runEvents_count_iff type front last fd).mpr
      intro outcome member held
      rw [leaves outcome member] at held
      cases held
    · intro value closing
      rcases List.mem_append.mp closing with inCall | atEnd
      · rcases List.mem_flatMap.mp inCall with ⟨outcome, member, inside⟩
        rcases eventsOf_own (opens outcome member) inside with
          ⟨fd, same, opened⟩
        exact ⟨fd, same, List.mem_append_left _
          (List.mem_flatMap_of_mem member opened)⟩
      · rw [remaining_snoc] at atEnd
        simp only [List.mem_map, Option.mem_toList] at atEnd
        rcases atEnd with ⟨held, isHeld, same⟩
        cases same
        rcases obtained_eq_some isHeld with ⟨fd, same, opened⟩
        exact ⟨fd, same, List.mem_append_left _
          (List.mem_flatMap_of_mem (List.mem_append_right _ (.head _))
            opened)⟩

end Settled

/-- Of the runs that reach their end, the settled ones are those in which
each call obtains a descriptor and none but the last one leaves it with the
socket. -/
theorem connectAll_settled_iff {type : SocketType} {outcomes : List Outcome}
    {final : Socket}
    (ran : (connectAll outcomes).from (socketNew type) = (.ok (), final)) :
    Settled final.log ↔ LastAtMostConnects type outcomes := by
  have log : final.log = runEvents type outcomes := connectAll_log ran
  rw [log]
  exact runEvents_settled_iff type outcomes

/-- A first call whose `bind` fails, and a second one that succeeds. -/
def boundAtSecondCall : List Outcome :=
  [⟨0, some 3, true, false, true, true⟩, ⟨0, some 3, true, true, true, true⟩]

theorem connectAll_settled_iff_second_call :
    Settled [.opened 3, .closed 3, .opened 3, .closed 3] ↔
      LastAtMostConnects .udp boundAtSecondCall :=
  @connectAll_settled_iff .udp boundAtSecondCall
    ⟨.udp, some 3, [.opened 3, .closed 3, .opened 3, .closed 3]⟩ rfl

/-- Two calls that succeed, as after a timeout of the tracker. -/
def boundTwice : List Outcome :=
  [⟨0, some 3, true, true, true, true⟩, ⟨0, some 4, true, true, true, true⟩]

/-- The first descriptor of a socket that is connected again is never
closed. -/
theorem reconnected_not_settled :
    ∃ final, (connectAll boundTwice).from (socketNew .udp) =
        (.ok (), final) ∧ ¬ Settled final.log := by
  refine ⟨⟨.udp, some 4, [.opened 3, .opened 4, .closed 4]⟩, rfl, ?_⟩
  intro settled
  have once := settled.once 3
  revert once
  decide

end UvgTorrent.Descriptors
