import UvgTorrent.Tracker.AnnounceRetries

/-!
# The shape of an info hash

`torrent->hash` is any text of a magnet.  Nothing looks at it before its
third piece is scanned for forty digits, and nothing after that asks whether
they were there.
-/

namespace UvgTorrent

open CProgram CText CArray MachineInt

/-- There are forty hexadecimal digits behind the second colon. -/
def HasFortyDigits (hash : List UInt8) : Prop :=
  ∃ scheme algorithm digits rest,
    hash = scheme ++ ch ':' :: (algorithm ++ ch ':' :: (digits ++ rest)) ∧
    ch ':' ∉ scheme ∧ ch ':' ∉ algorithm ∧ digits.length = 40 ∧
    ∀ digit ∈ digits, isHexDigit digit = true

/-- Every call of `Tracker_announce` on a connected tracker fails. -/
def AnnounceRejects (hash : CString) : Prop :=
  ∀ order run depth, run.tracker.connected = true →
    run.tracker.attempts = 0 → run.tracker.maxAttempts = 5 →
    (∃ fd, run.tracker.descriptor = some fd) →
    ((trackerAnnounce order hash depth).from run).1 = .ok .failure

/-- What `Peer_Handshake_Request_init` answers on the text of a hash. -/
def handshakeCode (around : Surroundings) (infoHash peerId : List UInt8) :
    Exec ExitCode :=
  (peerHandshakeRequestInitOn around infoHash peerId).map fun _ => .success

/-- The hash is read inside its text by both functions, and rejected when it
has no forty digits. -/
structure HashHandled (hash : CString) : Prop where
  announceReads : HashReadable hash
  handshakeReads : ∀ infoHash, extractInfoHash hash = .ok infoHash →
    ∀ around peerId, ∃ code, handshakeCode around infoHash peerId = .ok code
  announceRejects : ¬ HasFortyDigits hash.bytes → AnnounceRejects hash
  handshakeRejects : ¬ HasFortyDigits hash.bytes →
    ∀ infoHash, extractInfoHash hash = .ok infoHash →
      ∀ around peerId,
        handshakeCode around infoHash peerId = .ok .failure

section Reading

variable {hash : CString}

/-- The third piece of a text with two colons. -/
theorem extractInfoHash_piece (short : hash.bytes.length ≤ 255)
    {scheme algorithm rest : List UInt8}
    (whole : hash.bytes =
      scheme ++ ch ':' :: (algorithm ++ ch ':' :: rest))
    (schemeFree : ch ':' ∉ scheme) (algorithmFree : ch ':' ∉ algorithm) :
    extractInfoHash hash =
      .ok (rest.takeWhile (· != ch ':') ++ [0]) := by
  rcases stringSplit_third (Nat.lt_succ_of_le short) whole schemeFree
    algorithmFree (ch ':') with
    ⟨scan, _, _, third, others, split, list, _, front⟩
  rw [extractInfoHash, split, ok_bind, list, linkedlistGet]
  simp only []
  rw [if_neg (by omega), ← front]
  rfl

/-- A piece of 38 bytes leaves twenty places inside it and its terminator. -/
theorem scanPairs_reads (around : Surroundings) {piece : List UInt8}
    {remaining count : Nat}
    (inside : 2 * (count + remaining) ≤ piece.length + 2) :
    ∃ bytes, scanPairs around (piece ++ [0]) remaining count =
      .ok bytes := by
  induction remaining generalizing count with
  | zero =>
      exact ⟨[], rfl⟩
  | succ remaining inductionHypothesis =>
      rcases @inductionHypothesis (count + 1) (by omega) with
        ⟨others, scanned⟩
      have terminated : 0 ∈ (piece ++ [0]).drop (2 * count) := by
        rw [List.drop_append_of_le_length (by omega)]
        exact List.mem_append_right _ List.mem_cons_self
      rw [scanPairs, readString, if_pos terminated, ok_bind, scanned]
      exact ⟨_, rfl⟩

theorem hashReadable_of_digits (short : hash.bytes.length ≤ 255)
    (digits : HasFortyDigits hash.bytes) : HashReadable hash := by
  rcases digits with ⟨scheme, algorithm, digits, rest, whole, schemeFree,
    algorithmFree, forty, hex⟩
  have noColon : ∀ digit ∈ digits, (digit != ch ':') = true := by
    intro digit member
    have isHex := hex digit member
    have different : digit ≠ ch ':' := by
      rintro rfl
      exact absurd isHex (by decide)
    simpa using different
  have extracted := extractInfoHash_piece short whole schemeFree
    algorithmFree
  rw [List.takeWhile_append_of_pos noColon] at extracted
  refine ⟨_, extracted, fun around => ?_⟩
  refine scanPairs_reads around ?_
  rw [List.length_append]
  omega

end Reading

/-- A text is handled as it must be when it has forty digits, and only
then: one without them is never rejected. -/
theorem hashHandled_iff {hash : CString} (short : hash.bytes.length ≤ 255) :
    HashHandled hash ↔ HasFortyDigits hash.bytes := by
  constructor
  · intro handled
    by_contra missing
    have ready : AnnounceReady hash silentFuture.connected :=
      ⟨handled.announceReads, 3, rfl⟩
    rcases @trackerAnnounce_silent .little _ _ rfl rfl rfl ready 0
      (fun _ _ => rfl) with ⟨after, ended, _⟩
    have rejected := handled.announceRejects missing .little
      silentFuture.connected 0 rfl rfl rfl ready.isOpen
    rw [ended] at rejected
    cases rejected
  · intro digits
    have readable := hashReadable_of_digits short digits
    refine ⟨readable, ?_, fun missing => absurd digits missing,
      fun missing => absurd digits missing⟩
    intro infoHash extracted around peerId
    rcases readable with ⟨found, read, scans⟩
    cases extracted.symm.trans read
    rcases scans around with ⟨bytes, scanned⟩
    rw [handshakeCode, peerHandshakeRequestInitOn, scanned]
    exact ⟨.success, rfl⟩

theorem hashHandled_iff_zeros : HashHandled (urnOf zeroHash) :=
  (hashHandled_iff (by decide)).mpr
    ⟨text "urn", text "btih", zeroHash.digits, [], by decide, by decide,
      by decide, zeroHash.length, zeroHash.hex⟩

/-- A hash of 32 characters in base 32. -/
def base32Text : List UInt8 :=
  text "urn:btih:ABCDEFGHIJKLMNOPQRSTUVWXYZ234567"

theorem noNul_base32Text : 0 ∉ base32Text := by
  decide

def base32Urn : CString :=
  ⟨base32Text, noNul_base32Text⟩

/-- Its piece is read behind its terminator. -/
theorem base32Urn_readsPast :
    base32Urn.bytes.length ≤ 255 ∧ ¬ HashHandled base32Urn := by
  have split : base32Urn.bytes =
      text "urn" ++ ch ':' :: (text "btih" ++ ch ':' ::
        text "ABCDEFGHIJKLMNOPQRSTUVWXYZ234567") := by
    decide
  have size : base32Urn.bytes.length ≤ 255 := by
    decide
  have extracted := extractInfoHash_piece size split (by decide)
    (by decide)
  have past : scanInfoHash stillSurroundings
      ((text "ABCDEFGHIJKLMNOPQRSTUVWXYZ234567").takeWhile
        (· != ch ':') ++ [0]) = .error .readPast := by
    decide +kernel
  refine ⟨size, fun handled => ?_⟩
  rcases handled.announceReads with ⟨infoHash, read, scans⟩
  cases extracted.symm.trans read
  rcases scans stillSurroundings with ⟨bytes, scanned⟩
  cases past.symm.trans scanned

end UvgTorrent
