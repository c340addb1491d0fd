import UvgTorrent.Peer.ExtendedHandshake

/-!
# Scanning a reply for a number

Which bytes of the array the scan for a key and its number depends on.
-/

namespace UvgTorrent

open CProgram CText CArray MachineInt

/-! ## `atoi` -/

section Atoi

variable {buffer : List UInt8}

/-- The text behind the spaces and the sign. -/
def unsignedText (buffer : List UInt8) : List UInt8 :=
  (readSign (buffer.dropWhile isSpace)).2

theorem takeWhile_length_lt_iff {α : Type} (test : α → Bool)
    (values : List α) :
    (values.takeWhile test).length < values.length ↔
      ∃ value ∈ values, test value = false := by
  induction values with
  | nil =>
      simp
  | cons value rest inductionHypothesis =>
      cases passes : test value with
      | true =>
          simp [passes, inductionHypothesis]
      | false =>
          simp [passes]

theorem atoi_eq (buffer : List UInt8) :
    atoi buffer =
      if ((unsignedText buffer).takeWhile isDigit).length <
          (unsignedText buffer).length then
        .ok (toInt32 ((readSign (buffer.dropWhile isSpace)).1 *
          ((unsignedText buffer).takeWhile isDigit).foldl
            (fun total digit => total * 10 + digitValue digit) 0))
      else
        .error .readPast :=
  rfl

/-- `atoi` answers when a byte that is not a digit ends the number. -/
theorem atoi_ok_iff :
    (∃ number, atoi buffer = .ok number) ↔
      ∃ byte ∈ unsignedText buffer, isDigit byte = false := by
  rw [← takeWhile_length_lt_iff, atoi_eq]
  constructor
  · rintro ⟨number, answered⟩
    by_contra whole
    rw [if_neg whole] at answered
    cases answered
  · intro ended
    exact ⟨_, if_pos ended⟩

theorem readSign_append {front : List UInt8} (nonempty : front ≠ [])
    (rest : List UInt8) :
    readSign (front ++ rest) =
      ((readSign front).1, (readSign front).2 ++ rest) := by
  cases front with
  | nil => exact absurd rfl nonempty
  | cons byte front =>
      simp only [List.cons_append, readSign]
      split
      · rfl
      · split
        · rfl
        · rfl

/-- The answer of `atoi` does not depend on what follows the number. -/
theorem atoi_append {number : Int} (answered : atoi buffer = .ok number)
    (rest : List UInt8) : atoi (buffer ++ rest) = .ok number := by
  have ended := atoi_ok_iff.mp ⟨number, answered⟩
  have nonempty : buffer.dropWhile isSpace ≠ [] := by
    intro empty
    rcases ended with ⟨byte, member, _⟩
    rw [unsignedText, empty] at member
    cases member
  have behind : (buffer ++ rest).dropWhile isSpace =
      buffer.dropWhile isSpace ++ rest := by
    rw [List.dropWhile_append, if_neg (by simpa using nonempty)]
  have run : ((unsignedText buffer) ++ rest).takeWhile isDigit =
      (unsignedText buffer).takeWhile isDigit := by
    rw [List.takeWhile_append, if_neg]
    have shorter := (takeWhile_length_lt_iff isDigit
      (unsignedText buffer)).mpr ended
    omega
  have shorter := (takeWhile_length_lt_iff isDigit
    (unsignedText buffer)).mpr ended
  have longer : ((unsignedText buffer).takeWhile isDigit).length <
      (unsignedText buffer ++ rest).length := by
    rw [List.length_append]
    omega
  unfold unsignedText at run shorter longer
  simp only [atoi, behind, readSign_append nonempty, run] at answered ⊢
  rw [if_pos shorter] at answered
  rw [if_pos longer, answered]

/-- A terminator ends every number. -/
theorem atoi_terminated (front : List UInt8) :
    ∃ number, atoi (front ++ [0]) = .ok number := by
  apply atoi_ok_iff.mpr
  refine ⟨0, ?_, by decide⟩
  have kept : ∀ {bytes : List UInt8}, 0 ∈ bytes → 0 ∈ (readSign bytes).2 := by
    intro bytes member
    cases bytes with
    | nil => cases member
    | cons byte rest =>
        simp only [readSign]
        split
        · rename_i minus
          rcases List.mem_cons.mp member with zero | later
          · exact absurd (zero.trans minus) (by decide)
          · exact later
        · split
          · rename_i plus
            rcases List.mem_cons.mp member with zero | later
            · exact absurd (zero.trans plus) (by decide)
            · exact later
          · exact member
  apply kept
  rw [List.dropWhile_append]
  split
  · exact List.mem_of_elem_eq_true rfl
  · exact List.mem_append_right _ List.mem_cons_self

theorem isSpace_of_isDigit (byte : UInt8) :
    isDigit byte = true → isSpace byte = false := by
  revert byte
  apply forall_byte
  decide +kernel

/-- A number that reaches the end of its array goes on with digits that are
put behind it. -/
theorem atoi_fill {stop : Stop} {digit : UInt8}
    (stopped : atoi buffer = .error stop) (isOne : isDigit digit = true)
    (count : Nat) :
    ∃ reason, atoi (buffer ++ List.replicate count digit) =
      .error reason := by
  have allDigits : ∀ byte ∈ unsignedText buffer, isDigit byte = true := by
    intro byte member
    by_contra other
    rcases atoi_ok_iff.mpr ⟨byte, member, by simpa using other⟩ with
      ⟨number, answered⟩
    rw [answered] at stopped
    cases stopped
  have further : ∀ byte ∈
      unsignedText (buffer ++ List.replicate count digit),
        isDigit byte = true := by
    intro byte member
    rw [unsignedText, List.dropWhile_append] at member
    split at member
    · cases count with
      | zero => cases member
      | succ count =>
          have notSpace := isSpace_of_isDigit digit isOne
          rw [List.replicate_succ, List.dropWhile_cons_of_neg
            (by simpa using notSpace), readSign_digit isOne,
            ← List.replicate_succ] at member
          rw [List.eq_of_mem_replicate member]
          exact isOne
    · rename_i nonempty
      rw [readSign_append (by simpa using nonempty)] at member
      rcases List.mem_append.mp member with early | late
      · exact allDigits byte early
      · rw [List.eq_of_mem_replicate late]
        exact isOne
  cases outcome : atoi (buffer ++ List.replicate count digit) with
  | error reason => exact ⟨reason, rfl⟩
  | ok number =>
      rcases atoi_ok_iff.mp ⟨number, outcome⟩ with ⟨byte, member, other⟩
      rw [further byte member] at other
      cases other

end Atoi

/-! ## The copy of the characters of a number -/

/-- The copy out of the memory from the first character on. -/
def numberText : Nat → List UInt8 → Exec (List UInt8)
  | 0, _ => .ok []
  | _ + 1, [] => .error .readPast
  | remaining + 1, byte :: rest =>
      if byte = ch 'e' then .ok [0]
      else (numberText remaining rest).map (byte :: ·)

section NumberText

variable {window : List UInt8} {count : Nat}

theorem copyNumber_eq (memory : List UInt8) (position count : Nat) :
    copyNumber memory position count =
      numberText count (memory.drop position) := by
  induction count generalizing position with
  | zero =>
      rfl
  | succ count inductionHypothesis =>
      have next := inductionHypothesis (position + 1)
      rw [Nat.cast_add, Nat.cast_one] at next
      rw [copyNumber, sliceAt, if_pos (Int.natCast_nonneg position),
        Int.toNat_natCast, next]
      by_cases inside : position < memory.length
      · rw [slice_of_le (by omega), ok_bind,
          List.drop_eq_getElem_cons inside]
        simp only [List.take_succ_cons, List.take_zero, numberText]
        by_cases marker : memory[position] = ch 'e'
        · rw [if_neg (not_not.mpr marker), if_pos marker]
          rfl
        · rw [if_pos marker, if_neg marker]
          cases numberText count (memory.drop (position + 1)) with
          | ok rest => rfl
          | error stop => rfl
      · rw [slice_of_lt (by omega), error_bind,
          List.drop_eq_nil_of_le (by omega)]
        rfl

theorem numberText_closed (marker : ch 'e' ∈ window.take count) :
    numberText count window =
      .ok (window.takeWhile (· != ch 'e') ++ [0]) := by
  induction window generalizing count with
  | nil =>
      rw [List.take_nil] at marker
      cases marker
  | cons byte rest inductionHypothesis =>
      cases count with
      | zero => cases marker
      | succ count =>
          rw [numberText]
          by_cases here : byte = ch 'e'
          · rw [if_pos here, here, List.takeWhile_cons_of_neg (by simp)]
            rfl
          · rw [List.take_succ_cons] at marker
            rcases List.mem_cons.mp marker with first | later
            · exact absurd first.symm here
            · rw [if_neg here, inductionHypothesis later,
                List.takeWhile_cons_of_pos (by simpa using here)]
              rfl

theorem numberText_open (noMarker : ch 'e' ∉ window.take count)
    (long : count ≤ window.length) :
    numberText count window = .ok (window.take count) := by
  induction window generalizing count with
  | nil =>
      have none := Nat.le_zero.mp long
      rw [none]
      rfl
  | cons byte rest inductionHypothesis =>
      cases count with
      | zero => rfl
      | succ count =>
          rw [List.take_succ_cons, List.mem_cons, not_or] at noMarker
          rw [numberText, if_neg (Ne.symm noMarker.1),
            inductionHypothesis noMarker.2 (Nat.le_of_succ_le_succ long)]
          rfl

theorem numberText_short (noMarker : ch 'e' ∉ window)
    (short : window.length < count) :
    ∃ stop, numberText count window = .error stop := by
  induction window generalizing count with
  | nil =>
      cases count with
      | zero => cases short
      | succ count => exact ⟨_, rfl⟩
  | cons byte rest inductionHypothesis =>
      cases count with
      | zero => cases short
      | succ count =>
          rw [List.mem_cons, not_or] at noMarker
          rcases inductionHypothesis noMarker.2
            (Nat.lt_of_succ_lt_succ short) with ⟨stop, stopped⟩
          rw [numberText, if_neg (Ne.symm noMarker.1), stopped]
          exact ⟨stop, rfl⟩

end NumberText

/-! ## The number behind a key -/

/-- The copy and `atoi` on it. -/
def readNumber (memory : List UInt8) : Exec Int := do
  let buffer ← numberText 10 memory
  atoi buffer

/-- The received bytes decide the number that is read from a place on. -/
def SettledNumber (datagram : List UInt8) (start : Nat) : Prop :=
  ch 'e' ∈ (datagram.drop start).take 10 ∨
    (start + 10 ≤ replyBufferSize ∧
      ∃ number, atoi ((datagram.drop start).take 10) = .ok number)

section ReadNumber

variable {window : List UInt8}

theorem readNumber_closed (marker : ch 'e' ∈ window.take 10) :
    ∃ number, ∀ rest, readNumber (window ++ rest) = .ok number := by
  rcases atoi_terminated (window.takeWhile (· != ch 'e')) with
    ⟨number, answered⟩
  refine ⟨number, fun rest => ?_⟩
  have longer : ch 'e' ∈ (window ++ rest).take 10 := by
    rw [List.take_append]
    exact List.mem_append_left _ marker
  have before : (window ++ rest).takeWhile (· != ch 'e') =
      window.takeWhile (· != ch 'e') := by
    have ended := (takeWhile_length_lt_iff (· != ch 'e') window).mpr
      ⟨_, List.mem_of_mem_take marker, by simp⟩
    rw [List.takeWhile_append, if_neg (by omega)]
  rw [readNumber, numberText_closed longer, before, ok_bind, answered]

theorem readNumber_answered {number : Int}
    (noMarker : ch 'e' ∉ window.take 10)
    (answered : atoi (window.take 10) = .ok number) {rest : List UInt8}
    (room : 10 ≤ (window ++ rest).length) :
    readNumber (window ++ rest) = .ok number := by
  by_cases marker : ch 'e' ∈ (window ++ rest).take 10
  · have short : window.length < 10 := by
      by_contra long
      rw [List.take_append_of_le_length (Nat.not_lt.mp long)] at marker
      exact noMarker marker
    rw [List.take_of_length_le (by omega)] at noMarker answered
    have passes : ∀ byte ∈ window, (byte != ch 'e') = true := by
      intro byte member
      have different : byte ≠ ch 'e' :=
        fun isMarker => noMarker (isMarker ▸ member)
      simpa using different
    rw [readNumber, numberText_closed marker, ok_bind,
      List.takeWhile_append_of_pos passes, List.append_assoc]
    exact atoi_append answered _
  · rw [readNumber, numberText_open marker room, ok_bind, List.take_append]
    exact atoi_append answered _

/-- Digits behind the window bring an open number past its array. -/
theorem readNumber_open (noMarker : ch 'e' ∉ window.take 10) {count : Nat}
    (unsettled : 10 ≤ window.length + count →
      ∃ stop, atoi (window.take 10) = .error stop) :
    ∃ stop, readNumber (window ++ List.replicate count (ch '5')) =
      .error stop := by
  have noFurther : ∀ many, ch 'e' ∉ List.replicate many (ch '5') := by
    intro many member
    exact absurd (List.eq_of_mem_replicate member) (by decide)
  by_cases room : 10 ≤ window.length + count
  · rcases unsettled room with ⟨stop, stopped⟩
    have front : (window ++ List.replicate count (ch '5')).take 10 =
        window.take 10 ++
          List.replicate (min (10 - window.length) count) (ch '5') := by
      rw [List.take_append, List.take_replicate]
    have still : ch 'e' ∉
        (window ++ List.replicate count (ch '5')).take 10 := by
      rw [front, List.mem_append, not_or]
      exact ⟨noMarker, noFurther _⟩
    rw [readNumber, numberText_open still (by simpa using room), ok_bind,
      front]
    exact atoi_fill stopped (by decide) _
  · have short : window.length < 10 := by
      omega
    rw [List.take_of_length_le (by omega)] at noMarker
    have none : ch 'e' ∉ window ++ List.replicate count (ch '5') := by
      rw [List.mem_append, not_or]
      exact ⟨noMarker, noFurther _⟩
    rcases @numberText_short _ 10 none
      (by rw [List.length_append, List.length_replicate]; omega) with
      ⟨stop, stopped⟩
    exact ⟨stop, by rw [readNumber, stopped, error_bind]⟩

end ReadNumber

/-! ## The scan -/

/-- The distance from the start of the search to its result as an `int`. -/
def foundPosition (address : Nat) : Option Nat → Int
  | some position => toInt32 position
  | none => toInt32 (0 - address)

/-- The received bytes decide what the scan for a key comes to. -/
def KeySettled (address : Nat) (key datagram : List UInt8) : Prop :=
  ∃ found, strstr key (datagram.drop 6) = .ok found ∧
    (foundPosition address found < datagram.length →
      0 ≤ 6 + foundPosition address found + key.length ∧
      SettledNumber datagram
        (6 + foundPosition address found + key.length).toNat)

section Scan

variable {address : Nat} {key datagram : List UInt8}

/-- The scan once the search has answered. -/
theorem scanNumber_found {rawResponse : List UInt8} {found : Option Nat}
    (search : strstr key (rawResponse.drop 6) = .ok found) (resSize : Int) :
    scanNumber address key rawResponse resSize =
      if foundPosition address found < resSize then do
        let buffer ← copyNumber rawResponse
          (6 + foundPosition address found + key.length) 10
        let number ← atoi buffer
        pure (some number)
      else
        pure none := by
  rw [scanNumber, search, ok_bind]
  cases found with
  | some position => rfl
  | none => rfl

theorem drop_joined (datagram stale : List UInt8) (start : Nat) :
    (datagram ++ stale).drop start =
      datagram.drop start ++ stale.drop (start - datagram.length) :=
  List.drop_append

/-- What the scan comes to when the received bytes decide it. -/
theorem scanNumber_settled (noNul : 0 ∉ key)
    (settled : KeySettled address key datagram) :
    ∃ answer, ∀ stale, (datagram ++ stale).length = replyBufferSize →
      scanNumber address key (datagram ++ stale) datagram.length =
        .ok answer := by
  rcases settled with ⟨found, search, number⟩
  have searches : ∀ stale,
      strstr key ((datagram ++ stale).drop 6) = .ok found := by
    intro stale
    rw [drop_joined]
    exact strstr_append noNul search _
  by_cases counts : foundPosition address found < datagram.length
  · rcases number counts with ⟨inside, decided⟩
    have start := Int.toNat_of_nonneg inside
    generalize (6 + foundPosition address found + key.length).toNat = place
      at decided start
    have reads : ∃ value, ∀ stale,
        (datagram ++ stale).length = replyBufferSize →
          readNumber ((datagram ++ stale).drop place) = .ok value := by
      by_cases marker : ch 'e' ∈ (datagram.drop place).take 10
      · rcases readNumber_closed marker with ⟨value, read⟩
        refine ⟨value, fun stale _ => ?_⟩
        rw [drop_joined]
        exact read _
      · rcases decided with closed | ⟨room, value, answered⟩
        · exact absurd closed marker
        · refine ⟨value, fun stale total => ?_⟩
          have long : 10 ≤ (datagram.drop place ++
              stale.drop (place - datagram.length)).length := by
            rw [← drop_joined, List.length_drop]
            omega
          rw [drop_joined]
          exact readNumber_answered marker answered long
    rcases reads with ⟨value, read⟩
    refine ⟨some value, fun stale total => ?_⟩
    have copied := read stale total
    rw [scanNumber_found (searches stale), if_pos counts, ← start,
      copyNumber_eq]
    unfold readNumber at copied
    rw [← bind_assoc, copied, ok_bind]
    rfl
  · exact ⟨none, fun stale _ => by
      rw [scanNumber_found (searches stale), if_neg counts]
      rfl⟩

/-- The rest of the array when all its bytes are the same. -/
def filling (filler : UInt8) (datagram : List UInt8) : List UInt8 :=
  List.replicate (replyBufferSize - datagram.length) filler

theorem filling_total (fits : datagram.length ≤ replyBufferSize)
    (filler : UInt8) :
    (datagram ++ filling filler datagram).length = replyBufferSize := by
  rw [filling, List.length_append, List.length_replicate]
  omega

theorem copyNumber_before (memory : List UInt8) {position : Int}
    (before : position < 0) (count : Nat) :
    copyNumber memory position (count + 1) = .error .readPast := by
  rw [copyNumber, sliceAt, if_neg (by omega), error_bind]

/-- When the received bytes leave it open, digits behind them stop the
scan. -/
theorem scanNumber_unsettled (nonempty : key ≠ []) (noDigit : ch '5' ∉ key)
    (noNul : 0 ∉ key) (fits : datagram.length ≤ replyBufferSize)
    (unsettled : ¬ KeySettled address key datagram) :
    ∃ stop, scanNumber address key (datagram ++ filling (ch '5') datagram)
      datagram.length = .error stop := by
  have behind : ∀ start, (datagram ++ filling (ch '5') datagram).drop start =
      datagram.drop start ++ List.replicate (replyBufferSize -
        datagram.length - (start - datagram.length)) (ch '5') := by
    intro start
    rw [drop_joined, filling, List.drop_replicate]
  cases search : strstr key (datagram.drop 6) with
  | error stop =>
      rcases strstr_fill search nonempty noDigit (by decide)
        (replyBufferSize - datagram.length - (6 - datagram.length)) with
        ⟨reason, stopped⟩
      exact ⟨reason, by rw [scanNumber, behind, stopped, error_bind]⟩
  | ok found =>
      have searched : strstr key
          ((datagram ++ filling (ch '5') datagram).drop 6) = .ok found := by
        rw [behind]
        exact strstr_append noNul search _
      rw [scanNumber_found searched]
      by_cases counts : foundPosition address found < datagram.length
      · rw [if_pos counts]
        by_cases inside : 0 ≤ 6 + foundPosition address found + key.length
        · have start := Int.toNat_of_nonneg inside
          have undecided : ¬ SettledNumber datagram
              (6 + foundPosition address found + key.length).toNat :=
            fun decided =>
              unsettled ⟨found, search, fun _ => ⟨inside, decided⟩⟩
          generalize (6 + foundPosition address found + key.length).toNat =
            place at start undecided
          rw [SettledNumber, not_or] at undecided
          have stops : 10 ≤ (datagram.drop place).length +
              (replyBufferSize - datagram.length -
                (place - datagram.length)) →
                ∃ stop, atoi ((datagram.drop place).take 10) =
                  .error stop := by
            intro room
            rw [List.length_drop] at room
            cases outcome : atoi ((datagram.drop place).take 10) with
            | error stop => exact ⟨stop, rfl⟩
            | ok number =>
                exact absurd ⟨by omega, number, outcome⟩ undecided.2
          rcases readNumber_open undecided.1 stops with ⟨stop, stopped⟩
          rw [← behind] at stopped
          unfold readNumber at stopped
          refine ⟨stop, ?_⟩
          rw [← start, copyNumber_eq, ← bind_assoc, stopped, error_bind]
        · rw [copyNumber_before _ (by omega) 9]
          exact ⟨_, rfl⟩
      · exact absurd ⟨found, search, fun below => absurd below counts⟩
          unsettled

end Scan

/-! ## The extended handshake -/

/-- The keys that the response is searched for. -/
def extendedHandshakeKeys : List (List UInt8) :=
  [text "metadata_sizei", text "ut_metadatai"]

/-- The response that the numbers behind the two keys make. -/
def extendedHandshakeFields (size extension : Option Int) :
    PeerExtendedHandshakeResponse where
  metadataSize := size.getD 0
  pieceSize := 16 * 1024
  numPieces := (size.getD 0).tdiv (16 * 1024)
  utMetadata := extension.getD 0

section ExtendedHandshake

variable {address : Nat} {datagram : List UInt8}

theorem extendedHandshakeKeys_plain {key : List UInt8}
    (member : key ∈ extendedHandshakeKeys) :
    key ≠ [] ∧ ch '5' ∉ key ∧ 0 ∉ key := by
  revert key
  decide

theorem peerExtendedHandshakeResponseInit_settled
    (settled : ∀ key ∈ extendedHandshakeKeys,
      KeySettled address key datagram) :
    ∃ response, ∀ stale,
      (datagram ++ stale).length = replyBufferSize →
        peerExtendedHandshakeResponseInit address (datagram ++ stale)
          datagram.length = .ok response := by
  have plain := fun key => @extendedHandshakeKeys_plain key
  rcases scanNumber_settled (plain _ (by decide)).2.2
    (settled (text "metadata_sizei") (by decide)) with ⟨size, first⟩
  rcases scanNumber_settled (plain _ (by decide)).2.2
    (settled (text "ut_metadatai") (by decide)) with ⟨extension, second⟩
  refine ⟨extendedHandshakeFields size extension, fun stale total => ?_⟩
  rw [peerExtendedHandshakeResponseInit, first stale total, ok_bind,
    second stale total, ok_bind]
  rfl

theorem peerExtendedHandshakeResponseInit_unsettled {key : List UInt8}
    (member : key ∈ extendedHandshakeKeys)
    (fits : datagram.length ≤ replyBufferSize)
    (unsettled : ¬ KeySettled address key datagram) :
    ∃ stop, peerExtendedHandshakeResponseInit address
      (datagram ++ filling (ch '5') datagram) datagram.length =
        .error stop := by
  have plain := extendedHandshakeKeys_plain member
  rcases scanNumber_unsettled plain.1 plain.2.1 plain.2.2 fits
    unsettled with
    ⟨stop, stopped⟩
  rw [extendedHandshakeKeys, List.mem_cons, List.mem_singleton] at member
  rw [peerExtendedHandshakeResponseInit]
  rcases member with rfl | rfl
  · rw [stopped, error_bind]
    exact ⟨stop, rfl⟩
  · cases scanNumber address (text "metadata_sizei")
        (datagram ++ filling (ch '5') datagram) datagram.length with
    | error reason => exact ⟨reason, rfl⟩
    | ok size =>
        rw [ok_bind, stopped, error_bind]
        exact ⟨stop, rfl⟩

end ExtendedHandshake

end UvgTorrent
