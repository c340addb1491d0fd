import UvgTorrent.Library.DottedQuad
import UvgTorrent.Tracker.Packets

/-!
# The records of an announce response

What an announce response tells: an address and a port in every six bytes
behind its header, up to the first address 0.0.0.0.  The loop of the decoder
is compared with it.
-/

namespace UvgTorrent

open CProgram CText CArray MachineInt

/-! ## What a response tells -/

structure PeerRecord where
  address : Nat
  port : Nat
  deriving DecidableEq, Repr

/-- The complete records. -/
def peerRecords : List UInt8 → List PeerRecord
  | a :: b :: c :: d :: high :: low :: rest =>
      ⟨bigEndian [a, b, c, d], bigEndian [high, low]⟩ :: peerRecords rest
  | _ => []

/-- The records before the first address 0.0.0.0. -/
def recordsTold (body : List UInt8) : List PeerRecord :=
  (peerRecords body).takeWhile (·.address != 0)

/-- The peer of a record. -/
def PeerRecord.peer (record : PeerRecord) : AnnouncedPeer :=
  ⟨dottedQuad record.address, UInt16.ofNat record.port⟩

/-- The records end where the body does, or before. -/
def EndsCleanly (body : List UInt8) : Prop :=
  6 ∣ body.length ∨ ∃ record ∈ peerRecords body, record.address = 0

instance (body : List UInt8) : Decidable (EndsCleanly body) :=
  inferInstanceAs (Decidable (_ ∨ _))

/-! ## The loop of the decoder -/

/-- How many rounds append a peer when `left` bytes have been received of
what lies in memory. -/
def countRecords (left : Nat) : List UInt8 → Exec Nat
  | a :: b :: c :: d :: _ :: _ :: rest =>
      if left = 0 then pure 0
      else if bigEndian [a, b, c, d] = 0 then pure 0
      else do
        let others ← countRecords (left - 6) rest
        pure (others + 1)
  | _ => if left = 0 then pure 0 else .error .readPast

def appendCopies (peers : Linkedlist AnnouncedPeer) (copies : Nat) :
    Linkedlist AnnouncedPeer where
  values := peers.values ++ List.replicate copies appendedPeer
  count := peers.count + copies

section Loop

theorem addressByte_networkField {value : Nat} (bound : value < 2 ^ 32)
    (shift : Nat) (byte : shift = 0 ∨ shift = 8 ∨ shift = 16 ∨ shift = 24) :
    addressByte (UInt32.ofNat value).toInt32 shift =
      value / 2 ^ shift % 256 := by
  -- only the residue of the signed number counts
  have residue : (UInt32.ofNat value).toInt32.toInt % 2 ^ 32 = value := by
    have signed : (UInt32.ofNat value).toInt32.toInt =
        ((UInt32.ofNat value).toNat : Int).bmod (2 ^ 32) :=
      BitVec.toInt_eq_toNat_bmod _
    rw [signed, UInt32.toNat_ofNat_of_lt' bound]
    have congruent := Int.bmod_emod (x := (value : Int)) (m := 2 ^ 32)
    omega
  rw [addressByte, Int.shiftRight_eq_div_pow]
  generalize (UInt32.ofNat value).toInt32.toInt = signed at residue ⊢
  rcases byte with rfl | rfl | rfl | rfl
  · omega
  · omega
  · omega
  · omega

theorem addressText_networkField {value : Nat} (bound : value < 2 ^ 32) :
    addressText (UInt32.ofNat value).toInt32 = dottedQuad value := by
  rw [addressText, addressByte_networkField bound 24 (by decide),
    addressByte_networkField bound 16 (by decide),
    addressByte_networkField bound 8 (by decide),
    addressByte_networkField bound 0 (by decide), dottedQuad]
  have dot : text "." = [ch '.'] := rfl
  simp only [dot, List.append_assoc, List.cons_append, List.nil_append,
    Nat.pow_zero, Nat.div_one]

theorem addressText_sentinel {value : Nat} (bound : value < 2 ^ 32) :
    addressText (UInt32.ofNat value).toInt32 = text "0.0.0.0" ↔
      value = 0 := by
  have sentinel : text "0.0.0.0" = dottedQuad 0 := by
    decide
  rw [addressText_networkField bound, sentinel]
  constructor
  · exact dottedQuad_inj bound (by decide)
  · rintro rfl
    rfl

theorem countRecords_zero (memory : List UInt8) :
    countRecords 0 memory = .ok 0 := by
  unfold countRecords
  split
  · rfl
  · rfl

theorem countRecords_short {left : Nat} {memory : List UInt8}
    (more : 0 < left) (short : memory.length < 6) :
    countRecords left memory = .error .readPast := by
  unfold countRecords
  split
  · simp only [List.length_cons] at short
    omega
  · exact if_neg (by omega)

theorem address_lt (a b c d : UInt8) : bigEndian [a, b, c, d] < 2 ^ 32 :=
  Nat.lt_of_lt_of_eq (bigEndian_lt [a, b, c, d]) (by norm_num)

theorem record_split {memory : List UInt8} (long : 6 ≤ memory.length) :
    ∃ a b c d high low,
      memory = a :: b :: c :: d :: high :: low :: memory.drop 6 := by
  rcases memory with
    _ | ⟨a, _ | ⟨b, _ | ⟨c, _ | ⟨d, _ | ⟨high, _ | ⟨low, rest⟩⟩⟩⟩⟩⟩
  all_goals simp only [List.length_cons, List.length_nil] at long
  all_goals first
    | omega
    | exact ⟨a, b, c, d, high, low, rfl⟩

theorem appendCopies_zero (peers : Linkedlist AnnouncedPeer) :
    appendCopies peers 0 = peers := by
  simp [appendCopies]

theorem appendCopies_succ (peers : Linkedlist AnnouncedPeer)
    (copies : Nat) :
    appendCopies (linkedlistAppend peers appendedPeer).2 copies =
      appendCopies peers (copies + 1) := by
  simp only [appendCopies, linkedlistAppend, List.append_assoc,
    List.replicate_succ, List.singleton_append, Linkedlist.mk.injEq,
    true_and]
  omega

/-- The loop appends as many copies of one peer as there are rounds. -/
theorem announcedPeersLoop_eq {order : ByteOrder}
    {rawResponse : List UInt8} {resSize rounds peerPosition : Nat}
    (enough : resSize - (20 + peerPosition) < rounds)
    (peers : Linkedlist AnnouncedPeer) :
    announcedPeersLoop order rawResponse resSize rounds peerPosition peers =
      (countRecords (resSize - (20 + peerPosition))
        (rawResponse.drop (20 + peerPosition))).map (appendCopies peers) := by
  induction rounds generalizing peerPosition peers with
  | zero =>
      exact absurd enough (Nat.not_lt_zero _)
  | succ rounds inductionHypothesis =>
      rw [announcedPeersLoop]
      by_cases more : 20 + peerPosition < resSize
      · rw [if_pos more]
        by_cases long : 20 + peerPosition + 6 ≤ rawResponse.length
        · have split := @record_split (rawResponse.drop (20 + peerPosition))
            (by rw [List.length_drop]; omega)
          rcases split with ⟨a, b, c, d, high, low, memory⟩
          rw [List.drop_drop] at memory
          have read : networkField rawResponse (20 + peerPosition) =
              (UInt32.ofNat (bigEndian [a, b, c, d])).toInt32 := by
            rw [networkField, memory]
            rfl
          have sentinel : addressText
              (networkField rawResponse (20 + peerPosition)) =
                text "0.0.0.0" ↔ bigEndian [a, b, c, d] = 0 := by
            rw [read]
            exact addressText_sentinel (address_lt a b c d)
          have further := @inductionHypothesis (peerPosition + 6) (by omega)
            (linkedlistAppend peers appendedPeer).2
          have left : ¬ resSize - (20 + peerPosition) = 0 := by
            omega
          have next : resSize - (20 + peerPosition) - 6 =
              resSize - (20 + (peerPosition + 6)) := by
            omega
          rw [networkInt32_of_le (by omega), ok_bind,
            slice_of_le (by omega), ok_bind, memory, countRecords,
            if_neg left, next]
          by_cases isSentinel : bigEndian [a, b, c, d] = 0
          · rw [if_pos (sentinel.mpr isSentinel), if_pos isSentinel]
            exact congrArg Except.ok (appendCopies_zero peers).symm
          · rw [if_neg fun same => isSentinel (sentinel.mp same),
              if_neg isSentinel]
            simp only [further, Nat.add_assoc]
            cases countRecords (resSize - (20 + (peerPosition + 6)))
                (rawResponse.drop (20 + (peerPosition + 6))) with
            | ok copies =>
                exact congrArg Except.ok (appendCopies_succ peers copies)
            | error stop =>
                rfl
        · rw [countRecords_short (by omega)
            (by rw [List.length_drop]; omega)]
          by_cases address : 20 + peerPosition + 4 ≤ rawResponse.length
          · rw [networkInt32_of_le address, ok_bind,
              slice_of_lt (by omega)]
            rfl
          · rw [networkInt32_of_lt (by omega)]
            rfl
      · have none : resSize - (20 + peerPosition) = 0 := by
          omega
        rw [if_neg more, none, countRecords_zero]
        exact congrArg Except.ok (appendCopies_zero peers).symm

/-- In an array of whole records the loop stays inside. -/
theorem countRecords_answers {left : Nat} {memory : List UInt8}
    (inside : left ≤ memory.length) (whole : 6 ∣ memory.length) :
    ∃ copies, countRecords left memory = .ok copies := by
  induction memory using peerRecords.induct generalizing left with
  | case1 a b c d high low rest inductionHypothesis =>
      simp only [List.length_cons] at inside whole
      rcases @inductionHypothesis (left - 6) (by omega) (by omega) with
        ⟨others, counted⟩
      rw [countRecords]
      by_cases none : left = 0
      · exact ⟨0, if_pos none⟩
      · by_cases sentinel : bigEndian [a, b, c, d] = 0
        · exact ⟨0, by rw [if_neg none, if_pos sentinel]; rfl⟩
        · refine ⟨others + 1, ?_⟩
          rw [if_neg none, if_neg sentinel, counted]
          rfl
  | case2 memory short =>
      have none : left = 0 := by
        by_contra some
        rcases record_split (by omega : 6 ≤ memory.length) with
          ⟨a, b, c, d, high, low, split⟩
        exact short a b c d high low _ split
      rw [none]
      exact ⟨0, countRecords_zero memory⟩

end Loop

/-! ## The loop on a received body -/

section Body

variable {body : List UInt8}

theorem endsCleanly_cons {a b c d high low : UInt8} {rest : List UInt8}
    (address : bigEndian [a, b, c, d] ≠ 0) :
    EndsCleanly (a :: b :: c :: d :: high :: low :: rest) ↔
      EndsCleanly rest := by
  have multiple : 6 ∣ rest.length + 1 + 1 + 1 + 1 + 1 + 1 ↔
      6 ∣ rest.length := by
    omega
  simp only [EndsCleanly, peerRecords, List.length_cons, multiple,
    List.mem_cons, exists_eq_or_imp, address, false_or]

theorem recordsTold_cons_zero {a b c d high low : UInt8}
    {rest : List UInt8} (address : bigEndian [a, b, c, d] = 0) :
    recordsTold (a :: b :: c :: d :: high :: low :: rest) = [] := by
  rw [recordsTold, peerRecords, List.takeWhile_cons_of_neg]
  simpa using address

theorem recordsTold_cons {a b c d high low : UInt8} {rest : List UInt8}
    (address : bigEndian [a, b, c, d] ≠ 0) :
    recordsTold (a :: b :: c :: d :: high :: low :: rest) =
      ⟨bigEndian [a, b, c, d], bigEndian [high, low]⟩ ::
        recordsTold rest := by
  rw [recordsTold, peerRecords, List.takeWhile_cons_of_pos]
  · rfl
  · simpa using address

theorem countRecords_cons_zero {left : Nat} {a b c d high low : UInt8}
    {rest : List UInt8} (address : bigEndian [a, b, c, d] = 0) :
    countRecords left (a :: b :: c :: d :: high :: low :: rest) =
      .ok 0 := by
  rw [countRecords, if_pos address]
  exact ite_self _

theorem countRecords_cons {left : Nat} {a b c d high low : UInt8}
    {rest : List UInt8} (address : bigEndian [a, b, c, d] ≠ 0) :
    countRecords (left + 6) (a :: b :: c :: d :: high :: low :: rest) =
      (countRecords left rest).map (· + 1) := by
  have more : ¬ left + 6 = 0 := by
    omega
  rw [countRecords, if_neg more, if_neg address, Nat.add_sub_cancel]
  cases countRecords left rest with
  | ok others => rfl
  | error stop => rfl

theorem body_length_cons {a b c d high low : UInt8} (rest : List UInt8) :
    (a :: b :: c :: d :: high :: low :: rest).length = rest.length + 6 :=
  rfl

/-- A body without a whole record holds less than six bytes. -/
theorem short_body
    (short : ∀ a b c d high low rest,
      body = a :: b :: c :: d :: high :: low :: rest → False) :
    body.length < 6 := by
  by_contra long
  rcases record_split (Nat.not_lt.mp long) with
    ⟨a, b, c, d, high, low, split⟩
  exact short a b c d high low _ split

theorem peerRecords_short (short : body.length < 6) :
    peerRecords body = [] := by
  unfold peerRecords
  split
  · simp only [List.length_cons] at short
    omega
  · rfl

theorem endsCleanly_short (short : body.length < 6) :
    EndsCleanly body ↔ body = [] := by
  rw [EndsCleanly, peerRecords_short short, ← List.length_eq_zero_iff]
  constructor
  · rintro (multiple | ⟨record, member, zero⟩)
    · omega
    · cases member
  · intro empty
    exact .inl (by omega)

/-- On a body that ends cleanly the bytes behind it do not count. -/
theorem countRecords_clean (clean : EndsCleanly body)
    (stale : List UInt8) :
    countRecords body.length (body ++ stale) =
      .ok (recordsTold body).length := by
  induction body using peerRecords.induct with
  | case1 a b c d high low rest inductionHypothesis =>
      rw [body_length_cons]
      simp only [List.cons_append]
      by_cases address : bigEndian [a, b, c, d] = 0
      · rw [recordsTold_cons_zero address]
        exact countRecords_cons_zero address
      · have further :=
          inductionHypothesis ((endsCleanly_cons address).mp clean)
        rw [recordsTold_cons address, List.length_cons,
          countRecords_cons address, further]
        rfl
  | case2 body short =>
      have empty := (endsCleanly_short (short_body short)).mp clean
      subst empty
      exact countRecords_zero stale

/-- On any other body the loop reads past it. -/
theorem countRecords_unclean (unclean : ¬ EndsCleanly body) :
    countRecords body.length body = .error .readPast := by
  induction body using peerRecords.induct with
  | case1 a b c d high low rest inductionHypothesis =>
      by_cases address : bigEndian [a, b, c, d] = 0
      · exact absurd (.inr ⟨_, List.mem_cons_self, address⟩) unclean
      · have further := inductionHypothesis fun clean =>
          unclean ((endsCleanly_cons address).mpr clean)
        rw [body_length_cons, countRecords_cons address, further]
        rfl
  | case2 body short =>
      have few := short_body short
      have some : 0 < body.length := by
        rw [List.length_pos_iff]
        exact fun empty => unclean ((endsCleanly_short few).mpr empty)
      exact countRecords_short some few

/-- The bytes behind the last complete record. -/
def partialRecord (body : List UInt8) : List UInt8 :=
  body.drop (body.length / 6 * 6)

theorem partialRecord_cons (a b c d high low : UInt8)
    (rest : List UInt8) :
    partialRecord (a :: b :: c :: d :: high :: low :: rest) =
      partialRecord rest := by
  have lengths : (rest.length + 6) / 6 * 6 = rest.length / 6 * 6 + 6 := by
    omega
  rw [partialRecord, body_length_cons, lengths]
  rfl

theorem partialRecord_short (short : body.length < 6) :
    partialRecord body = body := by
  rw [partialRecord, Nat.div_eq_of_lt short]
  rfl

/-- On a body that does not end cleanly the bytes behind it fill up the
partial record, whose address decides. -/
theorem countRecords_filled (unclean : ¬ EndsCleanly body)
    {stale : List UInt8} (whole : 6 ∣ (body ++ stale).length) :
    countRecords body.length (body ++ stale) =
      .ok ((recordsTold body).length +
        if bigEndian ((partialRecord body ++ stale).take 4) = 0 then 0
        else 1) := by
  induction body using peerRecords.induct with
  | case1 a b c d high low rest inductionHypothesis =>
      by_cases address : bigEndian [a, b, c, d] = 0
      · exact absurd (.inr ⟨_, List.mem_cons_self, address⟩) unclean
      · have fewer : 6 ∣ (rest ++ stale).length := by
          rw [List.length_append] at whole ⊢
          rw [body_length_cons] at whole
          omega
        have further := inductionHypothesis
          (fun clean => unclean ((endsCleanly_cons address).mpr clean))
          fewer
        rw [body_length_cons, partialRecord_cons, recordsTold_cons address,
          List.length_cons]
        simp only [List.cons_append]
        rw [countRecords_cons address, further]
        simp only [Except.map, Nat.add_right_comm]
  | case2 body short =>
      have few := short_body short
      have some : 0 < body.length := by
        rw [List.length_pos_iff]
        exact fun empty => unclean ((endsCleanly_short few).mpr empty)
      have long : 6 ≤ (body ++ stale).length := by
        rw [List.length_append] at whole ⊢
        omega
      have none : body.length - 6 = 0 := by
        omega
      rw [partialRecord_short few, recordsTold, peerRecords_short few]
      rcases record_split long with ⟨a, b, c, d, high, low, memory⟩
      generalize (body ++ stale).drop 6 = rest at memory
      have address : (a :: b :: c :: d :: high :: low :: rest).take 4 =
          [a, b, c, d] :=
        rfl
      rw [memory, address, countRecords, if_neg (by omega), none,
        countRecords_zero]
      by_cases zero : bigEndian [a, b, c, d] = 0
      · rw [if_pos zero, if_pos zero]
        rfl
      · rw [if_neg zero, if_neg zero]
        rfl

/-- The received bytes decide how many peers are appended. -/
def PeersSettled (body : List UInt8) : Prop :=
  EndsCleanly body ∨ 4 ≤ (partialRecord body).length ∨
    ∃ byte ∈ partialRecord body, byte ≠ 0

theorem bigEndian_ne_zero {bytes : List UInt8} {byte : UInt8}
    (member : byte ∈ bytes) (nonzero : byte ≠ 0) : bigEndian bytes ≠ 0 := by
  induction bytes using List.reverseRecOn with
  | nil =>
      cases member
  | append_singleton front last inductionHypothesis =>
      rw [bigEndian_snoc]
      rcases List.mem_append.mp member with early | late
      · have positive := inductionHypothesis early
        omega
      · have isLast := List.mem_singleton.mp late
        have positive : last.toNat ≠ 0 := by
          rw [← isLast]
          exact fun zero => nonzero (UInt8.toNat_inj.mp zero)
        omega

theorem bigEndian_zeros {bytes : List UInt8}
    (zeros : ∀ byte ∈ bytes, byte = 0) : bigEndian bytes = 0 := by
  induction bytes using List.reverseRecOn with
  | nil =>
      rfl
  | append_singleton front last inductionHypothesis =>
      have frontZero := inductionHypothesis fun byte member =>
        zeros byte (List.mem_append_left [last] member)
      have lastZero := zeros last
        (List.mem_append_right front List.mem_cons_self)
      rw [bigEndian_snoc, frontZero, lastZero]
      rfl

theorem countRecords_settled (settled : PeersSettled body) :
    ∃ copies, ∀ stale, 6 ∣ (body ++ stale).length →
      countRecords body.length (body ++ stale) = .ok copies := by
  by_cases clean : EndsCleanly body
  · exact ⟨_, fun stale _ => countRecords_clean clean stale⟩
  · by_cases address : 4 ≤ (partialRecord body).length
    · refine ⟨(recordsTold body).length +
        if bigEndian ((partialRecord body).take 4) = 0 then 0 else 1,
        fun stale whole => ?_⟩
      rw [countRecords_filled clean whole,
        List.take_append_of_le_length address]
    · rcases settled with ends | complete | ⟨byte, member, nonzero⟩
      · exact absurd ends clean
      · exact absurd complete address
      · refine ⟨(recordsTold body).length + 1, fun stale whole => ?_⟩
        have among : byte ∈ (partialRecord body ++ stale).take 4 := by
          rw [List.take_append, List.take_of_length_le (by omega)]
          exact List.mem_append_left _ member
        rw [countRecords_filled clean whole,
          if_neg (bigEndian_ne_zero among nonzero)]

/-- An open record counts as the end behind zeros, and as a peer behind
anything else. -/
theorem countRecords_unsettled (unsettled : ¬ PeersSettled body)
    {count : Nat} (whole : 6 ∣ body.length + count) {filler : UInt8}
    (nonzero : filler ≠ 0) :
    countRecords body.length (body ++ List.replicate count 0) ≠
      countRecords body.length (body ++ List.replicate count filler) := by
  rw [PeersSettled, not_or, not_or] at unsettled
  rcases unsettled with ⟨unclean, short, noByte⟩
  have zeros : ∀ byte ∈ partialRecord body, byte = 0 := by
    intro byte member
    by_contra different
    exact noByte ⟨byte, member, different⟩
  have few : (partialRecord body).length = body.length % 6 := by
    rw [partialRecord, List.length_drop]
    omega
  have room : 4 - (partialRecord body).length ≤ count := by
    have partly : ¬ 6 ∣ body.length := fun multiple =>
      unclean (.inl multiple)
    omega
  have firstZero : bigEndian
      ((partialRecord body ++ List.replicate count 0).take 4) = 0 := by
    apply bigEndian_zeros
    intro byte member
    rcases List.mem_append.mp (List.mem_of_mem_take member) with
      early | late
    · exact zeros byte early
    · exact List.eq_of_mem_replicate late
  have secondNonzero : bigEndian
      ((partialRecord body ++ List.replicate count filler).take 4) ≠ 0 := by
    apply bigEndian_ne_zero _ nonzero
    rw [List.take_append, List.take_replicate]
    apply List.mem_append_right
    rw [List.mem_replicate]
    exact ⟨by omega, rfl⟩
  rw [countRecords_filled unclean (by simpa using whole),
    countRecords_filled unclean (by simpa using whole), if_pos firstZero,
    if_neg secondNonzero]
  intro same
  have counts := Except.ok.inj same
  omega

end Body

/-! ## The decoder -/

def announceFields (order : ByteOrder) (rawResponse : List UInt8)
    (copies : Nat) : TrackerAnnounceResponse where
  action := networkField rawResponse 0
  transactionId := rawField order rawResponse 4
  interval := networkField rawResponse 8
  leechers := networkField rawResponse 12
  seeders := networkField rawResponse 16
  peers := appendCopies linkedlistNew copies

section Decoder

variable {order : ByteOrder} {datagram : List UInt8}

theorem announceFields_append (header : 20 ≤ datagram.length)
    (rest : List UInt8) (copies : Nat) :
    announceFields order (datagram ++ rest) copies =
      announceFields order datagram copies := by
  simp only [announceFields]
  rw [networkField_append (by omega), rawField_append (by omega),
    networkField_append (by omega), networkField_append (by omega),
    networkField_append (by omega)]

theorem trackerAnnounceResponseInit_of_le {rawResponse : List UInt8}
    {resSize : Nat} (header : 20 ≤ rawResponse.length)
    (size : resSize < 2 ^ 64) :
    trackerAnnounceResponseInit order rawResponse resSize =
      (countRecords (resSize - 20) (rawResponse.drop 20)).map
        (announceFields order rawResponse) := by
  rw [trackerAnnounceResponseInit, networkInt32_of_le (by omega), ok_bind,
    rawInt32_of_le (by omega), ok_bind, networkInt32_of_le (by omega),
    ok_bind, networkInt32_of_le (by omega), ok_bind,
    networkInt32_of_le (by omega), ok_bind, toSize_natCast size,
    announcedPeersLoop_eq (by omega), Nat.add_zero]
  cases countRecords (resSize - 20) (rawResponse.drop 20) with
  | ok copies => rfl
  | error stop => rfl

/-- A datagram that ends cleanly, whatever the rest of the array holds. -/
theorem trackerAnnounceResponseInit_clean (header : 20 ≤ datagram.length)
    (size : datagram.length < 2 ^ 64)
    (clean : EndsCleanly (datagram.drop 20)) (stale : List UInt8) :
    trackerAnnounceResponseInit order (datagram ++ stale)
        datagram.length =
      .ok (announceFields order datagram
        (recordsTold (datagram.drop 20)).length) := by
  have counted := countRecords_clean clean stale
  rw [List.length_drop] at counted
  rw [trackerAnnounceResponseInit_of_le
      (by rw [List.length_append]; omega) size,
    List.drop_append_of_le_length header, counted]
  exact congrArg Except.ok (announceFields_append header stale _)

theorem trackerAnnounceResponseInit_unclean
    (header : 20 ≤ datagram.length) (size : datagram.length < 2 ^ 64)
    (unclean : ¬ EndsCleanly (datagram.drop 20)) :
    trackerAnnounceResponseInit order datagram datagram.length =
      .error .readPast := by
  have counted := countRecords_unclean unclean
  rw [List.length_drop] at counted
  rw [trackerAnnounceResponseInit_of_le header size, counted]
  rfl

end Decoder

/-! ## When the decoder answers with what it is told -/

/-- The peers that a datagram tells. -/
def peersTold (datagram : List UInt8) : List AnnouncedPeer :=
  (recordsTold (datagram.drop 20)).map PeerRecord.peer

/-- The decoder answers with the peers that the datagram tells, and it needs
no byte of the array behind the datagram for it. -/
structure DecodesPeers (order : ByteOrder) (datagram : List UInt8) :
    Prop where
  told : ∀ stale, (datagram ++ stale).length = 2048 →
    ∃ response, trackerAnnounceResponseInit order (datagram ++ stale)
        datagram.length = .ok response ∧
      response.peers.values = peersTold datagram ∧
      response.peers.count = (peersTold datagram).length
  within : ∃ response, trackerAnnounceResponseInit order datagram
    datagram.length = .ok response

/-- The record of the peer that the loop appends. -/
def appendedRecord : PeerRecord :=
  ⟨0x7F000001, 51413⟩

section Told

variable {order : ByteOrder} {datagram : List UInt8}

theorem peerRecords_bounds {body : List UInt8} {record : PeerRecord}
    (member : record ∈ peerRecords body) :
    record.address < 2 ^ 32 ∧ record.port < 2 ^ 16 := by
  induction body using peerRecords.induct with
  | case1 a b c d high low rest inductionHypothesis =>
      rw [peerRecords] at member
      rcases List.mem_cons.mp member with rfl | later
      · have port := bigEndian_lt [high, low]
        exact ⟨address_lt a b c d, by norm_num at port ⊢; exact port⟩
      · exact inductionHypothesis later
  | case2 body short =>
      rw [peerRecords_short (short_body short)] at member
      cases member

theorem peer_eq_appended_iff {record : PeerRecord}
    (address : record.address < 2 ^ 32) (port : record.port < 2 ^ 16) :
    record.peer = appendedPeer ↔ record = appendedRecord := by
  have place : text "127.0.0.1" = dottedQuad 0x7F000001 := by
    decide
  constructor
  · intro same
    have sameText := congrArg AnnouncedPeer.ip same
    have samePort := congrArg (UInt16.toNat ∘ AnnouncedPeer.port) same
    have addresses := dottedQuad_inj address (by decide)
      (sameText.trans place)
    have ports : record.port = 51413 := by
      have reduced : (UInt16.ofNat record.port).toNat = record.port :=
        UInt16.toNat_ofNat_of_lt' port
      exact reduced.symm.trans samePort
    cases record
    simp_all [appendedRecord]
  · rintro rfl
    rw [PeerRecord.peer, appendedPeer, place]
    rfl

/-- Only copies of one peer are told. -/
theorem peersTold_eq_copies_iff {body : List UInt8} :
    List.replicate (recordsTold body).length appendedPeer =
        (recordsTold body).map PeerRecord.peer ↔
      ∀ record ∈ recordsTold body, record = appendedRecord := by
  rw [eq_comm, List.eq_replicate_iff, List.length_map]
  constructor
  · rintro ⟨_, copies⟩ record member
    have among := List.takeWhile_sublist _ |>.subset member
    have bounds := peerRecords_bounds among
    exact (peer_eq_appended_iff bounds.1 bounds.2).mp
      (copies _ (List.mem_map_of_mem member))
  · intro only
    refine ⟨rfl, fun peer member => ?_⟩
    rcases List.mem_map.mp member with ⟨record, among, rfl⟩
    rw [only record among]
    exact (peer_eq_appended_iff (by decide) (by decide)).mpr rfl

theorem DecodesPeers.clean (decodes : DecodesPeers order datagram)
    (header : 20 ≤ datagram.length) (fits : datagram.length ≤ 2048) :
    EndsCleanly (datagram.drop 20) := by
  by_contra unclean
  rcases decodes.within with ⟨response, answered⟩
  rw [trackerAnnounceResponseInit_unclean header (by omega) unclean]
    at answered
  cases answered

theorem DecodesPeers.copies (decodes : DecodesPeers order datagram)
    (header : 20 ≤ datagram.length) (fits : datagram.length ≤ 2048) :
    ∀ record ∈ recordsTold (datagram.drop 20), record = appendedRecord := by
  rcases decodes.told (List.replicate (2048 - datagram.length) 0)
    (by rw [List.length_append, List.length_replicate]; omega) with
    ⟨response, answered, values, _⟩
  rw [trackerAnnounceResponseInit_clean header (by omega)
    (decodes.clean header fits)] at answered
  cases answered
  exact peersTold_eq_copies_iff.mp values

/-- The decoder answers with what it is told exactly when it is told nothing
but copies of the one peer it appends, and no partial record follows. -/
theorem trackerAnnounceResponseInit_decodes_iff
    (header : 20 ≤ datagram.length) (fits : datagram.length ≤ 2048) :
    DecodesPeers order datagram ↔
      (∀ record ∈ recordsTold (datagram.drop 20),
        record = appendedRecord) ∧
      EndsCleanly (datagram.drop 20) := by
  constructor
  · intro decodes
    exact ⟨decodes.copies header fits, decodes.clean header fits⟩
  · rintro ⟨only, clean⟩
    have answered := @trackerAnnounceResponseInit_clean order datagram
      header (by omega) clean
    refine ⟨fun stale _ => ⟨_, answered stale, ?_, ?_⟩, ?_⟩
    · exact peersTold_eq_copies_iff.mpr only
    · simp [announceFields, appendCopies, linkedlistNew, peersTold]
    · have alone := answered []
      rw [List.append_nil] at alone
      exact ⟨_, alone⟩

end Told

/-- A response that tells one peer, 10.0.0.1 with port 6881. -/
def onePeerDatagram : List UInt8 :=
  List.replicate 20 0 ++ [10, 0, 0, 1, 0x1A, 0xE1]

theorem onePeer_not_decoded : ¬ DecodesPeers .little onePeerDatagram := by
  intro decodes
  have only := decodes.copies (by decide) (by decide)
  exact absurd only (by decide)

/-- A response that tells the peer that is appended, and no other. -/
def appendedPeerDatagram : List UInt8 :=
  List.replicate 20 0 ++ [127, 0, 0, 1, 0xC8, 0xD5]

theorem appendedPeer_decoded :
    DecodesPeers .little appendedPeerDatagram :=
  (trackerAnnounceResponseInit_decodes_iff (by decide) (by decide)).mpr
    (by decide)

end UvgTorrent
