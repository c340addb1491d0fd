import UvgTorrent.Library.Bencode
import UvgTorrent.Peer.KeyLookup

/-!
# The search against the dictionary

A canonical dictionary with the two numbers of an extended handshake.  The
search for their keys reads the two entries when it meets no other occurrence
before them, and when the numbers have at most nine digits.
-/

namespace UvgTorrent

open CProgram CText CArray MachineInt BencodeFormat

/-! ## The number of an entry -/

section Number

variable {value : Nat} {rest : List UInt8}

theorem endMark_notMem_decimal (value : Nat) : ch 'e' ∉ decimal value := by
  intro member
  exact absurd (decimal_isDigit member) (by decide)

/-- The text of a number behind its spaces and its sign. -/
theorem digits_unsigned {digits : List UInt8} (nonempty : digits ≠ [])
    (isNumber : ∀ digit ∈ digits, isDigit digit = true)
    (rest : List UInt8) :
    readSign ((digits ++ rest).dropWhile isSpace) = (1, digits ++ rest) := by
  obtain ⟨digit, others, split⟩ := List.exists_cons_of_ne_nil nonempty
  have isOne : isDigit digit = true :=
    isNumber digit (split ▸ List.mem_cons_self)
  rw [split, List.cons_append, List.dropWhile_cons_of_neg
    (by simpa using isSpace_of_isDigit digit isOne), readSign_digit isOne]

theorem decimal_unsigned (value : Nat) (rest : List UInt8) :
    readSign ((decimal value ++ rest).dropWhile isSpace) =
      (1, decimal value ++ rest) :=
  digits_unsigned (decimal_nonempty value) (fun _ => decimal_isDigit) rest

/-- Digits are read up to the first byte that is none. -/
theorem atoi_digits {digits rest : List UInt8} {next : UInt8}
    (nonempty : digits ≠ [])
    (isNumber : ∀ digit ∈ digits, isDigit digit = true)
    (noDigit : isDigit next = false) :
    atoi (digits ++ next :: rest) = .ok (toInt32 (digits.foldl
      (fun total digit => total * 10 + digitValue digit) 0)) := by
  have run : (digits ++ next :: rest).takeWhile isDigit = digits := by
    rw [List.takeWhile_append_of_pos isNumber,
      List.takeWhile_cons_of_neg (by simp [noDigit]), List.append_nil]
  simp only [atoi, digits_unsigned nonempty isNumber, run, one_mul]
  rw [if_pos (by simp)]

theorem atoi_decimal (small : value < 2 ^ 31) :
    atoi (decimal value ++ [0]) = .ok value := by
  rw [atoi_digits (decimal_nonempty value) (fun _ => decimal_isDigit)
    (by decide), decimal_foldl, toInt32_of_range (by omega) (by omega)]

/-- A number that fills its array is read past it. -/
theorem atoi_decimal_open (value : Nat) :
    atoi (decimal value) = .error .readPast := by
  have digits : (decimal value).takeWhile isDigit = decimal value := by
    have whole := @List.takeWhile_append_of_pos _ isDigit (decimal value) []
      fun _ => decimal_isDigit
    simpa using whole
  have unsigned := decimal_unsigned value []
  rw [List.append_nil] at unsigned
  simp only [atoi, unsigned, digits]
  rw [if_neg (lt_irrefl _)]

/-- The ten characters of the array hold a number of nine digits and its
terminator. -/
theorem readNumber_entry_iff (small : value < 2 ^ 31) :
    readNumber (decimal value ++ ch 'e' :: rest) = .ok (value : Int) ↔
      value < 10 ^ 9 := by
  rw [← decimal_length_le_iff (by decide)]
  constructor
  · intro read
    by_contra long
    have ten : (decimal value).length = 10 := by
      have most := (@decimal_length_le_iff value 10 (by decide)).mpr
        (by omega)
      omega
    have front : (decimal value ++ ch 'e' :: rest).take 10 =
        decimal value := by
      rw [← ten, List.take_left]
    have noMark : ch 'e' ∉ (decimal value ++ ch 'e' :: rest).take 10 := by
      rw [front]
      exact endMark_notMem_decimal value
    rw [readNumber, numberText_open noMark (by simp [ten]), front, ok_bind,
      atoi_decimal_open] at read
    cases read
  · intro short
    have mark : ch 'e' ∈ (decimal value ++ ch 'e' :: rest).take 10 := by
      rw [List.take_append, List.mem_append]
      right
      rw [show 10 - (decimal value).length =
        9 - (decimal value).length + 1 by omega, List.take_succ_cons]
      exact List.mem_cons_self
    have before : (decimal value ++ ch 'e' :: rest).takeWhile
        (· != ch 'e') = decimal value := by
      have passes : ∀ byte ∈ decimal value, (byte != ch 'e') = true := by
        intro byte member
        have different : byte ≠ ch 'e' :=
          fun same => endMark_notMem_decimal value (same ▸ member)
        simpa using different
      rw [List.takeWhile_append_of_pos passes,
        List.takeWhile_cons_of_neg (by simp), List.append_nil]
    rw [readNumber, numberText_closed mark, before, ok_bind,
      atoi_decimal small]

end Number

/-! ## The scan -/

/-- An entry of a dictionary in the array: the key, the number and an `e`. -/
def EntryAt (key rawResponse : List UInt8) (own value : Nat) : Prop :=
  ∃ rest, (rawResponse.drop 6).drop own =
    key ++ (decimal value ++ ch 'e' :: rest)

/-- When the scan for a key comes to the number of its entry. -/
inductive ReadsEntry (address : Nat) (key rawResponse : List UInt8)
    (resSize : Int) (own value : Nat) : Prop
  /-- The search ends at the entry, and the array holds the number. -/
  | own (found : FirstAt key (rawResponse.drop 6) own)
      (short : value < 10 ^ 9)
  /-- It ends before, where the same number stands. -/
  | before {position : Nat} (found : FirstAt key (rawResponse.drop 6) position)
      (other : position ≠ own)
      (same : readNumber (rawResponse.drop (6 + position + key.length)) =
        .ok (value : Int))
  /-- A `NUL` stands before the entry, and the same number where `NULL`
  counts as. -/
  | null {start : Nat} (missing : Missing key (rawResponse.drop 6))
      (near : toInt32 (0 - address) < resSize)
      (place : 6 + toInt32 (0 - address) + key.length = start)
      (same : readNumber (rawResponse.drop start) = .ok (value : Int))
  /-- A `NUL` stands before it, `NULL` is far off, and the number is 0. -/
  | fallback (missing : Missing key (rawResponse.drop 6))
      (far : resSize ≤ toInt32 (0 - address)) (zero : value = 0)

section Scan

variable {address : Nat} {key rawResponse : List UInt8} {resSize : Int}
  {own value : Nat}

/-- The scan once its search counts as a success. -/
theorem scanNumber_counts {found : Option Nat} {start : Nat}
    (search : strstr key (rawResponse.drop 6) = .ok found)
    (counts : foundPosition address found < resSize)
    (place : 6 + foundPosition address found + key.length = start) :
    scanNumber address key rawResponse resSize =
      (readNumber (rawResponse.drop start)).map some := by
  rw [scanNumber_found search, if_pos counts, place, copyNumber_eq,
    readNumber]
  cases numberText 10 (rawResponse.drop start) with
  | error stop => rfl
  | ok buffer =>
      rw [ok_bind, ok_bind]
      cases atoi buffer with
      | error stop => rfl
      | ok number => rfl

/-- The search ends at an occurrence. -/
theorem scansTo_found_iff (entry : EntryAt key rawResponse own value)
    (small : value < 2 ^ 31) (inside : (own : Int) < resSize)
    (near : own < 2 ^ 31) {position : Nat}
    (found : FirstAt key (rawResponse.drop 6) position)
    (nonempty : key ≠ []) :
    ScansTo (scanNumber address key rawResponse resSize) value ↔
      position = own ∧ value < 10 ^ 9 ∨
      position ≠ own ∧
        readNumber (rawResponse.drop (6 + position + key.length)) =
          .ok (value : Int) := by
  rcases entry with ⟨rest, split⟩
  have notBehind : ¬ own < position := fun before =>
    found.first own before ⟨_, split.symm⟩
  have distance : toInt32 (position : Int) = position :=
    toInt32_of_range (by omega) (by omega)
  have search := (strstr_eq_some_iff nonempty).mpr found
  rw [@scanNumber_counts address key rawResponse resSize (some position)
    (6 + position + key.length) search
    (by rw [foundPosition, distance]; omega)
    (by rw [foundPosition, distance]; push_cast; rfl), scansTo_map_iff]
  by_cases same : position = own
  · have behind : rawResponse.drop (6 + position + key.length) =
        decimal value ++ ch 'e' :: rest := by
      rw [same, ← List.drop_drop, ← List.drop_drop, split, List.drop_left]
    rw [behind, readNumber_entry_iff small]
    simp [same]
  · simp [same]

/-- The search meets a `NUL` before the key. -/
theorem scansTo_missing_iff (noNul : 0 ∉ key) (nonempty : key ≠ [])
    (missing : Missing key (rawResponse.drop 6)) :
    ScansTo (scanNumber address key rawResponse resSize) value ↔
      (toInt32 (0 - address) < resSize ∧ ∃ start : Nat,
        6 + toInt32 (0 - address) + key.length = start ∧
        readNumber (rawResponse.drop start) = .ok (value : Int)) ∨
      resSize ≤ toInt32 (0 - address) ∧ value = 0 := by
  have search := (strstr_eq_none_iff noNul nonempty).mpr missing
  rcases lt_or_ge (toInt32 (0 - address)) resSize with near | far
  · have notFar : ¬ resSize ≤ toInt32 (0 - address) := not_le.mpr near
    rcases lt_or_ge (6 + toInt32 (0 - address) + key.length) 0 with
      before | behind
    · have stopped : scanNumber address key rawResponse resSize =
          .error .readPast := by
        rw [scanNumber_found search, foundPosition, if_pos near,
          copyNumber_before _ before 9, error_bind]
      rw [stopped]
      constructor
      · intro scans
        rcases scans with ⟨found, answered, _⟩
        cases answered
      · intro reads
        rcases reads with ⟨_, start, place, _⟩ | ⟨far, _⟩
        · omega
        · exact absurd far notFar
    · have place := Int.toNat_of_nonneg behind
      rw [@scanNumber_counts address key rawResponse resSize none _ search
        near place.symm, scansTo_map_iff]
      constructor
      · intro read
        exact .inl ⟨near, _, place.symm, read⟩
      · intro reads
        rcases reads with ⟨_, start, same, read⟩ | ⟨far, _⟩
        · rwa [same, Int.toNat_natCast]
        · exact absurd far notFar
  · have skipped : scanNumber address key rawResponse resSize = .ok none := by
      rw [scanNumber_found search, foundPosition, if_neg (not_lt.mpr far)]
      rfl
    rw [skipped]
    constructor
    · intro scans
      rcases scans with ⟨found, answered, same⟩
      cases answered
      exact .inr ⟨far, Int.ofNat_inj.mp same.symm⟩
    · intro reads
      rcases reads with ⟨near, _⟩ | ⟨_, zero⟩
      · exact absurd far (not_le.mpr near)
      · exact ⟨none, rfl, by rw [zero]; rfl⟩

/-- The scan comes to the number of the entry in these cases and no
others. -/
theorem scansTo_iff (entry : EntryAt key rawResponse own value)
    (small : value < 2 ^ 31) (inside : (own : Int) < resSize)
    (near : own < 2 ^ 31) (noNul : 0 ∉ key) (nonempty : key ≠ []) :
    ScansTo (scanNumber address key rawResponse resSize) value ↔
      ReadsEntry address key rawResponse resSize own value := by
  constructor
  · intro scans
    cases search : strstr key (rawResponse.drop 6) with
    | error stop =>
        rcases scans with ⟨found, answered, _⟩
        rw [scanNumber, search, error_bind] at answered
        cases answered
    | ok found =>
        cases found with
        | some position =>
            have first := (strstr_eq_some_iff nonempty).mp search
            rcases (scansTo_found_iff entry small inside near first
              nonempty).mp scans with ⟨rfl, short⟩ | ⟨other, same⟩
            · exact .own first short
            · exact .before first other same
        | none =>
            have missing := (strstr_eq_none_iff noNul nonempty).mp search
            rcases (scansTo_missing_iff noNul nonempty missing).mp scans with
              ⟨near, start, place, same⟩ | ⟨far, zero⟩
            · exact .null missing near place same
            · exact .fallback missing far zero
  · intro reads
    cases reads with
    | own found short =>
        exact (scansTo_found_iff entry small inside near found nonempty).mpr
          (.inl ⟨rfl, short⟩)
    | before found other same =>
        exact (scansTo_found_iff entry small inside near found nonempty).mpr
          (.inr ⟨other, same⟩)
    | null missing near place same =>
        exact (scansTo_missing_iff noNul nonempty missing).mpr
          (.inl ⟨near, _, place, same⟩)
    | fallback missing far zero =>
        exact (scansTo_missing_iff noNul nonempty missing).mpr
          (.inr ⟨far, zero⟩)

end Scan

/-! ## The dictionary -/

/-- The dictionary of an extended handshake with the two numbers. -/
structure HandshakeDictionary where
  outer : Dictionary
  inner : Dictionary
  metadataSize : Nat
  utMetadata : Nat
  holdsSize :
    (text "metadata_size", encodeInteger metadataSize) ∈ outer.entries
  holdsInner : (text "m", inner.bytes) ∈ outer.entries
  holdsExtension :
    (text "ut_metadata", encodeInteger utMetadata) ∈ inner.entries
  sizeSmall : metadataSize < 2 ^ 31
  extensionSmall : utMetadata < 2 ^ 31

namespace HandshakeDictionary

variable (dictionary : HandshakeDictionary)

def bytes : List UInt8 :=
  dictionary.outer.bytes

/-- The number of a key. -/
def number : HandshakeKey → Nat
  | .metadataSize => dictionary.metadataSize
  | .utMetadata => dictionary.utMetadata

/-- Where the text of a key stands, behind the `d` of its dictionary. -/
def own : HandshakeKey → Nat
  | .metadataSize =>
      1 + keyOffset (text "metadata_size") dictionary.outer.entries
  | .utMetadata =>
      1 + keyOffset (text "m") dictionary.outer.entries + 1 +
        (1 + keyOffset (text "ut_metadata") dictionary.inner.entries)

theorem number_small (key : HandshakeKey) :
    dictionary.number key < 2 ^ 31 := by
  cases key with
  | metadataSize => exact dictionary.sizeSmall
  | utMetadata => exact dictionary.extensionSmall

/-- The text of a key and its number in the dictionary. -/
theorem bytes_drop (key : HandshakeKey) :
    ∃ rest, dictionary.bytes.drop (dictionary.own key) =
      key.text ++ (decimal (dictionary.number key) ++ ch 'e' :: rest) := by
  cases key with
  | metadataSize =>
      rcases dictionary.outer.bytes_drop dictionary.holdsSize with
        ⟨rest, split⟩
      refine ⟨rest, split.trans ?_⟩
      simp [encodeInteger, HandshakeKey.text, number, text]
  | utMetadata =>
      rcases dictionary.outer.bytes_drop dictionary.holdsInner with
        ⟨behind, outerSplit⟩
      rcases dictionary.inner.bytes_drop dictionary.holdsExtension with
        ⟨rest, innerSplit⟩
      have marker : (text "m").length = 1 :=
        rfl
      have reached : dictionary.bytes.drop
          (1 + keyOffset (text "m") dictionary.outer.entries + 1) =
            dictionary.inner.bytes ++ behind := by
        rw [bytes, ← List.drop_drop, outerSplit, List.drop_left' marker]
      refine ⟨rest ++ behind.drop (1 + keyOffset (text "ut_metadata")
        dictionary.inner.entries - dictionary.inner.bytes.length), ?_⟩
      rw [own, ← List.drop_drop, reached, List.drop_append, innerSplit]
      simp [encodeInteger, HandshakeKey.text, number, text]

theorem own_lt (key : HandshakeKey) :
    dictionary.own key < dictionary.bytes.length := by
  rcases dictionary.bytes_drop key with ⟨rest, split⟩
  have lengths := congrArg List.length split
  rw [List.length_drop, List.length_append] at lengths
  have positive := List.length_pos_iff.mpr key.plain.2
  omega

end HandshakeDictionary

/-! ## The message -/

/-- A message with such a dictionary in the array, and a `NUL` behind it. -/
structure HandshakeMessage where
  dictionary : HandshakeDictionary
  header : List UInt8
  stale : List UInt8
  resSize : Nat
  headerLength : header.length = 6
  total : (header ++ (dictionary.bytes ++ 0 :: stale)).length =
    replyBufferSize
  received : 6 + dictionary.bytes.length ≤ resSize

namespace HandshakeMessage

variable (message : HandshakeMessage)

def rawResponse : List UInt8 :=
  message.header ++ (message.dictionary.bytes ++ 0 :: message.stale)

/-- The two fields are the numbers of the dictionary. -/
def ReadsNumbers (address : Nat) : Prop :=
  ∃ response,
    peerExtendedHandshakeResponseInit address message.rawResponse
      message.resSize = .ok response ∧
    ∀ key : HandshakeKey,
      key.field response = message.dictionary.number key

/-- The search finds the number of a key. -/
def Finds (address : Nat) (key : HandshakeKey) : Prop :=
  ReadsEntry address key.text message.rawResponse message.resSize
    (message.dictionary.own key) (message.dictionary.number key)

theorem entryAt (key : HandshakeKey) :
    EntryAt key.text message.rawResponse (message.dictionary.own key)
      (message.dictionary.number key) := by
  rcases message.dictionary.bytes_drop key with ⟨rest, split⟩
  refine ⟨rest ++ (0 :: message.stale).drop (message.dictionary.own key -
    message.dictionary.bytes.length), ?_⟩
  rw [rawResponse, List.drop_left' message.headerLength, List.drop_append,
    split]
  simp only [List.append_assoc, List.cons_append]

theorem scansTo_number_iff (address : Nat) (key : HandshakeKey) :
    ScansTo (scanNumber address key.text message.rawResponse
      message.resSize) (message.dictionary.number key) ↔
        message.Finds address key := by
  have size : replyBufferSize = 2048 := rfl
  have own := message.dictionary.own_lt key
  have received := message.received
  have total := message.total
  rw [List.length_append, List.length_append] at total
  exact scansTo_iff (message.entryAt key)
    (message.dictionary.number_small key) (by omega) (by omega)
    key.plain.1 key.plain.2

end HandshakeMessage

/-- The fields are the numbers of the dictionary if and only if each of the
two searches finds its number. -/
theorem handshakeMessage_readsNumbers_iff (address : Nat)
    (message : HandshakeMessage) :
    message.ReadsNumbers address ↔
      ∀ key, message.Finds address key := by
  have scanned := @peerExtendedHandshakeResponseInit_ok_iff address
    message.rawResponse message.resSize
    (fun key => message.dictionary.number key)
  constructor
  · intro reads key
    exact (message.scansTo_number_iff address key).mp (scanned.mp reads key)
  · intro finds
    apply scanned.mpr
    intro key
    exact (message.scansTo_number_iff address key).mpr (finds key)

/-! ## A client name that looks like an entry -/

def decoyInner : List (List UInt8 × List UInt8) :=
  [(text "ut_metadata", encodeInteger (3 : Nat))]

def decoyOuter : List (List UInt8 × List UInt8) :=
  [(text "a", encodeText (text "metadata_sizei7e")),
    (text "m", dictBytes decoyInner),
    (text "metadata_size", encodeInteger (100 : Nat))]

theorem decoyInner_sorted :
    decoyInner.Pairwise (fun first second => first.1 < second.1) := by
  decide

theorem decoyOuter_sorted :
    decoyOuter.Pairwise (fun first second => first.1 < second.1) := by
  decide

theorem decoyInner_values : ∀ entry ∈ decoyInner, WellFormed entry.2 := by
  simpa [decoyInner] using WellFormed.integer 3

theorem decoyOuter_values : ∀ entry ∈ decoyOuter, WellFormed entry.2 := by
  intro entry member
  simp only [decoyOuter, List.mem_cons, List.not_mem_nil, or_false]
    at member
  rcases member with rfl | rfl | rfl
  · exact .text _
  · exact .dict decoyInner_sorted decoyInner_values
  · exact .integer (100 : Nat)

theorem decoy_sizeSmall : 100 < 2 ^ 31 := by
  decide

theorem decoy_extensionSmall : 3 < 2 ^ 31 := by
  decide

def decoyDictionary : HandshakeDictionary where
  outer := ⟨decoyOuter, decoyOuter_sorted, decoyOuter_values⟩
  inner := ⟨decoyInner, decoyInner_sorted, decoyInner_values⟩
  metadataSize := 100
  utMetadata := 3
  holdsSize := .tail _ (.tail _ (.head _))
  holdsInner := .tail _ (.head _)
  holdsExtension := .head _
  sizeSmall := decoy_sizeSmall
  extensionSmall := decoy_extensionSmall

def decoyHeader : List UInt8 :=
  bigEndian32 (2 + decoyDictionary.bytes.length) ++ [20, 0]

def decoyStale : List UInt8 :=
  List.replicate (replyBufferSize - 7 - decoyDictionary.bytes.length) 0

theorem decoyHeader_length : decoyHeader.length = 6 :=
  rfl

theorem decoyMessage_total :
    (decoyHeader ++ (decoyDictionary.bytes ++ 0 :: decoyStale)).length =
      replyBufferSize := by
  decide +kernel

def decoyMessage : HandshakeMessage where
  dictionary := decoyDictionary
  header := decoyHeader
  stale := decoyStale
  resSize := 6 + decoyDictionary.bytes.length
  headerLength := decoyHeader_length
  total := decoyMessage_total
  received := le_rfl

/-- The 7 in the name of the client is taken for the size. -/
theorem decoyMessage_misread :
    ¬ decoyMessage.ReadsNumbers 0x7ffd12345676 := by
  intro reads
  have first : scanNumber 0x7ffd12345676 HandshakeKey.metadataSize.text
      decoyMessage.rawResponse decoyMessage.resSize = .ok (some 7) := by
    decide +kernel
  rcases peerExtendedHandshakeResponseInit_ok_iff.mp reads .metadataSize with
    ⟨found, scanned, same⟩
  cases scanned.symm.trans first
  cases same

end UvgTorrent
