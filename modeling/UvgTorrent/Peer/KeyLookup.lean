import UvgTorrent.Library.Search
import UvgTorrent.Peer.NumberScan

/-!
# A key that is not there

The search for a missing key ends in `NULL`.  Whether that counts as found
is decided by the distance from the array to `NULL`, and so by the address of
the array.
-/

namespace UvgTorrent

open CProgram CText CArray MachineInt

/-- The two keys of an extended handshake. -/
inductive HandshakeKey where
  | metadataSize
  | utMetadata
  deriving DecidableEq, Repr

/-- The text that is searched. -/
def HandshakeKey.text : HandshakeKey → List UInt8
  | .metadataSize => CText.text "metadata_sizei"
  | .utMetadata => CText.text "ut_metadatai"

/-- The field that the number is stored in. -/
def HandshakeKey.field (key : HandshakeKey)
    (response : PeerExtendedHandshakeResponse) : Int :=
  match key with
  | .metadataSize => response.metadataSize
  | .utMetadata => response.utMetadata

section Scan

variable {address : Nat} {key rawResponse : List UInt8} {resSize : Int}

/-- A number that was read. -/
theorem scan_read_ne_none (memory : List UInt8) (position : Int) :
    (do
      let buffer ← copyNumber memory position 10
      let number ← atoi buffer
      pure (some number) : Exec (Option Int)) ≠ .ok none := by
  cases copyNumber memory position 10 with
  | error stop =>
      rw [error_bind]
      intro same
      cases same
  | ok buffer =>
      rw [ok_bind]
      cases atoi buffer with
      | error stop =>
          rw [error_bind]
          intro same
          cases same
      | ok number =>
          rw [ok_bind]
          intro same
          cases same

/-- The scan takes its other branch when the search ends behind the received
bytes, or in `NULL` and far from the array. -/
theorem scanNumber_eq_none_iff (noNul : 0 ∉ key) (nonempty : key ≠ []) :
    scanNumber address key rawResponse resSize = .ok none ↔
      (∃ position, FirstAt key (rawResponse.drop 6) position ∧
        resSize ≤ toInt32 position) ∨
      Missing key (rawResponse.drop 6) ∧
        resSize ≤ toInt32 (0 - address) := by
  cases search : strstr key (rawResponse.drop 6) with
  | error stop =>
      rw [scanNumber, search, error_bind]
      constructor
      · intro none
        cases none
      · intro ends
        rcases ends with ⟨position, found, _⟩ | ⟨missing, _⟩
        · cases ((strstr_eq_some_iff nonempty).mpr found).symm.trans search
        · cases ((strstr_eq_none_iff noNul nonempty).mpr
            missing).symm.trans search
  | ok found =>
      rw [scanNumber_found search]
      have taken : (if foundPosition address found < resSize then do
            let buffer ← copyNumber rawResponse
              (6 + foundPosition address found + key.length) 10
            let number ← atoi buffer
            pure (some number)
          else
            pure none : Exec (Option Int)) = .ok none ↔
          resSize ≤ foundPosition address found := by
        rw [← not_lt]
        constructor
        · intro none counts
          rw [if_pos counts] at none
          exact scan_read_ne_none _ _ none
        · intro counts
          rw [if_neg counts]
          rfl
      rw [taken]
      cases found with
      | some position =>
          have here := (strstr_eq_some_iff nonempty).mp search
          constructor
          · intro far
            exact .inl ⟨position, here, far⟩
          · intro ends
            rcases ends with ⟨other, found, far⟩ | ⟨missing, _⟩
            · rw [foundPosition, here.unique found]
              exact far
            · cases ((strstr_eq_none_iff noNul nonempty).mpr
                missing).symm.trans search
      | none =>
          have missing := (strstr_eq_none_iff noNul nonempty).mp search
          constructor
          · intro far
            exact .inr ⟨missing, far⟩
          · intro ends
            rcases ends with ⟨other, found, _⟩ | ⟨_, far⟩
            · cases ((strstr_eq_some_iff nonempty).mpr
                found).symm.trans search
            · exact far

/-- The answer of a scan, when nothing stands for 0. -/
def ScansTo (answer : Exec (Option Int)) (number : Int) : Prop :=
  ∃ found, answer = .ok found ∧ found.getD 0 = number

theorem scansTo_map_iff {answer : Exec Int} {number : Int} :
    ScansTo (answer.map some) number ↔ answer = .ok number := by
  constructor
  · intro scans
    rcases scans with ⟨found, answered, same⟩
    cases answer with
    | error stop => cases answered
    | ok value =>
        cases answered
        rw [← same]
        rfl
  · intro answered
    rw [answered]
    exact ⟨some number, rfl, rfl⟩

/-- A response is made of what the two scans come to. -/
theorem peerExtendedHandshakeResponseInit_ok_iff
    {numbers : HandshakeKey → Int} :
    (∃ response,
      peerExtendedHandshakeResponseInit address rawResponse resSize =
        .ok response ∧
      ∀ key : HandshakeKey, key.field response = numbers key) ↔
    ∀ key : HandshakeKey, ScansTo
      (scanNumber address key.text rawResponse resSize) (numbers key) := by
  constructor
  · intro reads key
    rcases reads with ⟨response, answered, fields⟩
    rw [peerExtendedHandshakeResponseInit] at answered
    rcases (bind_eq_ok_iff ..).mp answered with ⟨size, first, rest⟩
    rcases (bind_eq_ok_iff ..).mp rest with ⟨extension, second, last⟩
    cases last
    cases key with
    | metadataSize => exact ⟨size, first, fields .metadataSize⟩
    | utMetadata => exact ⟨extension, second, fields .utMetadata⟩
  · intro scans
    rcases scans .metadataSize with ⟨size, first, sizeSame⟩
    rcases scans .utMetadata with ⟨extension, second, extensionSame⟩
    refine ⟨extendedHandshakeFields size extension, ?_, fun key => ?_⟩
    · simp only [HandshakeKey.text] at first second
      rw [peerExtendedHandshakeResponseInit, first, ok_bind, second, ok_bind]
      rfl
    · cases key with
      | metadataSize => exact sizeSame
      | utMetadata => exact extensionSame

theorem peerExtendedHandshakeResponseInit_numPieces
    {response : PeerExtendedHandshakeResponse}
    (answered : peerExtendedHandshakeResponseInit address rawResponse
      resSize = .ok response) :
    response.numPieces = response.metadataSize.tdiv (16 * 1024) := by
  rw [peerExtendedHandshakeResponseInit] at answered
  rcases (bind_eq_ok_iff ..).mp answered with ⟨size, _, rest⟩
  rcases (bind_eq_ok_iff ..).mp rest with ⟨extension, _, last⟩
  cases last
  rfl

end Scan

/-! ## The fallback -/

/-- A datagram without the key, and the array that it is received into. -/
structure WithoutKey (key : HandshakeKey) (datagram stale : List UInt8) :
    Prop where
  total : (datagram ++ stale).length = replyBufferSize
  absent : ¬ key.text <:+: datagram

/-- The fallback branch is taken, without a read outside the array, and the
field is 0. -/
structure FallsBack (key : HandshakeKey) (address : Nat)
    (rawResponse : List UInt8) (resSize : Int) : Prop where
  branch : scanNumber address key.text rawResponse resSize = .ok none
  field : ∀ response,
    peerExtendedHandshakeResponseInit address rawResponse resSize =
      .ok response → key.field response = 0

/-- The search passes the datagram by: it ends at an occurrence that lies as
far behind as the datagram is long, or at a `NUL` when the address makes the
distance to `NULL` no smaller than that. -/
def PassedBy (key : HandshakeKey) (address : Nat)
    (datagram stale : List UInt8) : Prop :=
  (∃ position, FirstAt key.text ((datagram ++ stale).drop 6) position ∧
    datagram.length ≤ position) ∨
  Missing key.text ((datagram ++ stale).drop 6) ∧
    (datagram.length : Int) ≤ toInt32 (0 - address)

section Fallback

variable {key : HandshakeKey} {address : Nat} {datagram stale : List UInt8}

theorem HandshakeKey.plain (key : HandshakeKey) :
    0 ∉ key.text ∧ key.text ≠ [] := by
  cases key with
  | metadataSize => decide
  | utMetadata => decide

theorem fallsBack_of_branch {rawResponse : List UInt8} {resSize : Int}
    (branch : scanNumber address key.text rawResponse resSize = .ok none) :
    FallsBack key address rawResponse resSize := by
  refine ⟨branch, fun response answered => ?_⟩
  have scans := peerExtendedHandshakeResponseInit_ok_iff.mp
    ⟨response, answered, fun key => Eq.refl (key.field response)⟩ key
  rcases scans with ⟨found, scanned, same⟩
  cases scanned.symm.trans branch
  exact same.symm

end Fallback

/-- A datagram without a key is dealt with as one if and only if the search
passes it by. -/
theorem fallsBack_iff {key : HandshakeKey} (address : Nat)
    {datagram stale : List UInt8}
    (without : WithoutKey key datagram stale) :
    FallsBack key address (datagram ++ stale) datagram.length ↔
      PassedBy key address datagram stale := by
  have plain := key.plain
  have distance : ∀ position,
      FirstAt key.text ((datagram ++ stale).drop 6) position →
        toInt32 position = position := by
    intro position found
    have size : replyBufferSize = 2048 := rfl
    have inside := found.length_le plain.2
    rw [List.length_drop, without.total] at inside
    exact toInt32_of_range (by omega) (by omega)
  have scanned := @scanNumber_eq_none_iff address key.text
    (datagram ++ stale) datagram.length plain.1 plain.2
  constructor
  · intro falls
    rcases scanned.mp falls.branch with ⟨position, found, far⟩ | missing
    · rw [distance position found] at far
      exact .inl ⟨position, found, Int.ofNat_le.mp far⟩
    · exact .inr missing
  · intro passed
    rcases passed with ⟨position, found, far⟩ | missing
    · apply fallsBack_of_branch
      refine scanned.mpr (.inl ⟨position, found, ?_⟩)
      rw [distance position found]
      exact Int.ofNat_le.mpr far
    · exact fallsBack_of_branch (scanned.mpr (.inr missing))

/-- A datagram with an empty dictionary. -/
def emptyDictionary : List UInt8 :=
  bigEndian32 4 ++ [20, 0] ++ text "de"

theorem emptyDictionary_without (key : HandshakeKey) :
    WithoutKey key emptyDictionary (filling 0 emptyDictionary) where
  total := filling_total (by decide) 0
  absent := by
    cases key with
    | metadataSize => decide
    | utMetadata => decide

/-- The low half of this address is a negative `int`. -/
theorem fallsBack_far :
    FallsBack .metadataSize 0x7ffd92345676
      (emptyDictionary ++ filling 0 emptyDictionary)
      emptyDictionary.length := by
  apply (fallsBack_iff _ (emptyDictionary_without .metadataSize)).mpr
  exact .inr ⟨⟨by decide +kernel, by decide +kernel⟩, by decide⟩

/-- And the one of this address is positive. -/
theorem fallsBack_near :
    WithoutKey .metadataSize emptyDictionary (filling 0 emptyDictionary) ∧
    ¬ FallsBack .metadataSize 0x7ffd12345676
      (emptyDictionary ++ filling 0 emptyDictionary)
      emptyDictionary.length := by
  refine ⟨emptyDictionary_without .metadataSize, fun falls => ?_⟩
  have stopped : scanNumber 0x7ffd12345676 HandshakeKey.metadataSize.text
      (emptyDictionary ++ filling 0 emptyDictionary)
      emptyDictionary.length = .error .readPast := by
    decide +kernel
  cases falls.branch.symm.trans stopped

end UvgTorrent
