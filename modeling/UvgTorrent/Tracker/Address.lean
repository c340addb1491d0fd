import UvgTorrent.Library.DottedQuad
import UvgTorrent.Peer.DictionaryLookup
import UvgTorrent.Utils.Split
import UvgTorrent.Utils.UrlCoding

/-!
# The address of a tracker

`Tracker_init` decodes the text behind `tr=`, splits it at its colons and
keeps the second piece without its slashes and the third one.
-/

namespace UvgTorrent

open CProgram CText CArray MachineInt

/-- What `Tracker_init` sets up of a tracker. -/
structure TrackerEndpoint where
  url : CString
  port : CString
  ip : Buffer

/-- What the machine decides for `Tracker_init`.  `lookup` is the first
address that `gethostbyname` finds. -/
structure AddressWorld where
  addrGranted : Bool
  addr : Surroundings
  portGranted : Bool
  urlGranted : Bool
  ipGranted : Bool
  ip : Surroundings
  lookup : CString → Option UInt32

/-- `hostname_to_ip`. -/
def hostnameToIp (world : AddressWorld) (hostname : CString)
    (output : Buffer) : Exec (ExitCode × Buffer) :=
  match world.lookup hostname with
  | none => pure (.failure, output)
  | some address => do
      let output ← output.copyIn 0 (dottedQuad address.toNat ++ [0])
      pure (.success, output)

/-- `string_urldecode`, which does not test its block before it stores. -/
def decodeAddress (world : AddressWorld) (address : CString) :
    Exec CString :=
  if world.addrGranted then
    readString (stringUrldecode world.addr address).cells
  else
    .error .nullPointer

/-- `Tracker_init`; `none` is `EXIT_FAILURE`. -/
def trackerInit (world : AddressWorld) (address : CString) :
    Exec (Option TrackerEndpoint) := do
  let addr ← decodeAddress world address
  let urlPort ← stringSplit addr (ch ':')
  let url ← linkedlistGet urlPort.list 1
  let port ← linkedlistGet urlPort.list 2
  match port with
  | none => .error .nullPointer
  | some port =>
      if world.portGranted then
        match url with
        | none => .error .nullPointer
        | some url => do
            let url ← readString ((url.bytes ++ [0]).drop 2)
            if world.urlGranted then
              if world.ipGranted then do
                -- the result of the lookup is not looked at
                let (_, ip) ← hostnameToIp world url (world.ip.block 32)
                pure (some ⟨url, port, ip⟩)
              else
                pure none
            else
              pure none
      else
        pure none

/-- Every block is allocated. -/
structure AddressWorld.Granted (world : AddressWorld) : Prop where
  addr : world.addrGranted = true
  port : world.portGranted = true
  url : world.urlGranted = true
  ip : world.ipGranted = true

/-! ## Addresses -/

/-- The digits of a port number, zeros in front included. -/
structure PortDigits (digits : List UInt8) (port : Nat) : Prop where
  nonempty : digits ≠ []
  isNumber : ∀ digit ∈ digits, isDigit digit = true
  value : digits.foldl (fun total digit => total * 10 + digitValue digit)
    (0 : Int) = port
  range : port ≤ 65535

/-- The parts of an address; the path may be missing. -/
structure AddressParts where
  scheme : List UInt8
  host : List UInt8
  digits : List UInt8
  port : Nat
  path : List UInt8
  schemeFree : ch ':' ∉ scheme
  hostFree : ch ':' ∉ host
  isPort : PortDigits digits port
  isPath : path = [] ∨ ∃ rest, path = ch '/' :: rest

/-- `scheme://host:port/path` -/
def AddressParts.text (parts : AddressParts) : List UInt8 :=
  parts.scheme ++ ch ':' :: (CText.text "//" ++ parts.host ++
    ch ':' :: (parts.digits ++ parts.path))

/-- The string that `string_urldecode` makes of a text. -/
def decodedString (address : CString) : CString :=
  CString.ofBytes (urldecodeBytes address.bytes)

section Init

variable {world : AddressWorld} {address : CString}

theorem decodeAddress_answers (granted : world.addrGranted = true) :
    decodeAddress world address = .ok (decodedString address) := by
  rcases stringUrldecode_returns world.addr address with ⟨rest, stored⟩
  have terminated : 0 ∈ urldecodeBytes address.bytes ++ 0 :: rest :=
    List.mem_append_right _ List.mem_cons_self
  have found : readString (Buffer.ofCells
      (urldecodeBytes address.bytes ++ 0 :: rest)).cells =
        .ok (CString.ofBytes (urldecodeBytes address.bytes ++ 0 :: rest)) :=
    if_pos terminated
  rw [decodeAddress, if_pos granted, stored, found,
    CString.ofBytes_append_nul, decodedString]

theorem hostnameToIp_answers (hostname : CString) :
    ∃ code ip, hostnameToIp world hostname (world.ip.block 32) =
      .ok (code, ip) := by
  rw [hostnameToIp]
  cases found : world.lookup hostname with
  | none => exact ⟨.failure, _, rfl⟩
  | some number =>
      have length := dottedQuad_length number.toNat
      have fits : 0 + (dottedQuad number.toNat ++ [0]).length ≤
          (world.ip.block 32).cells.length := by
        rw [Surroundings.block_length, List.length_append,
          List.length_singleton]
        omega
      simp only [Buffer.copyIn_of_le fits]
      exact ⟨.success, _, rfl⟩

/-- The decoded text is no longer than the text. -/
theorem decodedString_length (address : CString) :
    (decodedString address).bytes.length ≤ address.bytes.length :=
  Nat.le_trans (CString.ofBytes_length_le _)
    (urldecodeBytes_length address.bytes)

/-- What is kept of the third piece reads as the port. -/
theorem atoi_port {parts : AddressParts} {port : CString}
    (isPort : port.bytes =
      (parts.digits ++ parts.path).takeWhile (· != ch ':')) :
    atoi (port.bytes ++ [0]) = .ok parts.port := by
  have number := parts.isPort.isNumber
  have range := parts.isPort.range
  have noColon : ∀ digit ∈ parts.digits, (digit != ch ':') = true := by
    intro digit member
    have isOne := number digit member
    have different : digit ≠ ch ':' := by
      rintro rfl
      exact absurd isOne (by decide)
    simpa using different
  have value : toInt32 (parts.digits.foldl
      (fun total digit => total * 10 + digitValue digit) 0) =
        parts.port := by
    rw [parts.isPort.value, toInt32_of_range (by omega) (by omega)]
  rw [isPort, List.takeWhile_append_of_pos noColon, List.append_assoc]
  rcases parts.isPath with noPath | ⟨rest, isPath⟩
  · rw [noPath, List.takeWhile_nil, List.nil_append,
      atoi_digits parts.isPort.nonempty number (by decide), value]
  · have slash : (ch '/' != ch ':') = true := by decide
    rw [isPath, List.takeWhile_cons_of_pos (p := (· != ch ':')) slash,
      List.cons_append,
      atoi_digits parts.isPort.nonempty number (by decide), value]

end Init

/-- Every text that decodes to an address is taken apart into its host and
its port. -/
theorem trackerInit_address {world : AddressWorld}
    (granted : world.Granted) {address : CString}
    (short : address.bytes.length ≤ 255) {parts : AddressParts}
    (decodes : (decodedString address).bytes = parts.text) :
    ∃ this, trackerInit world address = .ok (some this) ∧
      this.url.bytes = parts.host ∧
      atoi (this.port.bytes ++ [0]) = .ok parts.port := by
  have length := decodedString_length address
  have hostPieceFree : ch ':' ∉ text "//" ++ parts.host := by
    rw [List.mem_append, not_or]
    exact ⟨by decide, parts.hostFree⟩
  rcases stringSplit_third
    (Nat.lt_succ_of_le (Nat.le_trans length short)) decodes
    parts.schemeFree hostPieceFree (ch ':') with
    ⟨scan, _, hostPiece, portPiece, others, split, list, isHost, isPort⟩
  have url : linkedlistGet scan.list 1 = .ok (some hostPiece) := by
    rw [list, linkedlistGet]
    simp only []
    rw [if_neg (by omega)]
    rfl
  have port : linkedlistGet scan.list 2 = .ok (some portPiece) := by
    rw [list, linkedlistGet]
    simp only []
    rw [if_neg (by omega)]
    rfl
  have hostNul : 0 ∉ parts.host := by
    have noNul := hostPiece.noNul
    rw [isHost, List.mem_append, not_or] at noNul
    exact noNul.2
  have behind : readString ((hostPiece.bytes ++ [0]).drop 2) =
      .ok ⟨parts.host, hostNul⟩ := by
    have skipped : (hostPiece.bytes ++ [0]).drop 2 = parts.host ++ [0] := by
      rw [isHost]
      rfl
    rw [skipped]
    exact readString_stored ⟨parts.host, hostNul⟩ []
  rcases @hostnameToIp_answers world ⟨parts.host, hostNul⟩ with
    ⟨code, ip, looked⟩
  refine ⟨⟨⟨parts.host, hostNul⟩, portPiece, ip⟩, ?_, rfl,
    atoi_port isPort⟩
  rw [trackerInit, decodeAddress_answers granted.addr, ok_bind, split,
    ok_bind, url, ok_bind, port, ok_bind]
  simp only [granted.port, if_true, behind, ok_bind, granted.url,
    granted.ip, looked]
  rfl

def grantingAddressWorld : AddressWorld where
  addrGranted := true
  addr := ⟨0, fun _ => 0⟩
  portGranted := true
  urlGranted := true
  ipGranted := true
  ip := ⟨0, fun _ => 0⟩
  lookup := fun _ => some 0x7f000001

theorem noNul_encodedAddress : 0 ∉ text "udp%3a%2F%2Fhost%3A80/a:b" := by
  decide

def encodedAddress : CString :=
  ⟨text "udp%3a%2F%2Fhost%3A80/a:b", noNul_encodedAddress⟩

theorem trackerInit_address_encoded :
    ∃ this, trackerInit grantingAddressWorld encodedAddress =
        .ok (some this) ∧
      this.url.bytes = text "host" ∧
      atoi (this.port.bytes ++ [0]) = .ok 80 := by
  have isPort : PortDigits (text "80") 80 :=
    ⟨by decide, List.all_eq_true.mp (by decide), by decide, by decide⟩
  have decodes : (decodedString encodedAddress).bytes =
      text "udp://host:80/a:b" := by
    decide
  exact @trackerInit_address grantingAddressWorld ⟨rfl, rfl, rfl, rfl⟩
    encodedAddress (by decide)
    ⟨text "udp", text "host", text "80", 80, text "/a:b", by decide,
      by decide, isPort, .inr ⟨text "a:b", rfl⟩⟩ decodes

end UvgTorrent
