import UvgTorrent.Tracker.Address
import UvgTorrent.Utils.SplitPieces

/-!
# The shape of an address

An address is any text of a magnet.  `Tracker_init` takes its second and its
third piece without asking whether they are there, steps over two bytes of
the second one without measuring it, and does not look at what the lookup of
the host has come to.
-/

namespace UvgTorrent

open CProgram CText CArray MachineInt ListPieces

/-- A piece of two bytes at least between the first two colons of a text. -/
def HostPiece (decoded second : List UInt8) : Prop :=
  2 ≤ second.length ∧ ch ':' ∉ second ∧
    ∃ first rest, ch ':' ∉ first ∧
      decoded = first ++ ch ':' :: (second ++ ch ':' :: rest)

/-- Behind the two slashes of a piece. -/
def hostOf (second : List UInt8) : CString :=
  CString.ofBytes (second.drop 2)

/-- A call of `Tracker_init` that reads no `NULL` and points at no place
behind a piece, and whose success means that the address is known. -/
structure CleanInit (world : AddressWorld) (address : CString) : Prop where
  answers : ∃ result, trackerInit world address = .ok result
  inside : ∀ addr scan piece, decodeAddress world address = .ok addr →
    stringSplit addr (ch ':') = .ok scan →
    linkedlistGet scan.list 1 = .ok (some piece) →
    2 ≤ piece.bytes.length
  complete : ∀ this, trackerInit world address = .ok (some this) →
    ∃ number ip, world.lookup this.url = some number ∧
      readString this.ip.cells = .ok ip ∧
      ip.bytes = dottedQuad number.toNat

/-! ## The pieces -/

section Shape

variable {world : AddressWorld} {address : CString}
  {first second third : CString} {others : List CString}

/-- The list of the pieces of a short address. -/
theorem decodedString_split (short : address.bytes.length ≤ 255) :
    ∃ scan, stringSplit (decodedString address) (ch ':') = .ok scan ∧
      scan.list = ⟨colonPieces (decodedString address),
        (colonPieces (decodedString address)).length⟩ := by
  have length := Nat.le_trans (decodedString_length address) short
  refine stringSplit_pieces ?_ ?_ (ch ':')
  · intro piece member
    exact Nat.le_trans (mem_splitOn member).2.length_le length
  · exact Nat.lt_of_le_of_lt length (by decide)

/-- A piece stands between the first two colons exactly when there are three
pieces. -/
theorem hostPiece_iff {decoded : CString} {bytes : List UInt8} :
    HostPiece decoded.bytes bytes ↔
      2 ≤ bytes.length ∧ ∃ first second third others,
        colonPieces decoded = first :: second :: third :: others ∧
          second.bytes = bytes := by
  have listed := colonPieces_bytes decoded
  constructor
  · rintro ⟨marked, free, front, rest, frontFree, whole⟩
    rw [whole, List.splitOn_append_cons_self,
      List.splitOn_append_cons_self, List.splitOn_eq_singleton frontFree,
      List.splitOn_eq_singleton free] at listed
    refine ⟨marked, ?_⟩
    cases remaining : rest.splitOn (ch ':') with
    | nil =>
        exact absurd remaining (List.splitOn_ne_nil _ _)
    | cons last further =>
        rw [remaining] at listed
        rcases List.map_eq_cons_iff.mp listed with
          ⟨first, afterFirst, pieces, _, restListed⟩
        rcases List.map_eq_cons_iff.mp restListed with
          ⟨second, afterSecond, rfl, found, lastListed⟩
        rcases List.map_eq_cons_iff.mp lastListed with
          ⟨third, others, rfl, _, _⟩
        exact ⟨first, second, third, others, pieces, found⟩
  · rintro ⟨marked, first, second, third, others, pieces, rfl⟩
    have among : ∀ piece ∈ colonPieces decoded,
        ch ':' ∉ piece.bytes := by
      intro piece member
      have inText := List.mem_map_of_mem (f := CString.bytes) member
      rw [listed] at inText
      exact (mem_splitOn inText).1
    have whole := colonPieces_joined decoded
    rw [pieces] at among whole
    exact ⟨marked, among second (by simp), first.bytes, _,
      among first (by simp), whole⟩

/-- With fewer than three pieces the list is walked off its end. -/
theorem trackerInit_few (granted : world.addrGranted = true)
    (short : address.bytes.length ≤ 255)
    (few : (colonPieces (decodedString address)).length ≤ 2) :
    trackerInit world address = .error .nullPointer := by
  rcases decodedString_split short with ⟨scan, split, list⟩
  rw [trackerInit, decodeAddress_answers granted, ok_bind, split, ok_bind,
    list]
  cases pieces : colonPieces (decodedString address) with
  | nil =>
      exact absurd pieces (colonPieces_nonempty _)
  | cons first rest =>
      rw [pieces] at few
      cases rest with
      | nil =>
          rfl
      | cons second rest =>
          cases rest with
          | nil =>
              rfl
          | cons third others =>
              simp only [List.length_cons] at few
              omega

theorem linkedlistGet_inside {values : List CString} {position : Nat}
    {value : CString} (found : values[position]? = some value) :
    linkedlistGet ⟨values, values.length⟩ position = .ok (some value) := by
  have inside := (List.getElem?_eq_some_iff.mp found).1
  have bound : ¬ (values.length : Int) < position := by omega
  cases values with
  | nil =>
      exact absurd found (by simp)
  | cons head tail =>
      rw [linkedlistGet]
      simp only []
      rw [if_neg bound, Int.toNat_natCast, found]
      rfl

theorem readString_host (marked : 2 ≤ second.bytes.length) :
    readString ((second.bytes ++ [0]).drop 2) =
      .ok (hostOf second.bytes) := by
  have hostNul : 0 ∉ second.bytes.drop 2 := fun nul =>
    second.noNul (List.mem_of_mem_drop nul)
  rw [List.drop_append_of_le_length marked, hostOf,
    CString.ofBytes_noNul hostNul]
  exact readString_stored ⟨second.bytes.drop 2, hostNul⟩ []

/-- The address is set up when every block is allocated, whatever the lookup
of the host comes to. -/
theorem trackerInit_pieces (granted : world.addrGranted = true)
    (short : address.bytes.length ≤ 255)
    (pieces : colonPieces (decodedString address) =
      first :: second :: third :: others)
    (marked : 2 ≤ second.bytes.length) :
    ∃ code ip, hostnameToIp world (hostOf second.bytes)
        (world.ip.block 32) = .ok (code, ip) ∧
      trackerInit world address =
        .ok (if world.portGranted = true ∧ world.urlGranted = true ∧
            world.ipGranted = true then
          some ⟨hostOf second.bytes, third, ip⟩
        else
          none) := by
  rcases decodedString_split short with ⟨scan, split, list⟩
  rcases @hostnameToIp_answers world (hostOf second.bytes) with
    ⟨code, ip, looked⟩
  have url : linkedlistGet scan.list 1 = .ok (some second) := by
    rw [list, pieces]
    exact linkedlistGet_inside rfl
  have port : linkedlistGet scan.list 2 = .ok (some third) := by
    rw [list, pieces]
    exact linkedlistGet_inside rfl
  refine ⟨code, ip, looked, ?_⟩
  rw [trackerInit, decodeAddress_answers granted, ok_bind, split, ok_bind,
    url, ok_bind, port, ok_bind]
  simp only [readString_host marked, ok_bind, looked]
  by_cases forPort : world.portGranted = true
  · by_cases forUrl : world.urlGranted = true
    · by_cases forIp : world.ipGranted = true
      · rw [if_pos forPort, if_pos forUrl, if_pos forIp,
          if_pos ⟨forPort, forUrl, forIp⟩]
        rfl
      · rw [if_pos forPort, if_pos forUrl, if_neg forIp,
          if_neg fun all => forIp all.2.2]
        rfl
    · rw [if_pos forPort, if_neg forUrl,
        if_neg fun all => forUrl all.2.1]
      rfl
  · rw [if_neg forPort, if_neg fun all => forPort all.1]
    rfl

/-- The text that a found address is copied as. -/
theorem hostnameToIp_found {hostname : CString} {number : UInt32}
    {code : ExitCode} {ip : Buffer}
    (found : world.lookup hostname = some number)
    (looked : hostnameToIp world hostname (world.ip.block 32) =
      .ok (code, ip)) :
    ∃ address, readString ip.cells = .ok address ∧
      address.bytes = dottedQuad number.toNat := by
  have noNul := dottedQuad_noNul number.toNat
  rw [hostnameToIp, found] at looked
  simp only [bind_eq_ok_iff] at looked
  rcases looked with ⟨output, copied, result⟩
  cases result
  have cells := (Buffer.copyIn_ok copied).2.2.2
  rw [List.take_zero, List.nil_append, List.append_assoc] at cells
  rw [cells]
  exact ⟨⟨_, noNul⟩, readString_stored ⟨_, noNul⟩ _, rfl⟩

theorem cleanInit_of_pieces (granted : world.addrGranted = true)
    (short : address.bytes.length ≤ 255)
    (pieces : colonPieces (decodedString address) =
      first :: second :: third :: others)
    (marked : 2 ≤ second.bytes.length)
    (known : world.portGranted = true → world.urlGranted = true →
      world.ipGranted = true →
        world.lookup (hostOf second.bytes) ≠ none) :
    CleanInit world address := by
  rcases trackerInit_pieces granted short pieces marked with
    ⟨code, ip, looked, answered⟩
  refine ⟨⟨_, answered⟩, ?_, ?_⟩
  · intro addr scan piece decoded split found
    rcases decodedString_split short with ⟨listed, splits, list⟩
    cases decoded.symm.trans (decodeAddress_answers granted)
    cases split.symm.trans splits
    have url : linkedlistGet scan.list 1 = .ok (some second) := by
      rw [list, pieces]
      exact linkedlistGet_inside rfl
    cases found.symm.trans url
    exact marked
  · intro this succeeded
    rw [answered] at succeeded
    by_cases all : world.portGranted = true ∧ world.urlGranted = true ∧
        world.ipGranted = true
    · rw [if_pos all] at succeeded
      cases succeeded
      cases result : world.lookup (hostOf second.bytes) with
      | none =>
          exact absurd result (known all.1 all.2.1 all.2.2)
      | some number =>
          rcases hostnameToIp_found result looked with ⟨text, read, quad⟩
          exact ⟨number, text, rfl, read, quad⟩
    · rw [if_neg all] at succeeded
      cases succeeded

end Shape

/-- `Tracker_init` is clean exactly on texts with a second piece of two bytes
or more and a third piece, when the decoded text is allocated and the lookup
of the host finds an address. -/
theorem trackerInit_clean_iff (world : AddressWorld) {address : CString}
    (short : address.bytes.length ≤ 255) :
    CleanInit world address ↔
      world.addrGranted = true ∧
        ∃ second, HostPiece (decodedString address).bytes second ∧
          (world.portGranted = true → world.urlGranted = true →
            world.ipGranted = true →
              world.lookup (hostOf second) ≠ none) := by
  constructor
  · intro clean
    rcases clean.answers with ⟨result, answered⟩
    have granted : world.addrGranted = true := by
      by_contra refused
      rw [trackerInit, decodeAddress, if_neg refused] at answered
      cases answered
    have enough :
        2 < (colonPieces (decodedString address)).length := by
      by_contra few
      rw [trackerInit_few granted short (Nat.not_lt.mp few)] at answered
      cases answered
    rcases exists_three enough with
      ⟨first, second, third, others, pieces⟩
    rcases decodedString_split short with ⟨scan, split, list⟩
    have url : linkedlistGet scan.list 1 = .ok (some second) := by
      rw [list, pieces]
      exact linkedlistGet_inside rfl
    have marked := clean.inside _ scan second
      (decodeAddress_answers granted) split url
    refine ⟨granted, second.bytes, hostPiece_iff.mpr
      ⟨marked, first, second, third, others, pieces, rfl⟩, ?_⟩
    intro forPort forUrl forIp unknown
    rcases trackerInit_pieces granted short pieces marked with
      ⟨code, ip, _, initialised⟩
    rw [if_pos ⟨forPort, forUrl, forIp⟩] at initialised
    rcases clean.complete _ initialised with ⟨number, _, found, _⟩
    cases unknown.symm.trans found
  · rintro ⟨granted, bytes, piece, known⟩
    rcases hostPiece_iff.mp piece with
      ⟨marked, first, second, third, others, pieces, rfl⟩
    exact cleanInit_of_pieces granted short pieces marked known

theorem trackerInit_clean_iff_encoded :
    CleanInit grantingAddressWorld encodedAddress := by
  have decoded : (decodedString encodedAddress).bytes =
      text "udp" ++ ch ':' :: (text "//host" ++ ch ':' ::
        text "80/a:b") := by
    decide
  refine (@trackerInit_clean_iff grantingAddressWorld encodedAddress
    (by decide)).mpr ⟨rfl, text "//host", ?_, fun _ _ _ => by decide⟩
  exact ⟨by decide, by decide, text "udp", text "80/a:b", by decide,
    decoded⟩

theorem noNul_shortAddress : 0 ∉ text "udp" := by
  decide

/-- An address without a colon. -/
def shortAddress : CString :=
  ⟨text "udp", noNul_shortAddress⟩

/-- The only piece is walked past. -/
theorem shortAddress_nullPointer :
    shortAddress.bytes.length ≤ 255 ∧
      trackerInit grantingAddressWorld shortAddress =
        .error .nullPointer ∧
      ¬ CleanInit grantingAddressWorld shortAddress := by
  have few : (colonPieces (decodedString shortAddress)).length ≤ 2 := by
    decide
  have stopped := @trackerInit_few grantingAddressWorld shortAddress rfl
    (by decide) few
  refine ⟨by decide, stopped, fun clean => ?_⟩
  rcases clean.answers with ⟨result, answered⟩
  cases stopped.symm.trans answered

end UvgTorrent
