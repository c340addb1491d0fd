import UvgTorrent.Bencode.TreeConversion
import UvgTorrent.Peer.Metadata

/-!
# The walk over the file list

The walk goes from map to list to map without looking at what it is given.
`InfoRead` says, of the tree alone, when it comes to its end and what it has
printed then.
-/

namespace UvgTorrent

open CProgram CText CArray MachineInt BencodeFormat

/-! ## A `long` read as an `int` -/

/-- The lengths that an `int` at the place of the `long` shows. -/
def FitsInt (order : ByteOrder) (length : Nat) : Prop :=
  match order with
  | .little => length < 2 ^ 31
  | .big => length = 0

theorem intAtLong_little {length : Nat} (small : length < 2 ^ 63) :
    intAtLong .little length = toInt32 (length % 2 ^ 32 : Nat) := by
  have whole : ((length : Int) % 2 ^ 64).toNat = length := by omega
  have split := networkBytes_add 4 4 length
  rw [intAtLong, whole, store, split, List.reverse_append,
    List.take_left' (by simp), load, List.reverse_reverse,
    bigEndian_networkBytes]
  rfl

theorem intAtLong_big {length : Nat} (small : length < 2 ^ 63) :
    intAtLong .big length = toInt32 (length / 2 ^ 32 : Nat) := by
  have whole : ((length : Int) % 2 ^ 64).toNat = length := by omega
  have split := networkBytes_add 4 4 length
  have high : length / 2 ^ 32 % 2 ^ 32 = length / 2 ^ 32 := by omega
  rw [intAtLong, whole, store, split, List.take_left' (by simp), load,
    bigEndian_networkBytes]
  exact congrArg (fun value : Nat => toInt32 value) high

theorem intAtLong_eq_iff (order : ByteOrder) {length : Nat}
    (small : length < 2 ^ 63) :
    intAtLong order length = length ↔ FitsInt order length := by
  cases order with
  | little =>
      rw [intAtLong_little small, FitsInt]
      constructor
      · intro same
        have upper := toInt32_upper (length % 2 ^ 32 : Nat)
        omega
      · intro fits
        rw [toInt32_of_range (by omega) (by omega)]
        omega
  | big =>
      rw [intAtLong_big small, FitsInt, toInt32_of_range (by omega)
        (by omega)]
      omega

/-! ## What a lookup finds in a converted dictionary -/

/-- The entry is one of those a map has room for, and its key reads `key` up
to a `NUL`. -/
def FoundUnder (entries : List TreeEntry) (key : CString) (value : Tree) :
    Prop :=
  ∃ raw, (raw, value) ∈ entries.take maxHashtableKeys ∧
    CString.ofBytes raw = key

/-- No two keys of the dictionary share a slot of the map. -/
def KeysApart (entries : List TreeEntry) : Prop :=
  SlotsDistinct (entryObjects entries)

section Lookups

variable {entries : List TreeEntry} {key : CString}

theorem keptEntries_of_apart (apart : KeysApart entries) :
    keptEntries (entryObjects entries) =
      entryObjects (entries.take maxHashtableKeys) := by
  rw [keptEntries_eq_take (.inr apart), entryObjects_eq, entryObjects_eq,
    List.map_take]

theorem mem_kept_iff (apart : KeysApart entries) (object : Object) :
    (key, object) ∈ keptEntries (entryObjects entries) ↔
      ∃ value, FoundUnder entries key value ∧
        treeObject value = object := by
  rw [keptEntries_of_apart apart, entryObjects_eq, List.mem_map]
  constructor
  · intro found
    rcases found with ⟨⟨raw, value⟩, member, same⟩
    exact ⟨value, ⟨raw, member, congrArg Prod.fst same⟩,
      congrArg Prod.snd same⟩
  · intro found
    rcases found with ⟨value, ⟨raw, member, isKey⟩, same⟩
    exact ⟨(raw, value), member, Prod.ext isKey same⟩

theorem treeObject_eq_long {tree : Tree} {value : Int} :
    treeObject tree = .long value ↔
      ∃ number, tree = .integer number ∧ longOf number = value := by
  cases tree <;> simp [treeObject]

theorem treeObject_eq_bytes {tree : Tree} {bytes : List UInt8} :
    treeObject tree = .bytes bytes ↔ tree = .text bytes := by
  cases tree <;> simp [treeObject]

theorem treeObject_eq_list {tree : Tree} {list : Linkedlist Object} :
    treeObject tree = .list list ↔
      ∃ items, tree = .list items ∧
        ⟨itemObjects items, (itemObjects items).length⟩ = list := by
  cases tree <;> simp [treeObject]

theorem treeObject_eq_map {tree : Tree} {map : Hashmap Object} :
    treeObject tree = .map map ↔
      ∃ entries, tree = .dict entries ∧
        fillMap (entryObjects entries) = map := by
  cases tree <;> simp [treeObject]

end Lookups

/-! ## One file -/

section Lines

variable {order : ByteOrder}

theorem asList_ok_iff {object : Option Object} {list : Linkedlist Object} :
    asList object = .ok list ↔ object = some (.list list) := by
  rcases object with _ | (bytes | value | held | entries) <;>
    simp [asList]

theorem printFileLine_ok_iff {length path : Option Object}
    {line : FileLine} :
    printFileLine order length path = .ok line ↔
      ∃ values value,
        path = some (.list values) ∧ length = some (.long value) ∧
          values.values.getLast? = some (.bytes line.pathStr) ∧
          line.length = intAtLong order value := by
  constructor
  · intro ran
    rw [printFileLine, bind_eq_ok_iff] at ran
    rcases ran with ⟨values, isList, printed⟩
    have isPath := asList_ok_iff.mp isList
    cases last : values.values.getLast? with
    | none =>
        rw [last] at printed
        cases printed
    | some object =>
        rw [last] at printed
        cases object with
        | bytes pathStr =>
            cases length with
            | none =>
                cases printed
            | some object =>
                cases object with
                | long value =>
                    have same := Except.ok.inj printed
                    refine ⟨values, value, isPath, rfl, ?_, ?_⟩
                    · rw [last, ← same]
                    · rw [← same]
                | bytes bytes => cases printed
                | list values => cases printed
                | map entries => cases printed
        | long value => cases printed
        | list values => cases printed
        | map entries => cases printed
  · intro shape
    rcases shape with ⟨values, value, rfl, rfl, last, shown⟩
    unfold printFileLine
    rw [asList, ok_bind, last]
    simp only [← shown]

end Lines

/-- The dictionary of a file is read to its end, and `line` is printed. -/
structure FileRead (order : ByteOrder) (entries : List TreeEntry)
    (line : FileLine) : Prop where
  apart : KeysApart entries
  length : ∃ number, FoundUnder entries lengthKey (.integer number) ∧
    line.length = intAtLong order (longOf number)
  path : ∃ items, FoundUnder entries pathKey (.list items) ∧
    (items.filter isKept).getLast? = some (.text line.pathStr)

section Files

variable {order : ByteOrder} {line : FileLine}

theorem asMap_ok_iff {object : Object} {map : Hashmap Object} :
    asMap (some object) = .ok map ↔ object = .map map := by
  cases object <;> simp [asMap]

theorem shortKeys :
    lengthKey.bytes.length < 2 ^ 32 ∧ pathKey.bytes.length < 2 ^ 32 ∧
      filesKey.bytes.length < 2 ^ 32 := by
  decide

theorem getLast_kept (items : List Tree) (pathStr : List UInt8) :
    (itemObjects items).getLast? = some (.bytes pathStr) ↔
      (items.filter isKept).getLast? = some (.text pathStr) := by
  rw [itemObjects_eq, List.getLast?_map]
  simp only [Option.map_eq_some_iff, treeObject_eq_bytes, exists_eq_right]

theorem destroyList_of_list (key : CString) (items : List Tree) :
    destroyList (.node (some key) (some (treeObject (.list items))) .null) =
      .ok () := by
  rw [treeObject]
  rfl

theorem consumeFile_ok_iff (entries : List TreeEntry) (depth : Nat) :
    consumeFile order (depth + 1) (.map (fillMap (entryObjects entries))) =
        .ok line ↔ FileRead order entries line := by
  have holds := (fillMap_filledBy (entryObjects entries)).chains
  constructor
  · intro ran
    simp only [consumeFile, asMap, ok_bind, bind_eq_ok_iff] at ran
    rcases ran with ⟨length, lengthFound, path, pathFound, shown, printed,
      bucket, _, _, _, cleared, clears, _, released, same⟩
    cases Except.ok.inj same
    have apart : KeysApart entries :=
      slotsDistinct_iff.mpr ((freeEach_cleared_iff holds clears).mp released)
    rcases printFileLine_ok_iff.mp printed with
      ⟨values, value, isPath, isLength, last, shownLength⟩
    rw [isLength] at lengthFound
    rw [isPath] at pathFound
    have lengthKept := hashmapGet_kept holds shortKeys.1 lengthFound
    have pathKept := hashmapGet_kept holds shortKeys.2.1 pathFound
    rcases (mem_kept_iff apart _).mp lengthKept with
      ⟨lengthTree, lengthUnder, lengthObject⟩
    rcases (mem_kept_iff apart _).mp pathKept with
      ⟨pathTree, pathUnder, pathObject⟩
    rcases treeObject_eq_long.mp lengthObject with ⟨number, rfl, amount⟩
    rcases treeObject_eq_list.mp pathObject with ⟨items, rfl, rfl⟩
    refine ⟨apart, ⟨number, lengthUnder, ?_⟩, items, pathUnder,
      (getLast_kept _ _).mp last⟩
    rw [amount]
    exact shownLength
  · intro read
    have nodup := slotsDistinct_iff.mp read.apart
    rcases read.length with ⟨number, lengthUnder, shownLength⟩
    rcases read.path with ⟨items, pathUnder, last⟩
    have lengthKept := (mem_kept_iff read.apart (treeObject _)).mpr
      ⟨_, lengthUnder, rfl⟩
    have pathKept := (mem_kept_iff read.apart (treeObject _)).mpr
      ⟨_, pathUnder, rfl⟩
    have bucket := hashmapGetBucket_of_kept holds nodup shortKeys.2.1
      pathKept
    rcases hashmapClear_of_bucket shortKeys.2.1 bucket with
      ⟨cleared, clears⟩
    have printed : printFileLine order (some (treeObject (.integer number)))
        (some (treeObject (.list items))) = .ok line := by
      rw [printFileLine_ok_iff]
      refine ⟨⟨itemObjects items, (itemObjects items).length⟩,
        longOf number, ?_, ?_, (getLast_kept _ _).mpr last, shownLength⟩
      · rw [treeObject]
      · rw [treeObject]
    simp only [consumeFile, asMap, ok_bind,
      hashmapGet_of_kept holds nodup shortKeys.1 lengthKept,
      hashmapGet_of_kept holds nodup shortKeys.2.1 pathKept, printed,
      bucket, destroyList_of_list, clears,
      (freeEach_cleared_iff holds clears).mpr nodup, pure_exec]

/-- What the loop does with an item of the list. -/
def TreeRead (order : ByteOrder) (tree : Tree) (line : FileLine) : Prop :=
  ∃ entries, tree = .dict entries ∧ FileRead order entries line

theorem consumeFile_tree_iff (tree : Tree) (depth : Nat) :
    consumeFile order (depth + 1) (treeObject tree) = .ok line ↔
      TreeRead order tree line := by
  constructor
  · intro ran
    have isMap := ran
    rw [consumeFile, bind_eq_ok_iff] at isMap
    rcases isMap with ⟨map, object, _⟩
    rcases treeObject_eq_map.mp (asMap_ok_iff.mp object) with
      ⟨entries, rfl, rfl⟩
    rw [treeObject, consumeFile_ok_iff] at ran
    exact ⟨entries, rfl, ran⟩
  · intro read
    rcases read with ⟨entries, rfl, read⟩
    rw [treeObject]
    exact (consumeFile_ok_iff entries depth).mpr read

theorem consumeFiles_ok_iff (trees : List Tree) (depth : Nat)
    {lines : List FileLine} :
    consumeFiles order (depth + 1) (trees.map treeObject) = .ok lines ↔
      List.Forall₂ (TreeRead order) trees lines := by
  induction trees generalizing lines with
  | nil =>
      rw [List.map_nil, consumeFiles, List.forall₂_nil_left_iff, pure_exec]
      constructor
      · intro same
        exact (Except.ok.inj same).symm
      · intro same
        rw [same]
  | cons tree rest inductionHypothesis =>
      rw [List.map_cons, consumeFiles]
      simp only [bind_eq_ok_iff, consumeFile_tree_iff, inductionHypothesis,
        List.forall₂_cons_left_iff]
      constructor
      · intro ran
        rcases ran with ⟨line, first, others, further, same⟩
        exact ⟨line, others, first, further, (Except.ok.inj same).symm⟩
      · intro read
        rcases read with ⟨line, others, first, further, same⟩
        exact ⟨line, first, others, further, congrArg Except.ok same.symm⟩

end Files

/-! ## The whole dictionary -/

/-- The walk over the dictionary comes to its end, and prints `lines`. -/
structure InfoRead (order : ByteOrder) (entries : List TreeEntry)
    (lines : List FileLine) : Prop where
  apart : KeysApart entries
  files : ∃ items, FoundUnder entries filesKey (.list items) ∧
    List.Forall₂ (TreeRead order) (items.filter isKept) lines

/-- The metadata that was collected is the text, in an array whose size is an
`int`. -/
structure Assembly.Holds (assembly : Assembly) (bytes : List UInt8) :
    Prop where
  front : bytes <+: assembly.metaData.cells
  size : assembly.metadataPos = bytes.length
  small : assembly.metaData.cells.length < 2 ^ 31

section Walk

variable {order : ByteOrder} {assembly : Assembly}
  {entries : List TreeEntry}

theorem Assembly.Holds.converts
    (holds : assembly.Holds (Tree.dict entries).bytes) {depth : Nat}
    (deep : 2 * assembly.metaData.cells.length < depth) :
    ∃ stray,
      bencodeToHashmap assembly.metaData.cells depth
        (bencodeInit (some 0) assembly.metadataPos) =
          .ok ⟨fillMap (entryObjects entries), stray⟩ := by
  have small := holds.small
  have stands : TreeAt assembly.metaData.cells assembly.metadataPos 0
      (.dict entries) := by
    refine ⟨?_, ?_⟩
    · rw [HoldsAt, List.drop_zero]
      exact holds.front
    · rw [holds.size]
      omega
  have window : assembly.metadataPos < 2 ^ 31 := by
    have bound := holds.front.length_le
    rw [holds.size]
    omega
  have found := stands.dictAt
  have reader : bencodeInit (some 0) assembly.metadataPos =
      readerAt 0 assembly.metadataPos 0 := by
    rw [bencodeInit, readerAt]
    simp
  rcases Nat.exists_eq_add_one_of_ne_zero (Nat.ne_zero_of_lt deep) with
    ⟨depth, rfl⟩
  have enough : 2 * (assembly.metaData.cells.length - 0) ≤ depth := by
    omega
  rcases convertDict_entries (by omega)
      (fun entry _ => tree_converts (by omega) entry.2)
      ⟨Nat.le_refl 0, by omega⟩ found.stands enough enough
      ⟨hashmapNew, []⟩ with ⟨stray, converted⟩
  refine ⟨stray, ?_⟩
  rw [reader, bencodeToHashmap_of_dict found.opens, converted]
  rfl

theorem consumeInfo_ok_iff
    (holds : assembly.Holds (Tree.dict entries).bytes) {depth : Nat}
    (deep : 2 * assembly.metaData.cells.length < depth)
    (answer : List FileLine × ExitCode) :
    consumeInfo order depth assembly = .ok answer ↔
      InfoRead order entries answer.1 ∧ answer.2 = .success := by
  have chains := (fillMap_filledBy (entryObjects entries)).chains
  rcases holds.converts deep with ⟨stray, converted⟩
  rcases Nat.exists_eq_add_one_of_ne_zero (Nat.ne_zero_of_lt deep) with
    ⟨depth, rfl⟩
  rw [consumeInfo, converted, ok_bind]
  constructor
  · intro ran
    simp only [bind_eq_ok_iff] at ran
    rcases ran with ⟨files, found, list, isList, bucket, _, lines, visited,
      _, _, cleared, clears, _, released, same⟩
    cases Except.ok.inj same
    have apart : KeysApart entries :=
      slotsDistinct_iff.mpr ((freeEach_cleared_iff chains clears).mp released)
    rw [asList_ok_iff.mp isList] at found
    have kept := hashmapGet_kept chains shortKeys.2.2 found
    rcases (mem_kept_iff apart _).mp kept with ⟨tree, under, object⟩
    rcases treeObject_eq_list.mp object with ⟨items, rfl, rfl⟩
    rw [itemObjects_eq] at visited
    exact ⟨⟨apart, items, under, (consumeFiles_ok_iff _ _).mp visited⟩, rfl⟩
  · intro both
    rcases both with ⟨read, success⟩
    have nodup := slotsDistinct_iff.mp read.apart
    rcases read.files with ⟨items, under, lines⟩
    have kept := (mem_kept_iff read.apart (treeObject _)).mpr
      ⟨_, under, rfl⟩
    have bucket := hashmapGetBucket_of_kept chains nodup shortKeys.2.2 kept
    have isList : asList (some (treeObject (.list items))) =
        .ok ⟨itemObjects items, (itemObjects items).length⟩ := by
      rw [treeObject]
      rfl
    rcases hashmapClear_of_bucket shortKeys.2.2 bucket with
      ⟨cleared, clears⟩
    have visited : consumeFiles order (depth + 1) (itemObjects items) =
        .ok answer.1 := by
      rw [itemObjects_eq]
      exact (consumeFiles_ok_iff _ _).mpr lines
    simp only [hashmapGet_of_kept chains nodup shortKeys.2.2 kept, ok_bind,
      isList, bucket, visited, destroyList_of_list, clears,
      (freeEach_cleared_iff chains clears).mpr nodup, pure_exec]
    rw [← success]

end Walk

end UvgTorrent
