import UvgTorrent.Peer.InfoWalk

/-!
# Info dictionaries of both shapes

A dictionary describes several files or a single one.  The code asks for
`files` in either case, so the second shape is not read; the first one is
read when no two keys meet in a slot and every length is one that an `int`
shows.
-/

namespace UvgTorrent

open CProgram CText CArray MachineInt BencodeFormat

/-- The keys of a dictionary come in increasing order. -/
def KeysSorted (entries : List TreeEntry) : Prop :=
  entries.Pairwise fun first second => first.1 < second.1

/-- The key is one of those a map has room for. -/
def KeyKept (entries : List TreeEntry) (key : List UInt8) : Prop :=
  ∃ value, (key, value) ∈ entries.take maxHashtableKeys

/-- The dictionary of a file; its other keys may hold anything. -/
structure FileDictionary where
  entries : List TreeEntry
  sorted : KeysSorted entries
  length : Nat
  lengthSmall : length < 2 ^ 63
  hasLength : (text "length", .integer length) ∈ entries
  path : List (List UInt8)
  pathNonempty : path ≠ []
  hasPath : (text "path", .list (path.map .text)) ∈ entries

structure MultiFile where
  entries : List TreeEntry
  sorted : KeysSorted entries
  files : List FileDictionary
  filesNonempty : files ≠ []
  hasFiles :
    (text "files", .list (files.map fun file => .dict file.entries)) ∈
      entries

structure SingleFile where
  entries : List TreeEntry
  sorted : KeysSorted entries
  length : Nat
  lengthSmall : length < 2 ^ 63
  hasLength : (text "length", .integer length) ∈ entries
  noFiles : ∀ entry ∈ entries, entry.1 ≠ text "files"

inductive InfoDictionary where
  | multi (info : MultiFile)
  | single (info : SingleFile)

def InfoDictionary.entries : InfoDictionary → List TreeEntry
  | .multi info => info.entries
  | .single info => info.entries

def InfoDictionary.bytes (info : InfoDictionary) : List UInt8 :=
  (Tree.dict info.entries).bytes

/-- What is to be printed for a file. -/
def FileDictionary.line (file : FileDictionary) : FileLine :=
  ⟨file.path.getLast file.pathNonempty, file.length⟩

/-- Every file is visited once, with its full length. -/
def InfoDictionary.VisitedBy (lines : List FileLine) :
    InfoDictionary → Prop
  | .multi info => lines = info.files.map FileDictionary.line
  | .single info => ∃ line, lines = [line] ∧ line.length = info.length

/-- However deep the calls may go, beyond some depth the run visits the files
and answers `EXIT_SUCCESS`. -/
def ConsumedSafely (order : ByteOrder) (info : InfoDictionary)
    (assembly : Assembly) : Prop :=
  ∃ lines, info.VisitedBy lines ∧
    ∃ enough, ∀ depth, enough ≤ depth →
      consumeInfo order depth assembly = .ok (lines, .success)

def FileDictionary.Readable (order : ByteOrder) (file : FileDictionary) :
    Prop :=
  KeysApart file.entries ∧ KeyKept file.entries (text "length") ∧
    KeyKept file.entries (text "path") ∧ FitsInt order file.length

/-- The dictionaries that are read.  One without the key `files` is read only
when a key that goes on behind a `NUL` stands in for it. -/
def InfoDictionary.Readable (order : ByteOrder) : InfoDictionary → Prop
  | .multi info =>
      KeysApart info.entries ∧ KeyKept info.entries (text "files") ∧
        ∀ file ∈ info.files, file.Readable order
  | .single info =>
      ∃ line : FileLine, line.length = info.length ∧
        InfoRead order info.entries [line]

section Keys

variable {entries : List TreeEntry} {key : CString} {own value : Tree}

theorem not_lt_of_front {front whole : List UInt8}
    (isFront : front <+: whole) : ¬ whole < front := by
  rcases isFront with ⟨tail, rfl⟩
  induction front with
  | nil =>
      exact List.not_lt_nil _
  | cons byte rest inductionHypothesis =>
      rw [List.cons_append, List.cons_lt_cons_self]
      exact inductionHypothesis

theorem ofBytes_self (key : CString) : CString.ofBytes key.bytes = key :=
  CString.ofBytes_noNul key.noNul

/-- A key of the dictionary comes before every longer key that reads the same
up to a `NUL`. -/
theorem room_of_found (sorted : KeysSorted entries)
    (member : (key.bytes, own) ∈ entries)
    (found : FoundUnder entries key value) :
    (key.bytes, own) ∈ entries.take maxHashtableKeys := by
  rcases found with ⟨raw, early, isKey⟩
  have front : key.bytes <+: raw := by
    rw [← isKey]
    exact List.takeWhile_prefix _
  rw [← List.take_append_drop maxHashtableKeys entries] at member sorted
  rcases List.mem_append.mp member with here | late
  · exact here
  · exact absurd ((List.pairwise_append.mp sorted).2.2 _ early _ late)
      (not_lt_of_front front)

theorem foundUnder_iff (sorted : KeysSorted entries)
    (apart : KeysApart entries) (member : (key.bytes, own) ∈ entries) :
    FoundUnder entries key value ↔
      value = own ∧ KeyKept entries key.bytes := by
  have unique : ∀ {first second : TreeEntry},
      first ∈ entries.take maxHashtableKeys →
      second ∈ entries.take maxHashtableKeys →
      CString.ofBytes first.1 = CString.ofBytes second.1 →
        first = second := by
    intro first second firstIn secondIn same
    have nodup := apart
    rw [KeysApart, SlotsDistinct, entryObjects_eq, ← List.map_take, slots,
      List.map_map] at nodup
    exact List.inj_on_of_nodup_map nodup firstIn secondIn
      (congrArg slotOf same)
  constructor
  · intro found
    have here := room_of_found sorted member found
    rcases found with ⟨raw, early, isKey⟩
    have same := unique early here (isKey.trans (ofBytes_self key).symm)
    exact ⟨congrArg Prod.snd same, own, here⟩
  · intro both
    rcases both with ⟨rfl, found, early⟩
    have under : FoundUnder entries key found :=
      ⟨key.bytes, early, ofBytes_self key⟩
    have here := room_of_found sorted member under
    exact ⟨key.bytes, here, ofBytes_self key⟩

end Keys

section Shapes

variable {order : ByteOrder}

theorem isKept_texts (path : List (List UInt8)) :
    (path.map Tree.text).filter isKept = path.map Tree.text := by
  rw [List.filter_eq_self]
  intro tree member
  rcases List.mem_map.mp member with ⟨bytes, _, rfl⟩
  rfl

theorem isKept_dicts (files : List FileDictionary) :
    (files.map fun file => Tree.dict file.entries).filter isKept =
      files.map fun file => Tree.dict file.entries := by
  rw [List.filter_eq_self]
  intro tree member
  rcases List.mem_map.mp member with ⟨file, _, rfl⟩
  rfl

/-- A file is read with its own line exactly when it is readable. -/
theorem fileRead_iff (file : FileDictionary) :
    FileRead order file.entries file.line ↔ file.Readable order := by
  have amount := longOf_of_range file.lengthSmall
  have last : (file.path.map Tree.text).getLast? =
      some (.text (file.path.getLast file.pathNonempty)) := by
    rw [List.getLast?_map, List.getLast?_eq_some_getLast file.pathNonempty]
    rfl
  constructor
  · intro read
    rcases read.length with ⟨number, lengthUnder, shown⟩
    rcases read.path with ⟨items, pathUnder, _⟩
    have length := (foundUnder_iff file.sorted read.apart
      file.hasLength).mp lengthUnder
    have path := (foundUnder_iff file.sorted read.apart
      file.hasPath).mp pathUnder
    have fits : FitsInt order file.length := by
      rw [Tree.integer.inj length.1, amount] at shown
      exact (intAtLong_eq_iff order file.lengthSmall).mp shown.symm
    exact ⟨read.apart, length.2, path.2, fits⟩
  · intro readable
    rcases readable with ⟨apart, lengthRoom, pathRoom, fits⟩
    refine ⟨apart, ⟨file.length, ?_, ?_⟩, file.path.map .text, ?_, ?_⟩
    · exact (foundUnder_iff file.sorted apart file.hasLength).mpr
        ⟨rfl, lengthRoom⟩
    · rw [amount]
      exact ((intAtLong_eq_iff order file.lengthSmall).mpr fits).symm
    · exact (foundUnder_iff file.sorted apart file.hasPath).mpr
        ⟨rfl, pathRoom⟩
    · rw [isKept_texts]
      exact last

theorem treeRead_dict_iff {entries : List TreeEntry} {line : FileLine} :
    TreeRead order (.dict entries) line ↔
      FileRead order entries line := by
  constructor
  · intro read
    rcases read with ⟨found, same, read⟩
    rw [Tree.dict.inj same]
    exact read
  · intro read
    exact ⟨entries, rfl, read⟩

theorem filesRead_iff (files : List FileDictionary) :
    List.Forall₂ (TreeRead order)
        (files.map fun file => Tree.dict file.entries)
        (files.map FileDictionary.line) ↔
      ∀ file ∈ files, file.Readable order := by
  rw [List.forall₂_map_left_iff, List.forall₂_map_right_iff,
    List.forall₂_same]
  apply forall₂_congr
  intro file _
  rw [treeRead_dict_iff, fileRead_iff]

theorem infoRead_iff (info : InfoDictionary) :
    (∃ lines, info.VisitedBy lines ∧ InfoRead order info.entries lines) ↔
      info.Readable order := by
  cases info with
  | multi info =>
      constructor
      · intro visited
        rcases visited with ⟨lines, rfl, read⟩
        rcases read.files with ⟨items, under, files⟩
        have found := (foundUnder_iff info.sorted read.apart
          info.hasFiles).mp under
        rw [Tree.list.inj found.1, isKept_dicts, filesRead_iff] at files
        exact ⟨read.apart, found.2, files⟩
      · intro readable
        rcases readable with ⟨apart, room, files⟩
        refine ⟨_, rfl, apart, _, (foundUnder_iff info.sorted apart
          info.hasFiles).mpr ⟨rfl, room⟩, ?_⟩
        rw [isKept_dicts, filesRead_iff]
        exact files
  | single info =>
      constructor
      · intro visited
        rcases visited with ⟨lines, ⟨line, rfl, full⟩, read⟩
        exact ⟨line, full, read⟩
      · intro readable
        rcases readable with ⟨line, full, read⟩
        exact ⟨[line], ⟨line, rfl, full⟩, read⟩

/-- The list that the code expects under `files` is `NULL`. -/
theorem single_notReadable {info : SingleFile}
    (unnamed : ∀ entry ∈ info.entries,
      CString.ofBytes entry.1 ≠ filesKey) :
    ¬ (InfoDictionary.single info).Readable order := by
  intro readable
  rcases readable with ⟨line, _, read⟩
  rcases read.files with ⟨items, ⟨raw, early, isKey⟩, _⟩
  exact unnamed _ (List.mem_of_mem_take early) isKey

theorem consumedSafely_iff_read {info : InfoDictionary}
    {assembly : Assembly} (holds : assembly.Holds info.bytes) :
    ConsumedSafely order info assembly ↔
      ∃ lines, info.VisitedBy lines ∧
        InfoRead order info.entries lines := by
  constructor
  · intro consumed
    rcases consumed with ⟨lines, visited, enough, runs⟩
    have ran := runs
      (max enough (2 * assembly.metaData.cells.length + 1))
      (Nat.le_max_left _ _)
    have deep : 2 * assembly.metaData.cells.length <
        max enough (2 * assembly.metaData.cells.length + 1) := by
      omega
    exact ⟨lines, visited,
      ((consumeInfo_ok_iff holds deep _).mp ran).1⟩
  · intro read
    rcases read with ⟨lines, visited, read⟩
    refine ⟨lines, visited, 2 * assembly.metaData.cells.length + 1, ?_⟩
    intro depth deep
    exact (consumeInfo_ok_iff holds deep _).mpr ⟨read, rfl⟩

end Shapes

/-- An info dictionary is consumed as it should be exactly when it is
readable. -/
theorem consumedSafely_iff (order : ByteOrder) (info : InfoDictionary)
    {assembly : Assembly} (holds : assembly.Holds info.bytes) :
    ConsumedSafely order info assembly ↔ info.Readable order :=
  (consumedSafely_iff_read holds).trans (infoRead_iff info)

/-- The array holds the text and nothing else. -/
def assemblyOf (bytes : List UInt8) : Assembly :=
  ⟨.ofCells bytes, bytes.length⟩

theorem assemblyOf_holds {bytes : List UInt8}
    (small : bytes.length < 2 ^ 31) : (assemblyOf bytes).Holds bytes :=
  ⟨List.prefix_refl bytes, rfl, small⟩

/-! ## A dictionary of one file in a list -/

theorem onlyKey_sorted (entry : TreeEntry) : KeysSorted [entry] :=
  List.pairwise_singleton _ _

theorem onlyKey_apart (entry : TreeEntry) : KeysApart [entry] :=
  List.nodup_singleton _

theorem small_one : 1 < 2 ^ 63 := by
  decide

def smallFileEntries : List TreeEntry :=
  [(text "length", .integer (1 : Nat)),
    (text "path", .list [.text (text "a")])]

theorem smallFileEntries_sorted : KeysSorted smallFileEntries :=
  List.pairwise_pair.mpr (by decide)

theorem smallFileEntries_apart : KeysApart smallFileEntries := by
  have different : slotOf (CString.ofBytes (text "length")) ≠
      slotOf (CString.ofBytes (text "path")) := by
    decide +kernel
  exact List.nodup_cons.mpr
    ⟨fun member => different (List.mem_singleton.mp member),
      List.nodup_singleton _⟩

def smallFile : FileDictionary where
  entries := smallFileEntries
  sorted := smallFileEntries_sorted
  length := 1
  lengthSmall := small_one
  hasLength := List.mem_cons_self
  path := [text "a"]
  pathNonempty := List.cons_ne_nil _ _
  hasPath := List.mem_cons_of_mem _ List.mem_cons_self

/-- `{"files": [{"length": 1, "path": ["a"]}]}` -/
def listedFile : MultiFile where
  entries := [(text "files", .list [.dict smallFileEntries])]
  sorted := onlyKey_sorted _
  files := [smallFile]
  filesNonempty := List.cons_ne_nil _ _
  hasFiles := List.mem_cons_self

theorem listedFile_small :
    (InfoDictionary.multi listedFile).bytes.length < 2 ^ 31 := by
  decide +kernel

theorem smallFile_readable : smallFile.Readable .little := by
  refine ⟨smallFileEntries_apart, ⟨_, List.mem_cons_self⟩,
    ⟨_, List.mem_cons_of_mem _ List.mem_cons_self⟩, ?_⟩
  rw [FitsInt]
  decide

theorem consumedSafely_iff_listed :
    ConsumedSafely .little (.multi listedFile)
      (assemblyOf (InfoDictionary.multi listedFile).bytes) := by
  refine (consumedSafely_iff .little (.multi listedFile)
    (assemblyOf_holds listedFile_small)).mpr ?_
  refine ⟨onlyKey_apart _, ⟨_, List.mem_cons_self⟩, ?_⟩
  intro file member
  rw [List.mem_singleton.mp member]
  exact smallFile_readable

/-! ## A single file -/

theorem aloneFile_noFiles :
    ∀ entry ∈ [((text "length", .integer (1 : Nat)) : TreeEntry)],
      entry.1 ≠ text "files" := by
  intro entry member
  rw [List.mem_singleton.mp member]
  decide

/-- `{"length": 1}` -/
def aloneFile : SingleFile where
  entries := [(text "length", .integer (1 : Nat))]
  sorted := onlyKey_sorted _
  length := 1
  lengthSmall := small_one
  hasLength := List.mem_cons_self
  noFiles := aloneFile_noFiles

theorem aloneFile_small :
    (InfoDictionary.single aloneFile).bytes.length < 2 ^ 31 := by
  decide +kernel

theorem aloneFile_unnamed :
    ∀ entry ∈ aloneFile.entries, CString.ofBytes entry.1 ≠ filesKey := by
  intro entry member
  rw [List.mem_singleton.mp member]
  decide

theorem aloneFile_crashes :
    (assemblyOf (InfoDictionary.single aloneFile).bytes).Holds
        (InfoDictionary.single aloneFile).bytes ∧
      ¬ ConsumedSafely .little (.single aloneFile)
        (assemblyOf (InfoDictionary.single aloneFile).bytes) := by
  have holds := assemblyOf_holds aloneFile_small
  refine ⟨holds, fun consumed => ?_⟩
  exact single_notReadable aloneFile_unnamed
    ((infoRead_iff _).mp ((consumedSafely_iff_read holds).mp consumed))

end UvgTorrent
