import UvgTorrent.Bencode.TreeReader
import UvgTorrent.DataStructures.HashmapFill

/-!
# What a tree is converted to

A dictionary becomes the map that its entries fill, in their order.  A list
keeps its dictionaries and its texts and drops the rest.
-/

namespace UvgTorrent

open CProgram CText CArray MachineInt BencodeFormat

/-- The kinds that `bencode_to_hashmap` takes into a list. -/
def isKept : Tree → Bool
  | .integer _ => false
  | .text _ => true
  | .list _ => false
  | .dict _ => true

mutual

def treeObject : Tree → Object
  | .integer value => .long (longOf value)
  | .text bytes => .bytes bytes
  | .list items =>
      .list ⟨itemObjects items, (itemObjects items).length⟩
  | .dict entries => .map (fillMap (entryObjects entries))

def itemObjects : List Tree → List Object
  | [] => []
  | item :: rest =>
      if isKept item then
        treeObject item :: itemObjects rest
      else
        itemObjects rest

def entryObjects : List (List UInt8 × Tree) → List (CString × Object)
  | [] => []
  | (key, value) :: rest =>
      (CString.ofBytes key, treeObject value) :: entryObjects rest

end

theorem itemObjects_eq (items : List Tree) :
    itemObjects items = (items.filter isKept).map treeObject := by
  induction items with
  | nil =>
      rfl
  | cons item rest inductionHypothesis =>
      by_cases kept : isKept item = true
      · rw [itemObjects, if_pos kept, List.filter_cons_of_pos kept,
          List.map_cons, inductionHypothesis]
      · rw [itemObjects, if_neg kept, List.filter_cons_of_neg kept,
          inductionHypothesis]

theorem entryObjects_eq (entries : List TreeEntry) :
    entryObjects entries = entries.map fun entry =>
      (CString.ofBytes entry.1, treeObject entry.2) := by
  induction entries with
  | nil =>
      rfl
  | cons entry rest inductionHypothesis =>
      rw [entryObjects, inductionHypothesis]
      rfl

/-- What an item of a list is converted to. -/
def treeElement (tree : Tree) : Option Object :=
  if isKept tree then some (treeObject tree) else none

section Converting

variable {memory : List UInt8}

/-- A tree that is converted to its object wherever it stands. -/
def TreeConverts (memory : List UInt8) (tree : Tree) : Prop :=
  ∀ last position depth fuel, TreeAt memory last position tree →
    2 * (memory.length - position) < depth →
    2 * (memory.length - position) ≤ fuel →
    last - position < 2 ^ 31 →
    (∃ stray,
      convertElement memory (bencodeToHashmap memory depth)
        (readerAt position last position) =
          .ok (treeElement tree, stray)) ∧
    ∃ stray,
      convertValue memory (iterateToNextStringPos memory depth)
        (bencodeToHashmap memory depth) fuel
        (readerAt position last position) =
          .ok (some (treeObject tree), stray)

theorem storeObject_eq (map : Hashmap Object) {key : CString}
    (short : key.bytes.length < 2 ^ 32) (object : Object) :
    storeObject map key (some object) =
      .ok (storeEntry map (key, object)) := by
  by_cases room : map.bucketCount < maxHashtableKeys
  · rw [storeObject, hashmapSet_of_room room short, storeEntry,
      if_pos room]
    rfl
  · rw [storeEntry, if_neg room]
    simp [storeObject, hashmapSet, room]

/-- The round of the conversion over an entry. -/
theorem EntryFound.converts (small : memory.length ≤ 2 ^ 31)
    {start position depth fuel : Nat} {last : Int} {key : List UInt8}
    {value : Tree} {rest : List TreeEntry}
    (found : EntryFound memory start last position key value rest)
    (be : Bencode) {missed : List Nat}
    (converted :
      convertValue memory (iterateToNextStringPos memory depth)
        (bencodeToHashmap memory depth) fuel
        (readerAt (keyEnd memory position key)
          (last + (position - start)) (keyEnd memory position key)) =
            .ok (some (treeObject value), missed))
    (done : Converted) :
    convertEntry memory (iterateToNextStringPos memory depth)
        (bencodeToHashmap memory depth) fuel
        ⟨be,
          readerAt (keyEnd memory position key)
            (last + (position - start)) (keyEnd memory position key),
          some (keyBody memory position key), key.length⟩ done =
      .ok ⟨storeEntry done.map
          (CString.ofBytes key, treeObject value),
        done.stray ++ [key.length] ++ missed⟩ := by
  have inside := found.inside
  have short : (CString.ofBytes key).bytes.length < 2 ^ 32 := by
    have bound := CString.ofBytes_length_le key
    rw [keyEnd] at inside
    omega
  rw [convertEntry_eq small be found.length inside converted done,
    found.text, storeObject_eq done.map short, ok_bind]

theorem convertDict_entries (small : memory.length ≤ 2 ^ 31)
    {entries : List TreeEntry}
    (values : ∀ entry ∈ entries, TreeConverts memory entry.2)
    {start position depth fuel : Nat} {last : Int}
    (range : InRange start last position)
    (stands : EntriesAt memory last position entries)
    (deep : 2 * (memory.length - position) ≤ depth)
    (enough : 2 * (memory.length - position) ≤ fuel)
    (done : Converted) :
    ∃ stray,
      convertDict memory (iterateToNextStringPos memory depth)
        (bencodeToHashmap memory depth) fuel
        (readerAt start last position) done =
          .ok ⟨(entryObjects entries).foldl storeEntry done.map,
            stray⟩ := by
  induction entries generalizing position fuel done with
  | nil =>
      have closes := stands.closes
      have inside := lt_length_of_byte closes
      have before := le_keyPosition memory position
      rcases Nat.exists_eq_add_one_of_ne_zero (by omega : fuel ≠ 0)
        with ⟨fuel, rfl⟩
      refine ⟨done.stray, ?_⟩
      rw [convertDict_round _ _ _ _ inside,
        if_pos (dictEnds_of_closes closes)]
      rfl
  | cons entry rest inductionHypothesis =>
      rcases entry with ⟨key, value⟩
      rw [List.forall_mem_cons] at values
      have order := range.order
      have window := range.window
      have found := stands.found small order
      have keyInside := lt_length_of_byte found.length.colon
      have forward := found.before_value
      have inside := found.inside
      have valueSize := value.bytes_length
      have nextRange : InRange start last
          (keyEnd memory position key + value.bytes.length) :=
        ⟨by omega, window⟩
      rcases Nat.exists_eq_add_one_of_ne_zero (by omega : fuel ≠ 0)
        with ⟨fuel, rfl⟩
      rcases (values.1 _ _ depth fuel found.item (by omega) (by omega)
          (by omega)).2 with ⟨missed, converted⟩
      rcases inductionHypothesis values.2 nextRange found.behind
          (by omega) (by omega : _ ≤ fuel)
          ⟨storeEntry done.map (CString.ofBytes key, treeObject value),
            done.stray ++ [key.length] ++ missed⟩ with ⟨stray, walked⟩
      refine ⟨stray, ?_⟩
      rw [convertDict_round _ _ _ _ (by omega), if_neg found.more,
        found.step small range (tree_skips small value) deep]
      simp only [ok_bind, found.converts small _ converted done]
      exact walked

theorem convertItem_element {convert : Bencode → Exec Converted}
    {benl : Bencode} {item : Tree} {stray : List Nat}
    (converted : convertElement memory convert benl =
      .ok (treeElement item, stray))
    (done : ConvertedList) :
    convertItem memory convert benl done =
      .ok (⟨done.1.values ++ itemObjects [item],
        done.1.count + (itemObjects [item]).length⟩,
        done.2 ++ stray) := by
  rw [convertItem, converted, ok_bind]
  by_cases kept : isKept item = true
  · rw [treeElement, if_pos kept, itemObjects, if_pos kept]
    rfl
  · rw [treeElement, if_neg kept, itemObjects, if_neg kept, itemObjects,
      List.append_nil]
    rfl

theorem itemObjects_cons (item : Tree) (rest : List Tree) :
    itemObjects (item :: rest) =
      itemObjects [item] ++ itemObjects rest := by
  by_cases kept : isKept item = true
  · simp [itemObjects, kept]
  · simp [itemObjects, kept]

theorem convertList_items (small : memory.length ≤ 2 ^ 31)
    {items : List Tree}
    (elements : ∀ item ∈ items, TreeConverts memory item)
    {start position depth fuel : Nat} {last : Int}
    (range : InRange start last position) (room : (start : Int) < last)
    (lead : memory[start]? = some (ch 'l'))
    (stands : ItemsAt memory last start position items)
    (deep : 2 * (memory.length - start) ≤ depth)
    (enough : 2 * (memory.length - position) ≤ fuel)
    (done : ConvertedList) :
    ∃ stray,
      convertList memory (iterateToNextStringPos memory depth)
        (bencodeToHashmap memory depth) fuel
        (readerAt start last position) done =
          .ok (⟨done.1.values ++ itemObjects items,
            done.1.count + (itemObjects items).length⟩, stray) := by
  have startInside := lt_length_of_byte lead
  induction items generalizing position fuel done with
  | nil =>
      have inside := lt_length_of_byte stands.holds.byte
      have before := le_itemPosition memory start position
      rcases Nat.exists_eq_add_one_of_ne_zero (by omega : fuel ≠ 0)
        with ⟨fuel, rfl⟩
      refine ⟨done.2, ?_⟩
      rw [convertList_round _ _ _ _ inside, itemObjects, List.append_nil]
      rcases stands.ended with ⟨opens, same, closes, _⟩ |
        ⟨nonempty, closes, _⟩
      · rw [if_pos ⟨opens, same, closes⟩]
        rfl
      · rw [if_neg nonempty, if_pos closes]
        rfl
  | cons item rest inductionHypothesis =>
      rw [List.forall_mem_cons] at elements
      have order := range.order
      have window := range.window
      have found := stands.found order lead
      have inside := found.opens.inside
      have before := le_itemPosition memory start position
      have behind := lt_itemPosition lead order
      have itemSize := item.bytes_length
      have nextRange : InRange start last
          (itemPosition memory start position + item.bytes.length) :=
        ⟨by omega, window⟩
      rcases Nat.exists_eq_add_one_of_ne_zero (by omega : fuel ≠ 0)
        with ⟨fuel, rfl⟩
      rcases (elements.1 _ _ depth (2 * memory.length) found.element
          (by omega) (by omega) (by omega)).1 with ⟨missed, converted⟩
      rcases inductionHypothesis elements.2 nextRange found.behind
          (by omega : _ ≤ fuel)
          (⟨done.1.values ++ itemObjects [item],
            done.1.count + (itemObjects [item]).length⟩,
            done.2 ++ missed) with ⟨stray, walked⟩
      refine ⟨stray, ?_⟩
      rw [convertList_round _ _ _ _ inside,
        if_neg found.opens.not_empty, if_neg found.opens.more,
        found.step small range room lead (tree_skips small item) deep]
      simp only [ok_bind, convertItem_element converted done]
      rw [itemObjects_cons item rest, List.length_append, ← List.append_assoc,
        ← Nat.add_assoc]
      exact walked

theorem tree_converts (small : memory.length ≤ 2 ^ 31) (tree : Tree) :
    TreeConverts memory tree := by
  induction tree using Tree.induct with
  | integer value =>
      intro last position depth fuel stands _ _ _
      have holds := stands.holds
      rw [Tree.bytes] at holds
      have found := holds.integerAt
      rw [convertElement_dropped _ found.opens (by decide) (by decide),
        convertValue_integer _ _ _ found.opens,
        bencodeIntValue_eq position last found.digits found.closes,
        found.amount]
      exact ⟨⟨[], rfl⟩, ⟨[], rfl⟩⟩
  | text bytes =>
      intro last position depth fuel stands _ _ _
      have holds := stands.holds
      have fits := stands.fits
      rw [Tree.bytes] at holds fits
      have size := encodeText_length bytes
      have place := @encodeText_end position bytes
      have length := holds.lengthAt small
      have inside := holds.inside (by simp [encodeText])
      have converted := convertString_eq small length
        (by omega : (position : Int) < last) (by omega) (by omega)
      rw [holds.body] at converted
      rw [convertElement_text _ length, convertValue_text _ _ _ length,
        converted]
      exact ⟨⟨[], rfl⟩, ⟨[], rfl⟩⟩
  | list items elements =>
      intro last position depth fuel stands deep enough window
      have found := stands.listAt
      have opens := found.opens
      rcases convertList_items small elements ⟨Nat.le_refl _, window⟩
          found.room opens found.stands (Nat.le_of_lt deep) enough
          (linkedlistNew, []) with ⟨stray, converted⟩
      rw [convertElement_dropped _ opens (by decide) (by decide),
        convertValue_list _ _ _ opens, converted]
      refine ⟨⟨[], rfl⟩, ⟨stray, ?_⟩⟩
      simp [treeObject, linkedlistNew]
  | dict entries values =>
      intro last position depth fuel stands deep enough window
      have found := stands.dictAt
      have opens := found.opens
      rcases Nat.exists_eq_add_one_of_ne_zero (Nat.ne_zero_of_lt deep)
        with ⟨depth, rfl⟩
      rcases convertDict_entries small values ⟨Nat.le_refl _, window⟩
          found.stands (Nat.lt_succ_iff.mp deep)
          (Nat.lt_succ_iff.mp deep) ⟨hashmapNew, []⟩ with ⟨stray, converted⟩
      rw [convertElement_dict _ opens, convertValue_dict _ _ _ opens,
        bencodeToHashmap_of_dict opens, converted]
      exact ⟨⟨stray, rfl⟩, ⟨stray, rfl⟩⟩

end Converting

end UvgTorrent
