import UvgTorrent.DataStructures.Hashmap
import UvgTorrent.Library.WriteHistory

/-!
# What a lookup finds after a history of stores

The abstract meaning of the map is the last write of each key.  A slot chain
holds every write of its class, oldest first, because a store never looks at
the keys it passes.  A lookup sees only the oldest entry of the chain: it
answers for that entry's key, and for another key it answers only when the
chain has no second entry.
-/

namespace UvgTorrent

open CProgram CText WriteHistory

variable {α : Type}

/-- The maps that histories of successful stores lead to. -/
inductive HashmapReached :
    List (CString × α) → Hashmap α → Prop
  | new : HashmapReached [] hashmapNew
  | set {history : List (CString × α)} {before after : Hashmap α}
      {key : CString} {value : α}
      (reached : HashmapReached history before)
      (stored :
        hashmapSet before (some key) (some value) =
          .ok (.success, after)) :
      HashmapReached (history ++ [(key, value)]) after

/-- The writes to the slot of a key, oldest first. -/
def slotWrites (history : List (CString × α)) (key : CString) :
    List (CString × α) :=
  history.filter (fun entry => slotOf entry.1 = slotOf key)

/-- Every slot holds the chain of its own writes. -/
def ChainsHold (history : List (CString × α)) (map : Hashmap α) : Prop :=
  ∀ index,
    map.buckets index =
      Bucket.ofEntries
        (history.filter (fun entry => slotOf entry.1 = index))

theorem chainsHold_store
    {history : List (CString × α)} {before : Hashmap α}
    (holds : ChainsHold history before) (key : CString) (value : α) :
    ChainsHold (history ++ [(key, value)])
      (storeInSlot before (slotOf key) key value) := by
  intro index
  rw [storeInSlot_buckets (holds (slotOf key))]
  by_cases same : index = slotOf key
  · subst index
    simp
  · have different : ¬ slotOf key = index := Ne.symm same
    rw [Function.update_of_ne same, holds index]
    simp [different]

theorem chainsHold_set
    {history : List (CString × α)} {before after : Hashmap α}
    {key : CString} {value : α}
    (holds : ChainsHold history before)
    (stored :
      hashmapSet before (some key) (some value) = .ok (.success, after)) :
    ChainsHold (history ++ [(key, value)]) after := by
  obtain ⟨_, _, rfl⟩ := hashmapSet_success stored
  exact chainsHold_store holds key value

theorem chainsHold_of_reached
    {history : List (CString × α)} {map : Hashmap α}
    (reached : HashmapReached history map) :
    ChainsHold history map := by
  induction reached with
  | new =>
      intro index
      rfl
  | set _ stored inductionHypothesis =>
      exact chainsHold_set inductionHypothesis stored

/-- The condition under which a lookup agrees with the abstract map: the key
is short enough to be hashed, and its slot was never written, or was first
written by the key itself with a value equal to its latest one, or was
written once, by another key. -/
def LastWriteVisible
    (history : List (CString × α)) (key : CString) : Prop :=
  key.bytes.length < 2 ^ 32 ∧
    (slotWrites history key = [] ∨
      (∃ value rest,
        slotWrites history key = (key, value) :: rest ∧
          lastWrite history key = some value) ∨
      ∃ other value,
        other ≠ key ∧ slotWrites history key = [(other, value)])

theorem lastWrite_slotWrites
    (history : List (CString × α)) (key : CString) :
    lastWrite (slotWrites history key) key = lastWrite history key :=
  lastWrite_filter_class slotOf history key

theorem hashmapGet_of_chainsHold
    {history : List (CString × α)} {map : Hashmap α} {key : CString}
    (holds : ChainsHold history map)
    (short : key.bytes.length < 2 ^ 32) (depth : Nat) :
    hashmapGet map (some key) depth =
      readSlot (Bucket.ofEntries (slotWrites history key)) key depth := by
  have held : map.buckets (slotOf key) =
      Bucket.ofEntries (slotWrites history key) :=
    holds (slotOf key)
  rw [hashmapGet_of_short short, held]

/-- A key that was stored is found, or its lookup does not end. -/
theorem hashmapGet_stored
    {history : List (CString × α)} {map : Hashmap α} {key : CString}
    (holds : ChainsHold history map)
    (short : key.bytes.length < 2 ^ 32)
    (stored : ∃ entry ∈ history, entry.1 = key) (depth : Nat) :
    (∃ value, hashmapGet map (some key) depth = .ok (some value)) ∨
      hashmapGet map (some key) depth = .error .unfinished := by
  rw [hashmapGet_of_chainsHold holds short]
  obtain ⟨entry, member, rfl⟩ := stored
  have among : entry ∈ slotWrites history entry.1 := by
    simpa [slotWrites] using member
  cases writes : slotWrites history entry.1 with
  | nil =>
      rw [writes] at among
      exact absurd among List.not_mem_nil
  | cons first rest =>
      rw [writes] at among
      obtain ⟨held, value⟩ := first
      by_cases same : held = entry.1
      · cases depth with
        | zero =>
            exact .inr rfl
        | succ depth =>
            rw [same]
            exact .inl ⟨value, bucketGet_first entry.1 value rest depth⟩
      · cases rest with
        | nil =>
            rw [List.mem_singleton] at among
            exact absurd (congrArg Prod.fst among).symm same
        | cons second rest =>
            exact .inr (bucketGet_unfinished same value second rest depth)

theorem lookup_of_visible
    {history : List (CString × α)} {map : Hashmap α} {key : CString}
    (holds : ChainsHold history map)
    (visible : LastWriteVisible history key) :
    Returns (hashmapGet map (some key)) (lastWrite history key) := by
  obtain ⟨short, shape⟩ := visible
  refine ⟨1, ?_⟩
  rw [hashmapGet_of_chainsHold holds short]
  rcases shape with empty | ⟨value, rest, first, last⟩ |
      ⟨other, value, different, only⟩
  · have never : lastWrite history key = none := by
      rw [← lastWrite_slotWrites, empty, lastWrite_nil]
    rw [empty, never]
    rfl
  · rw [first, last]
    exact bucketGet_first key value rest 0
  · have never : lastWrite history key = none := by
      rw [← lastWrite_slotWrites, only]
      exact (lastWrite_eq_none_iff _ _).mpr (by simpa using different)
    rw [only, never]
    exact bucketGet_only different value 0

theorem visible_of_lookup
    {history : List (CString × α)} {map : Hashmap α} {key : CString}
    (holds : ChainsHold history map)
    (found :
      Returns (hashmapGet map (some key)) (lastWrite history key)) :
    LastWriteVisible history key := by
  obtain ⟨depth, answered⟩ := found
  have short : key.bytes.length < 2 ^ 32 := by
    by_contra long
    rw [hashmapGet_long long] at answered
    cases answered
  refine ⟨short, ?_⟩
  rw [hashmapGet_of_chainsHold holds short] at answered
  cases writes : slotWrites history key with
  | nil =>
      exact Or.inl rfl
  | cons first rest =>
      rw [writes] at answered
      obtain ⟨held, value⟩ := first
      change bucketGet (Bucket.ofEntries ((held, value) :: rest))
        key depth = _ at answered
      by_cases same : held = key
      · subst held
        cases depth with
        | zero =>
            cases answered
        | succ depth =>
            rw [bucketGet_first] at answered
            have latest : some value = lastWrite history key :=
              Except.ok.inj answered
            exact Or.inr (Or.inl ⟨value, rest, rfl, latest.symm⟩)
      · cases rest with
        | nil =>
            exact Or.inr (Or.inr ⟨held, value, same, rfl⟩)
        | cons second rest =>
            rw [bucketGet_unfinished same] at answered
            cases answered

/-- A lookup returns the value of the last store of its key exactly when the
key is at the front of its chain with that value, or the chain has no room
for a hidden entry. -/
theorem hashmapGet_returns_lastWrite_iff
    {history : List (CString × α)} {map : Hashmap α}
    (reached : HashmapReached history map) (key : CString) :
    Returns (hashmapGet map (some key)) (lastWrite history key) ↔
      LastWriteVisible history key :=
  ⟨visible_of_lookup (chainsHold_of_reached reached),
    lookup_of_visible (chainsHold_of_reached reached)⟩

def keyA : CString := ⟨[97], by decide⟩

def valueOne : List UInt8 := [49]

def valueTwo : List UInt8 := [50]

/-- The maps after a store of `1` under `a` and a second store of `2`. -/
def mapOnce : Hashmap (List UInt8) :=
  storeInSlot hashmapNew (slotOf keyA) keyA valueOne

def mapTwice : Hashmap (List UInt8) :=
  storeInSlot mapOnce (slotOf keyA) keyA valueTwo

theorem mapOnce_reached : HashmapReached [(keyA, valueOne)] mapOnce :=
  .set .new (hashmapSet_of_room (by decide) (by decide) valueOne)

theorem mapTwice_reached :
    HashmapReached [(keyA, valueOne), (keyA, valueTwo)] mapTwice :=
  .set mapOnce_reached
    (hashmapSet_of_room (by decide) (by decide) valueTwo)

theorem hashmapGet_returns_lastWrite_again :
    Returns (hashmapGet mapTwice (some keyA))
        (lastWrite [(keyA, valueOne), (keyA, valueTwo)] keyA) ↔
      LastWriteVisible [(keyA, valueOne), (keyA, valueTwo)] keyA :=
  hashmapGet_returns_lastWrite_iff mapTwice_reached keyA

theorem hashmapGet_misses_second_write :
    HashmapReached [(keyA, valueOne), (keyA, valueTwo)] mapTwice ∧
      ¬ Returns (hashmapGet mapTwice (some keyA))
        (lastWrite [(keyA, valueOne), (keyA, valueTwo)] keyA) := by
  refine ⟨mapTwice_reached, ?_⟩
  rintro ⟨depth, answered⟩
  rw [hashmapGet_of_chainsHold (chainsHold_of_reached mapTwice_reached)
    (by decide)] at answered
  have writes :
      slotWrites [(keyA, valueOne), (keyA, valueTwo)] keyA =
        [(keyA, valueOne), (keyA, valueTwo)] := by
    simp [slotWrites]
  rw [writes] at answered
  cases depth with
  | zero =>
      cases answered
  | succ depth =>
      have first :=
        bucketGet_first keyA valueOne [(keyA, valueTwo)] depth
      have clash : some valueOne = some valueTwo :=
        Except.ok.inj (first.symm.trans answered)
      exact absurd clash (by decide)

end UvgTorrent
