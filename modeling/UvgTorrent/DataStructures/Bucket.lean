import UvgTorrent.Library.CString

/-!
# Buckets

A `Bucket *` is `NULL` or a bucket whose `next` is again such a pointer.
`bucketGet` hands its own receiver to the lookup of the next bucket, as the
source does, so its recursion is bounded by the call depth allowed.
-/

namespace UvgTorrent

open CProgram CText

/-- A pointer to a bucket. -/
inductive Bucket (α : Type) where
  | null
  | node (key : Option CString) (value : Option α) (next : Bucket α)

variable {α : Type}

/-- Store into the first bucket of the chain that has no key, or into a new
bucket at its end.  The key of the buckets passed on the way is not looked
at. -/
def bucketSet : Bucket α → CString → α → Bucket α
  | .null, _, _ => .null
  | .node none _ next, key, value => .node (some key) (some value) next
  | .node (some held) kept .null, key, value =>
      .node (some held) kept (.node (some key) (some value) .null)
  | .node (some held) kept (.node nextKey nextValue nextNext), key, value =>
      .node (some held) kept
        (bucketSet (.node nextKey nextValue nextNext) key value)

/-- `Bucket_new`: the fields are cleared and the first `set` fills them. -/
def bucketNew (key : CString) (value : α) : Bucket α :=
  bucketSet (.node none none .null) key value

/-- `Bucket_get`, with at most `depth` nested calls. -/
def bucketGet (this : Bucket α) (key : CString) : Nat → Exec (Option α)
  | 0 => .error .unfinished
  | depth + 1 =>
      match this with
      | .null => .error .nullPointer
      | .node none _ _ => .error .nullPointer
      | .node (some held) value next =>
          if held = key then
            .ok value
          else
            match next with
            -- the receiver passed on is `this`, not `this->next`
            | .node _ _ _ => bucketGet this key depth
            | .null => .ok none

/-- The chain that holds the given entries, first one first. -/
def Bucket.ofEntries : List (CString × α) → Bucket α
  | [] => .null
  | (key, value) :: rest =>
      .node (some key) (some value) (Bucket.ofEntries rest)

@[simp]
theorem bucketNew_eq (key : CString) (value : α) :
    bucketNew key value = Bucket.ofEntries [(key, value)] :=
  rfl

/-- A `set` on a chain appends an entry, whatever keys the chain holds. -/
theorem bucketSet_ofEntries
    (first : CString × α) (rest : List (CString × α))
    (key : CString) (value : α) :
    bucketSet (Bucket.ofEntries (first :: rest)) key value =
      Bucket.ofEntries (first :: rest ++ [(key, value)]) := by
  induction rest generalizing first with
  | nil =>
      rfl
  | cons second tail inductionHypothesis =>
      have appended := inductionHypothesis second
      simp only [Bucket.ofEntries, List.cons_append, bucketSet]
        at appended ⊢
      rw [appended]

theorem bucketGet_first
    (key : CString) (value : α) (rest : List (CString × α)) (depth : Nat) :
    bucketGet (Bucket.ofEntries ((key, value) :: rest)) key (depth + 1) =
      .ok (some value) := by
  simp [Bucket.ofEntries, bucketGet]

theorem bucketGet_only
    {held key : CString} (different : held ≠ key)
    (value : α) (depth : Nat) :
    bucketGet (Bucket.ofEntries [(held, value)]) key (depth + 1) =
      .ok none := by
  simp [Bucket.ofEntries, bucketGet, different]

/-- A first bucket with the key answers at once. -/
theorem bucketGet_found (key : CString) (value : Option α) (next : Bucket α)
    (depth : Nat) :
    bucketGet (.node (some key) value next) key (depth + 1) =
      .ok value := by
  cases next <;> simp [bucketGet]

/-- A value that is found is that of the first bucket. -/
theorem bucketGet_some {this : Bucket α} {key : CString} {depth : Nat}
    {value : α} (found : bucketGet this key depth = .ok (some value)) :
    0 < depth ∧ ∃ next, this = .node (some key) (some value) next := by
  induction depth with
  | zero => cases found
  | succ depth inductionHypothesis =>
      refine ⟨Nat.succ_pos depth, ?_⟩
      cases this with
      | null => cases found
      | node held kept next =>
          cases held with
          | none => cases found
          | some held =>
              rw [bucketGet.eq_def] at found
              dsimp only at found
              split at found
              · rename_i same
                cases found
                exact ⟨next, by rw [same]⟩
              · cases next with
                | null => cases found
                | node nextKey nextValue rest =>
                    exact (inductionHypothesis found).2

/-- On a longer chain a key that the first bucket does not hold is asked of
the first bucket again and again. -/
theorem bucketGet_unfinished
    {held key : CString} (different : held ≠ key) (value : α)
    (second : CString × α) (rest : List (CString × α)) (depth : Nat) :
    bucketGet (Bucket.ofEntries ((held, value) :: second :: rest)) key depth =
      .error .unfinished := by
  induction depth with
  | zero =>
      rfl
  | succ depth inductionHypothesis =>
      simp only [Bucket.ofEntries] at inductionHypothesis ⊢
      rw [bucketGet, if_neg different]
      exact inductionHypothesis

end UvgTorrent
