import Mathlib.Data.List.Induction
import Mathlib.Data.List.Nodup
import UvgTorrent.Library.EventLog

/-!
# Logs of ownership

A log of creations and releases is sound when only what was created is
released, and nothing twice.  `Owned` follows a sound log: what is still held,
and what may have been created so far.
-/

namespace OwnershipLog

open EventLog

inductive Ownership (Thing : Type) where
  | created (thing : Thing)
  | released (thing : Thing)
  deriving DecidableEq, Repr

variable {Thing : Type}

/-- What is released was created before. -/
def ReleasesCreated (before : List (Ownership Thing)) :
    Ownership Thing → Prop
  | .created _ => True
  | .released thing => .created thing ∈ before

/-- And it was not released before. -/
def ReleasesLive (before : List (Ownership Thing)) : Ownership Thing → Prop
  | .created _ => True
  | .released thing => .created thing ∈ before ∧ .released thing ∉ before

structure Owned (held made : Thing → Prop)
    (log : List (Ownership Thing)) : Prop where
  sound : Orderly ReleasesLive log
  created : ∀ thing, held thing → .created thing ∈ log
  kept : ∀ thing, held thing → .released thing ∉ log
  made : ∀ thing, .created thing ∈ log → made thing

section Sound

variable {log : List (Ownership Thing)} {thing : Thing}

theorem created_of_released (sound : Orderly ReleasesLive log)
    (member : .released thing ∈ log) : .created thing ∈ log := by
  rcases List.append_of_mem member with ⟨before, after, split⟩
  have earlier := (sound before _ after split).1
  rw [split]
  exact List.mem_append_left _ earlier

theorem releasesCreated_of_live (sound : Orderly ReleasesLive log) :
    Orderly ReleasesCreated log := by
  intro before event after split
  have live := sound before event after split
  cases event with
  | created thing => trivial
  | released thing => exact live.1

theorem released_once [DecidableEq Thing] (sound : Orderly ReleasesLive log)
    (thing : Thing) : log.count (.released thing) ≤ 1 := by
  induction log using List.reverseRecOn with
  | nil =>
      exact Nat.zero_le 1
  | append_singleton log event inductionHypothesis =>
      have front : Orderly ReleasesLive log := orderly_front sound
      rw [List.count_append]
      by_cases same : event = .released thing
      · have live := sound log event [] rfl
        rw [same] at live
        have none := List.count_eq_zero.mpr live.2
        rw [none, same, List.count_singleton_self]
      · have none : [event].count (.released thing) = 0 := by
          rw [List.count_eq_zero, List.mem_singleton]
          exact fun equal => same equal.symm
        rw [none]
        exact inductionHypothesis front

end Sound

section Owned

variable {held made : Thing → Prop} {log : List (Ownership Thing)}
  {thing : Thing}

theorem Owned.weaken {less more : Thing → Prop} (owned : Owned held made log)
    (fewer : ∀ thing, less thing → held thing)
    (further : ∀ thing, made thing → more thing) : Owned less more log where
  sound := owned.sound
  created := fun thing holds => owned.created thing (fewer thing holds)
  kept := fun thing holds => owned.kept thing (fewer thing holds)
  made := fun thing member => further thing (owned.made thing member)

theorem Owned.create (owned : Owned held made log) (fresh : ¬ made thing) :
    Owned (fun other => other = thing ∨ held other)
      (fun other => other = thing ∨ made other)
      (log ++ [.created thing]) where
  sound := orderly_snoc owned.sound trivial
  created := by
    rintro other (rfl | holds)
    · exact List.mem_append_right _ (List.mem_singleton_self _)
    · exact List.mem_append_left _ (owned.created other holds)
  kept := by
    intro other holds member
    have earlier : .released other ∈ log := by
      rcases List.mem_append.mp member with earlier | last
      · exact earlier
      · cases List.mem_singleton.mp last
    rcases holds with rfl | holds
    · exact fresh (owned.made other
        (created_of_released owned.sound earlier))
    · exact owned.kept other holds earlier
  made := by
    intro other member
    rcases List.mem_append.mp member with earlier | last
    · exact .inr (owned.made other earlier)
    · cases List.mem_singleton.mp last
      exact .inl rfl

theorem Owned.release (owned : Owned held made log) (holds : held thing) :
    Owned (fun other => held other ∧ other ≠ thing) made
      (log ++ [.released thing]) where
  sound := by
    have live : ReleasesLive log (.released thing) :=
      ⟨owned.created thing holds, owned.kept thing holds⟩
    exact orderly_snoc owned.sound live
  created := fun other further =>
    List.mem_append_left _ (owned.created other further.1)
  kept := by
    rintro other ⟨further, different⟩ member
    rcases List.mem_append.mp member with earlier | last
    · exact owned.kept other further earlier
    · cases List.mem_singleton.mp last
      exact different rfl
  made := by
    intro other member
    rcases List.mem_append.mp member with earlier | last
    · exact owned.made other earlier
    · cases List.mem_singleton.mp last

/-- Different things that are held are released one after another. -/
theorem Owned.releaseAll {things : List Thing} (owned : Owned held made log)
    (nodup : things.Nodup) (all : ∀ thing ∈ things, held thing) :
    Owned (fun other => held other ∧ other ∉ things) made
      (log ++ things.map .released) := by
  induction things generalizing held log with
  | nil =>
      rw [List.map_nil, List.append_nil]
      exact owned.weaken (fun _ holds => holds.1) (fun _ isMade => isMade)
  | cons first rest inductionHypothesis =>
      rcases List.nodup_cons.mp nodup with ⟨absent, others⟩
      have released := owned.release (all first List.mem_cons_self)
      have further := inductionHypothesis released others (by
        intro thing member
        refine ⟨all thing (List.mem_cons_of_mem first member), ?_⟩
        rintro rfl
        exact absent member)
      rw [List.append_assoc] at further
      refine further.weaken (fun other holds => ?_) (fun _ isMade => isMade)
      exact ⟨⟨holds.1, fun same => holds.2 (same ▸ List.mem_cons_self)⟩,
        fun member => holds.2 (List.mem_cons_of_mem first member)⟩

end Owned

end OwnershipLog
