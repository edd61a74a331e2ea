import Keyser.Runs

namespace Keyser.Ownership
open Runs

variable {State Event Object : Type} {step : State → Event → Option State}

-- Objects with counted owners, and work that waits for them.
structure Counting (State Object : Type) where
  useCount : State → Object → Nat
  pending : State → Object → Bool

variable {counting : Counting State Object} {s next : State} {lost : Option Object}

def Counting.Owned (counting : Counting State Object) (s : State) : Prop :=
  ∀ object, counting.pending s object = true → 0 < counting.useCount s object

-- What a step does to the owners and the work: it gives up one owner of one object and
-- nothing else, or none at all and starts work for owned objects only.
inductive Counting.Changes [DecidableEq Object] (counting : Counting State Object) (s next : State) :
    Option Object → Prop where
  | keeps (started : ∀ object, counting.pending next object = true →
        counting.pending s object = true ∨ 0 < counting.useCount next object)
      (kept : ∀ object, 0 < counting.useCount s object → 0 < counting.useCount next object) :
      counting.Changes s next none
  | loses (object : Object) (same : ∀ other, counting.pending next other = counting.pending s other)
      (counts : ∀ other, counting.useCount s other = counting.useCount next other + if other = object then 1 else 0) :
      counting.Changes s next (some object)

-- The owner given up is not the last one of an object with work.
def Counting.Shared (counting : Counting State Object) (s : State) (lost : Option Object) : Prop :=
  ∀ object ∈ lost, counting.pending s object = true → 2 ≤ counting.useCount s object

variable [DecidableEq Object]

theorem Counting.Changes.owned_iff (changes : counting.Changes s next lost) (owned : counting.Owned s) :
    counting.Owned next ↔ counting.Shared s lost := by
  cases changes with
  | keeps started kept =>
      refine iff_of_true (fun object pending => ?_) nofun
      rcases started object pending with before | positive
      · exact kept object (owned object before)
      · exact positive
  | loses object same counts =>
      constructor
      · intro later other isLost pending
        cases isLost
        have left := later object (by rwa [same])
        have count := counts object
        rw [if_pos rfl] at count
        omega
      · intro shared other pending
        rw [same] at pending
        have before := owned other pending
        have count := counts other
        by_cases equal : other = object
        · have twice := shared other (by rw [equal]; rfl) pending
          rw [if_pos equal] at count
          omega
        · rw [if_neg equal] at count
          omega

theorem Counting.throughout_owned {releases : State → Event → Option Object} {events : List Event}
    (changes : ∀ s event next, step s event = some next → counting.Changes s next (releases s event))
    (start : counting.Owned s) : Throughout step counting.Owned s events ↔
      Along step (fun s event => counting.Shared s (releases s event)) s events :=
  @throughout_iff _ _ step s events counting.Owned (fun _ => True) _
    (fun s event next _ owned stepped => (changes s event next stepped).owned_iff owned)
    (fun _ _ _ _ _ _ _ => trivial) trivial start

end Keyser.Ownership
