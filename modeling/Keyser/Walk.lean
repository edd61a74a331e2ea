import Mathlib.Logic.Basic

namespace Keyser.Walk

variable {α : Type*} {f g : Nat → α → α}

def walk (f : Nat → α → α) : (start count : Nat) → α → α
  | _,0,a => a
  | start,count + 1,a => walk f (start + 1) count (f start a)

theorem walk_add (start first second : Nat) (a : α) :
    walk f start (first + second) a = walk f (start + first) second (walk f start first a) := by
  induction first generalizing start a with
  | zero => simp [walk]
  | succ first ih =>
      rw [Nat.add_right_comm,walk,walk,ih,Nat.add_right_comm start 1 first]
      rfl

theorem walk_snoc (start count : Nat) (a : α) :
    walk f start (count + 1) a = f (start + count) (walk f start count a) := by
  rw [walk_add]
  rfl

theorem walk_congr {start count : Nat} (same : ∀ t < count, ∀ a, f (start + t) a = g (start + t) a) (a : α) :
    walk f start count a = walk g start count a := by
  induction count with
  | zero => rfl
  | succ count ih =>
      rw [walk_snoc,walk_snoc,ih fun t early => same t (by omega),same count (by omega)]

theorem walk_shift (periodic : ∀ i, f (i + n) = f i) (start count : Nat) (a : α) :
    walk f (start + n) count a = walk f start count a := by
  induction count generalizing start a with
  | zero => rfl
  | succ count ih => rw [walk,walk,Nat.add_right_comm,ih,periodic]

-- A round that comes back to where it began does so from every point on it.
theorem walk_closed (periodic : ∀ i, f (i + n) = f i) (closes : walk f start n a = a) (ahead : Nat) :
    walk f (start + ahead) n (walk f start ahead a) = walk f start ahead a := by
  rw [← walk_add,Nat.add_comm ahead n,walk_add,walk_shift periodic,closes]

end Keyser.Walk
