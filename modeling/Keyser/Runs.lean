import Mathlib.Algebra.Order.BigOperators.Group.List
import Mathlib.Algebra.Order.Group.Nat

namespace Keyser.Runs

-- A partial machine refuses an event with `none`; a run has no refused event.
variable {State : Type*} {Event : Type*} {step : State → Event → Option State}
  {s next : State} {events first second : List Event}

def run (step : State → Event → Option State) : State → List Event → Option State
  | s,[] => some s
  | s,event :: rest => (step s event).bind (run step · rest)

theorem run_cons (ran : run step s (event :: rest) = some next) :
    ∃ middle, step s event = some middle ∧ run step middle rest = some next :=
  Option.bind_eq_some_iff.mp ran

theorem run_append : run step s (first ++ second) = (run step s first).bind (run step · second) := by
  induction first generalizing s with
  | nil => rfl
  | cons event rest ih =>
      cases stepped : step s event with
      | none => simp [run,stepped]
      | some middle => simp [run,stepped,ih]

theorem run_snoc (ran : run step s events = some middle) (stepped : step middle event = some next) :
    run step s (events ++ [event]) = some next := by
  simp [run_append,ran,run,stepped]

theorem run_concat : run step s (events ++ [event]) = (run step s events).bind (step · event) := by
  simp [run_append,run]

theorem invariant {inv : State → Prop}
    (kept : ∀ s event next, inv s → step s event = some next → inv next)
    (start : inv s) (ran : run step s events = some next) : inv next := by
  induction events generalizing s with
  | nil => cases Option.some.inj ran; exact start
  | cons event rest ih =>
      obtain ⟨middle,stepped,remaining⟩ := run_cons ran
      exact ih (kept _ _ _ start stepped) remaining

-- An invariant that speaks of the events there have been.
theorem recorded {inv : List Event → State → Prop}
    (kept : ∀ past s event next, inv past s → step s event = some next → inv (past ++ [event]) next)
    (start : inv [] s) (ran : run step s events = some next) : inv events next := by
  have onward (events past : List Event) {s : State} (now : inv past s) (ran : run step s events = some next) :
      inv (past ++ events) next := by
    induction events generalizing past s with
    | nil => cases Option.some.inj ran; rwa [List.append_nil]
    | cons event rest ih =>
        obtain ⟨middle,stepped,remaining⟩ := run_cons ran
        rw [List.append_cons]
        exact ih _ (kept _ _ _ _ now stepped) remaining
  exact onward events [] start ran

-- Forward simulation: where every step is matched by steps of the other machine, a run is by a run.
theorem simulated {Other OtherEvent : Type*} {a : Other} {other : Other → OtherEvent → Option Other}
    {shows : State → Other → Prop}
    (steps : ∀ s a event next, shows s a → step s event = some next →
      ∃ (others : List OtherEvent) (after : Other), run other a others = some after ∧ shows next after)
    (start : shows s a) (ran : run step s events = some next) :
    ∃ (others : List OtherEvent) (after : Other), run other a others = some after ∧ shows next after := by
  induction events generalizing s a with
  | nil => cases Option.some.inj ran; exact ⟨[],a,rfl,start⟩
  | cons event rest ih =>
      obtain ⟨middle,stepped,remaining⟩ := run_cons ran
      obtain ⟨first,between,went,kept⟩ := steps _ _ _ _ start stepped
      obtain ⟨second,after,goes,ends⟩ := ih kept remaining
      exact ⟨first ++ second,after,by rw [run_append,went]; exact goes,ends⟩

-- Where an invariant lets the measure be run down a little, it can be run down to nothing.
theorem exhaust {inv : State → Prop} {measure : State → Nat} {kind : Event → Prop}
    (advance : ∀ s, inv s → 0 < measure s → ∃ (events : List Event) (next : State), (∀ event ∈ events, kind event) ∧
      run step s events = some next ∧ inv next ∧ measure next < measure s)
    (start : inv s) : ∃ (events : List Event) (next : State), (∀ event ∈ events, kind event) ∧
      run step s events = some next ∧ inv next ∧ measure next = 0 := by
  induction size : measure s using Nat.strongRecOn generalizing s with
  | ind total ih =>
    rcases Nat.eq_zero_or_pos (measure s) with none | some
    · exact ⟨[],s,by simp,rfl,start,none⟩
    · obtain ⟨first,middle,kinds,ran,held,less⟩ := advance s start some
      obtain ⟨rest,next,others,went,kept,none⟩ := ih (measure middle) (size ▸ less) held rfl
      refine ⟨first ++ rest,next,?_,by rw [run_append,ran]; exact went,kept,none⟩
      intro event member
      rcases List.mem_append.mp member with early | late
      · exact kinds event early
      · exact others event late

-- Of several measures each can be run down without another's going up: so all can be together.
theorem exhaust_each {Item : Type*} {inv : State → Prop} {measure : Item → State → Nat} {kind : Event → Prop}
    (items : List Item)
    (advance : ∀ s, inv s → ∀ item ∈ items, 0 < measure item s → ∃ (events : List Event) (next : State),
      (∀ event ∈ events, kind event) ∧ run step s events = some next ∧ inv next ∧
      measure item next < measure item s ∧ ∀ other ∈ items, measure other next ≤ measure other s)
    (start : inv s) : ∃ (events : List Event) (next : State), (∀ event ∈ events, kind event) ∧
      run step s events = some next ∧ inv next ∧ ∀ item ∈ items, measure item next = 0 := by
  have onward (s : State) (held : inv s) (left : 0 < (items.map (measure · s)).sum) :
      ∃ (events : List Event) (next : State), (∀ event ∈ events, kind event) ∧ run step s events = some next ∧
        inv next ∧ (items.map (measure · next)).sum < (items.map (measure · s)).sum := by
    obtain ⟨amount,listed,positive⟩ := List.sum_pos_iff_exists_pos_nat.mp left
    obtain ⟨item,member,rfl⟩ := List.mem_map.mp listed
    obtain ⟨events,next,kinds,ran,kept,less,others⟩ := advance s held item member positive
    exact ⟨events,next,kinds,ran,kept,List.sum_lt_sum _ _ others ⟨item,member,less⟩⟩
  obtain ⟨events,next,kinds,ran,kept,none⟩ := exhaust onward start
  refine ⟨events,next,kinds,ran,kept,fun item member => ?_⟩
  exact List.sum_eq_zero_iff.mp none _ (List.mem_map_of_mem member)

-- Every event that is taken meets `allowed`; a refused one carries no obligation.
def Along (step : State → Event → Option State) (allowed : State → Event → Prop) :
    State → List Event → Prop
  | _,[] => True
  | s,event :: rest => ∀ next, step s event = some next → allowed s event ∧ Along step allowed next rest

instance alongDecidable (step : State → Event → Option State) (allowed : State → Event → Prop)
    [∀ s event, Decidable (allowed s event)] (s : State) (events : List Event) :
    Decidable (Along step allowed s events) :=
  match events with
  | [] => .isTrue trivial
  | event :: rest =>
    match stepped : step s event with
    | none => .isTrue fun _ taken => by rw [stepped] at taken; cases taken
    | some next =>
      have := alongDecidable step allowed next rest
      decidable_of_iff (allowed s event ∧ Along step allowed next rest)
        ⟨fun both _ taken => by cases stepped.symm.trans taken; exact both,fun along => along next stepped⟩

theorem Along.last (along : Along step allowed s (events ++ [event]))
    (ran : run step s events = some middle) (stepped : step middle event = some next) :
    allowed middle event := by
  induction events generalizing s with
  | nil => cases Option.some.inj ran; exact (along next stepped).1
  | cons first rest ih =>
      obtain ⟨second,taken,remaining⟩ := run_cons ran
      exact ih (along second taken).2 remaining

theorem along_invariant {inv : State → Prop}
    (kept : ∀ s event next, inv s → allowed s event → step s event = some next → inv next)
    (start : inv s) (along : Along step allowed s events) (ran : run step s events = some next) :
    inv next := by
  induction events generalizing s with
  | nil => cases Option.some.inj ran; exact start
  | cons event rest ih =>
      obtain ⟨middle,stepped,remaining⟩ := run_cons ran
      obtain ⟨here,later⟩ := along middle stepped
      exact ih (kept _ _ _ start here stepped) later remaining

-- On the steps of invariant states one condition implies the other: so it does on runs.
theorem Along.mono {inv : State → Prop} {one two : State → Event → Prop}
    (kept : ∀ s event next, inv s → one s event → step s event = some next → inv next)
    (implied : ∀ s event, inv s → one s event → two s event)
    (start : inv s) (along : Along step one s events) : Along step two s events := by
  induction events generalizing s with
  | nil => trivial
  | cons event rest ih =>
      intro next stepped
      obtain ⟨here,later⟩ := along next stepped
      exact ⟨implied _ _ start here,ih (kept _ _ _ start here stepped) later⟩

theorem along_true : Along step (fun _ _ => True) s events := by
  induction events generalizing s with
  | nil => trivial
  | cons event rest ih => exact fun next _ => ⟨trivial,ih⟩

theorem along_of {allowed : Event → Prop} (all : ∀ event ∈ events, allowed event) :
    Along step (fun _ event => allowed event) s events := by
  induction events generalizing s with
  | nil => trivial
  | cons event rest ih =>
      exact fun next _ => ⟨all event (List.mem_cons_self ..),
        ih fun later member => all later (List.mem_cons_of_mem _ member)⟩

-- In every state the run comes to.
def Throughout (step : State → Event → Option State) (good : State → Prop) (s : State) (events : List Event) : Prop :=
  ∀ early reached, early <+: events → run step s early = some reached → good reached

-- The rule for an exact condition: a step out of a good state ends in one if and only if
-- it is allowed.
theorem throughout_iff {good inv : State → Prop} {allowed : State → Event → Prop}
    (exact : ∀ s event next, inv s → good s → step s event = some next → (good next ↔ allowed s event))
    (kept : ∀ s event next, inv s → good s → step s event = some next → good next → inv next)
    (start : inv s) (begins : good s) : Throughout step good s events ↔ Along step allowed s events := by
  induction events generalizing s with
  | nil =>
      refine iff_of_true ?_ trivial
      intro early reached before ran
      rw [List.prefix_nil.mp before] at ran
      cases Option.some.inj ran
      exact begins
  | cons event rest ih =>
      constructor
      · intro throughout next stepped
        have goes := throughout [event] next (List.prefix_append [event] rest) (by simp [run,stepped])
        have allowed := (exact s event next start begins stepped).mp goes
        refine ⟨allowed,(ih (kept s event next start begins stepped goes) goes).mp ?_⟩
        intro early reached before ran
        exact throughout (event :: early) reached (List.cons_prefix_cons.mpr ⟨rfl,before⟩) (by simp [run,stepped,ran])
      · intro along early reached before ran
        cases early with
        | nil => cases Option.some.inj ran; exact begins
        | cons first early =>
            obtain ⟨rfl,within⟩ := List.cons_prefix_cons.mp before
            obtain ⟨next,stepped,ran⟩ := run_cons ran
            obtain ⟨allowed,later⟩ := along next stepped
            have goes := (exact s first next start begins stepped).mpr allowed
            exact (ih (kept s first next start begins stepped goes) goes).mpr later early reached within ran

end Keyser.Runs
