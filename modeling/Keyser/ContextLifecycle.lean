import Keyser.Connections

namespace Keyser.ContextLifecycle
open PeerInfo Connections Runs

variable {Address : Type} {makeAddress : Hex.Text → Option Address}

structure Healthy (s : NetInterface Address) : Prop where
  assigned : s.terminated = false
  served : s.serving = true → s.contextThr = some .running ∧ s.stopped = false

-- start comes first and once, nothing is connected behind a stop, and the context is never
-- out of work.
def Orderly (makeAddress : Hex.Text → Option Address) (s : NetInterface Address) : Event Address → Prop
  | .connect endpoint dial => Connects makeAddress s endpoint dial → s.stopped = false
  | .start => s.contextThr = none ∧ s.stopped = false
  | .finish more => 0 < s.accepting + (s.operations - 1 + more)
  | _ => True

structure Invariant (s : NetInterface Address) : Prop where
  behind : s.contextThr ≠ none → s.serving = true
  finished : s.contextThr = some .returned → s.stopped = true

theorem fresh_healthy (selfEndpoint : Endpoint) : Healthy (fresh selfEndpoint : NetInterface Address) := ⟨rfl,nofun⟩

theorem fresh_invariant (selfEndpoint : Endpoint) : Invariant (fresh selfEndpoint : NetInterface Address) :=
  ⟨fun joinable => absurd rfl joinable,nofun⟩

-- A thread that is there is still running while the context is not stopped.
theorem thread_running {s : NetInterface Address} (inv : Invariant s) (open_ : s.stopped = false) :
    s.contextThr.getD .running = .running := by
  cases thread : s.contextThr with
  | none => rfl
  | some thread' =>
      cases thread' with
      | running => rfl
      | returned => exact absurd (open_.symm.trans (inv.finished thread)) (by decide)

theorem connect_exact {s : NetInterface Address} (inv : Invariant s) (healthy : Healthy s) (endpoint : Endpoint)
    (dial : Dial Address) : Healthy (connect makeAddress s endpoint dial).2 ↔
      (Connects makeAddress s endpoint dial → s.stopped = false) := by
  rcases connect_cases makeAddress s endpoint dial with
    ⟨connects,remote,_,connected⟩ | ⟨connects,idCounter,assigned,operations,failed,_⟩
  · rw [connected]
    constructor
    · intro after _
      exact (after.served rfl).2
    · intro goes
      refine ⟨healthy.assigned,fun _ => ⟨?_,goes connects⟩⟩
      rw [thread_running inv (goes connects)]
  · rw [failed]
    exact iff_of_true ⟨healthy.assigned,healthy.served⟩ fun connects' => absurd connects' connects

theorem start_exact {s : NetInterface Address} (healthy : Healthy s) :
    Healthy (start s).2 ↔ s.contextThr = none ∧ s.stopped = false := by
  cases thread : s.contextThr with
  | some thread' =>
      refine iff_of_false ?_ nofun
      intro after
      have ended := after.assigned
      simp [start,NetInterface.launch,thread] at ended
  | none =>
      simp only [start,NetInterface.launch,thread,true_and]
      constructor
      · intro after
        exact (after.served rfl).2
      · intro goes
        exact ⟨healthy.assigned,fun _ => ⟨rfl,goes⟩⟩

theorem finish_exact {s : NetInterface Address} (inv : Invariant s) (healthy : Healthy s) (runs : s.runs = true)
    (more : Nat) : Healthy (finish s more) ↔ 0 < s.accepting + (s.operations - 1 + more) := by
  simp only [NetInterface.runs,Bool.and_eq_true,decide_eq_true_eq] at runs
  have serving := inv.behind (by simp [runs.1])
  constructor
  · intro after
    have working := (after.served serving).2
    simp only [finish,decide_eq_false_iff_not] at working
    omega
  · intro working
    refine ⟨healthy.assigned,fun _ => ⟨runs.1,decide_eq_false ?_⟩⟩
    simp only
    omega

theorem step_exact (s : NetInterface Address) (event : Event Address) (next : NetInterface Address)
    (inv : Invariant s) (healthy : Healthy s) (stepped : step makeAddress s event = some next) :
    Healthy next ↔ Orderly makeAddress s event := by
  obtain ⟨alive,taken⟩ := step_taken stepped
  cases taken with
  | connect => exact connect_exact inv healthy _ _
  | start => exact start_exact healthy
  | finish runs => exact finish_exact inv healthy runs _
  | stop => exact iff_of_true ⟨over_terminated alive,nofun⟩ trivial
  | returned running stopped =>
      refine iff_of_true ⟨over_terminated alive,fun serving => ?_⟩ trivial
      exact absurd (stopped.symm.trans (healthy.served serving).2) (by decide)
  | @accept accepted => cases accepted <;> exact iff_of_true ⟨healthy.assigned,healthy.served⟩ trivial
  | post | raised | disconnect | kept | pruned => exact iff_of_true ⟨healthy.assigned,healthy.served⟩ trivial

theorem step_invariant {s next : NetInterface Address} (inv : Invariant s)
    (stepped : step makeAddress s event = some next) : Invariant next := by
  obtain ⟨_,taken⟩ := step_taken stepped
  cases taken with
  | @connect endpoint dial =>
      rcases connect_cases makeAddress s endpoint dial with
        ⟨connects,remote,_,connected⟩ | ⟨connects,idCounter,assigned,operations,failed,_⟩
      · rw [connected]
        refine ⟨fun _ => rfl,fun returned => inv.finished ?_⟩
        cases thread : s.contextThr <;> simp_all
      · rw [failed]
        exact ⟨inv.behind,inv.finished⟩
  | start =>
      refine ⟨fun _ => rfl,fun returned => ?_⟩
      have finished := inv.finished
      cases thread : s.contextThr <;> simp_all [start,NetInterface.launch]
  | stop => exact ⟨fun joinable => absurd rfl joinable,fun returned => by cases returned⟩
  | returned running stopped => exact ⟨fun _ => inv.behind (by simp [running]),fun _ => stopped⟩
  | finish runs =>
      simp only [NetInterface.runs,Bool.and_eq_true,decide_eq_true_eq] at runs
      exact ⟨inv.behind,fun returned => absurd (runs.1.symm.trans returned) (by decide)⟩
  | @accept accepted => cases accepted <;> exact ⟨inv.behind,inv.finished⟩
  | post | raised | disconnect | kept | pruned => exact ⟨inv.behind,inv.finished⟩

theorem healthy_iff (makeAddress : Hex.Text → Option Address) (selfEndpoint : Endpoint)
    (events : List (Event Address)) : Throughout (step makeAddress) Healthy (fresh selfEndpoint) events ↔
      Along (step makeAddress) (Orderly makeAddress) (fresh selfEndpoint) events :=
  throughout_iff step_exact (fun _ _ _ inv _ stepped _ => step_invariant inv stepped)
    (fresh_invariant selfEndpoint) (fresh_healthy selfEndpoint)

-- /startserver twice
theorem healthy_fails : ¬ Throughout (step loopbackOnly) Healthy (fresh unknown) [.start,.start] := by
  intro throughout
  exact absurd (throughout _ _ (List.prefix_refl _) rfl).assigned (by decide)

end Keyser.ContextLifecycle
