import Keyser.Shutdown

namespace Keyser.Exiting
open Runs MainMenu MessagePump Shutdown

variable {Message : Type} {linkage : Linkage} {s next : System Message}

-- The main thread has left the loop of MainMenu::start.
def past : Ui → Bool
  | .leaving | .stopping | .joining | .ended => true
  | _ => false

theorem step_pump (stepped : step linkage s event = some next) :
    next.pump = s.pump ∨ (∃ msg, next.pump = s.pump.pushBack msg) ∨
      s.pump.step (s.sees linkage .netInterface) = some next.pump := by
  unfold step at stepped
  split at stepped
  · cases stepped
  · cases event with
    | ui ch => exact .inl (uiStep_facts stepped).2.1
    | arrive msg => cases stepped; exact .inr (.inl ⟨msg,rfl⟩)
    | pump => exact .inr (.inr (pumpStep_facts stepped).2.1)
    | miner event =>
        obtain ⟨miner,_,rfl⟩ := Option.map_eq_some_iff.mp stepped
        exact .inl rfl
    | returned | raised => simp only at stepped; split at stepped <;> cases stepped; exact .inl rfl

-- Where a step takes the main thread, with what the way behind the loop depends on.
inductive Moved (s next : System Message) : Prop where
  | stays (ui : next.ui = s.ui) (stopped : next.stopped = s.stopped) (requested : next.requested = s.requested)
  | aborts (ui : next.ui = .aborted) (requested : next.requested = s.requested)
  | loops (was : past s.ui = false) (ui : past next.ui = false ∨ next.ui = .leaving)
  | stops (was : s.ui = .leaving) (ui : next.ui = .stopping) (stopped : next.stopped = true)
      (requested : next.requested = s.requested)
  | joins (was : s.ui = .stopping) (ui : next.ui = .joining) (requested : next.requested = s.requested)
  | ends (was : s.ui = .joining) (gone : s.pump.pc = .ended) (ui : next.ui = .ended)
      (requested : next.requested = s.requested)

theorem uiStep_moved (stepped : uiStep linkage s ch = some next) : Moved s next := by
  cases place : s.ui <;> simp only [uiStep,place,reduceCtorEq] at stepped
  case test =>
    cases stepped
    refine .loops (by rw [place]; rfl) ?_
    cases s.sees linkage .mainMenu
    · exact .inl rfl
    · exact .inr rfl
  case key =>
    have was : past s.ui = false := by rw [place]; rfl
    split at stepped
    · cases stepped; exact .loops was (.inr rfl)
    · split at stepped <;> cases stepped
      · exact .loops was (.inl rfl)
      · refine .loops was (.inl ?_)
        unfold System.handle
        split
        · rfl
        · split <;> rfl
        · rfl
  case leaving => cases stepped; exact .stops place rfl rfl rfl
  case stopping => split at stepped <;> cases stepped <;> exact .joins place rfl rfl
  case joining =>
    split at stepped <;> cases stepped
    rename_i gone
    exact .ends place gone rfl rfl

theorem step_moved (stepped : step linkage s event = some next) : Moved s next := by
  unfold step at stepped
  split at stepped
  · cases stepped
  · cases event with
    | ui ch => exact uiStep_moved stepped
    | arrive msg => cases stepped; exact .stays rfl rfl rfl
    | pump =>
        obtain ⟨pump,_,result⟩ := Option.map_eq_some_iff.mp stepped
        cases place : s.pump.pc <;> simp only [place] at result <;> subst result <;> exact .stays rfl rfl rfl
    | miner event =>
        obtain ⟨miner,_,rfl⟩ := Option.map_eq_some_iff.mp stepped
        exact .stays rfl rfl rfl
    | returned =>
        simp only at stepped
        split at stepped <;> cases stepped
        exact .stays rfl rfl rfl
    | raised =>
        simp only at stepped
        split at stepped <;> cases stepped
        exact .aborts rfl rfl

theorem step_ended (stepped : step linkage s event = some next) (ended : next.ui = .ended) :
    s.ui = .ended ∨ s.pump.pc = .ended := by
  cases step_moved stepped with
  | stays ui => exact .inl (ui ▸ ended)
  | ends _ gone => exact .inr gone
  | loops _ ui =>
      rw [ended] at ui
      exact absurd ui (by decide)
  | aborts ui | stops _ ui | joins _ ui => cases ui.symm.trans ended

-- The context is stopped before its thread is joined.
theorem step_stopping (stops : s.ui = .stopping → s.stopped = true) (stepped : step linkage s event = some next)
    (stopping : next.ui = .stopping) : next.stopped = true := by
  cases step_moved stepped with
  | stays ui stopped => exact stopped.trans (stops (ui ▸ stopping))
  | stops _ _ stopped => exact stopped
  | loops _ ui =>
      rw [stopping] at ui
      exact absurd ui (by decide)
  | aborts ui | joins _ ui | ends _ _ ui => cases ui.symm.trans stopping

theorem pump_waits {pump after : Pump Message}
    (waiting : ∀ msgCount, pump.pc = .popping msgCount → pump.mMessagesIn ≠ [])
    (stepped : pump.step shutdown = some after) :
    ∀ msgCount, after.pc = .popping msgCount → after.mMessagesIn ≠ [] := by
  intro msgCount popping
  unfold Pump.step at stepped
  cases place : pump.pc <;> simp only [place] at stepped waiting
  case test => cases stepped; cases shutdown <;> cases popping
  case counting =>
    split at stepped <;> cases stepped
    · rename_i admits
      simp only [Bool.and_eq_true,decide_eq_true_eq,Bool.not_eq_true',List.isEmpty_eq_false_iff] at admits
      exact admits.2
    · cases popping
  case popping =>
    split at stepped <;> cases stepped
    · rename_i empty
      exact absurd empty (waiting _ rfl)
    · cases popping
  case handling => cases stepped; cases popping
  case ended => cases stepped

-- What the pump's test reads, and how far the pump and the main thread can be for it.
structure Invariant (linkage : Linkage) (s : System Message) : Prop where
  flag : s.sees linkage .netInterface = true ↔ linkage = .external ∧ s.requested = true
  pump : s.pump.pc = .ended → linkage = .external ∧ s.requested = true
  exited : s.ui = .ended → s.pump.pc = .ended
  stops : s.ui = .stopping → s.stopped = true
  waiting : ∀ msgCount, s.pump.pc = .popping msgCount → s.pump.mMessagesIn ≠ []

theorem fresh_invariant (linkage : Linkage) (maxMessages : UInt8) :
    Invariant linkage (Shutdown.fresh maxMessages : System Message) :=
  ⟨by simp [System.sees,Shutdown.fresh],by simp [Shutdown.fresh,MessagePump.fresh],by simp [Shutdown.fresh],
    by simp [Shutdown.fresh],by simp [Shutdown.fresh,MessagePump.fresh]⟩

theorem flags_seen (flags : Flags linkage s next)
    (flag : s.sees linkage .netInterface = true ↔ linkage = .external ∧ s.requested = true) :
    (next.sees linkage .netInterface = true ↔ linkage = .external ∧ next.requested = true) ∧
      (s.requested = true → next.requested = true) := by
  rcases flags with ⟨flags,requested⟩ | ⟨flags,requested⟩
  · rw [System.sees,flags,requested]
    exact ⟨flag,id⟩
  · refine ⟨?_,fun _ => requested⟩
    rw [System.sees,flags,requested]
    cases linkage with
    | internal =>
        rw [Linkage.object,Linkage.object,Function.update_of_ne (by simp)]
        exact flag.trans (by simp)
    | external =>
        rw [Linkage.object,Linkage.object,Function.update_self]
        simp

theorem step_invariant (s : System Message) (event : Event Message) (next : System Message) (inv : Invariant linkage s)
    (stepped : step linkage s event = some next) : Invariant linkage next := by
  obtain ⟨seen,stays⟩ := flags_seen (step_cases stepped).1 inv.flag
  have moved := step_pump stepped
  have gone (ended : s.pump.pc = .ended) : next.pump.pc = .ended := by
    rcases moved with same | ⟨msg,same⟩ | ticked
    · rw [same,ended]
    · rw [same]
      exact ended
    · rw [ended_stays ended] at ticked
      cases ticked
  refine ⟨seen,fun ended => ?_,fun ended => ?_,step_stopping inv.stops stepped,?_⟩
  · have was : linkage = .external ∧ s.requested = true := by
      rcases moved with same | ⟨msg,same⟩ | ticked
      · exact inv.pump (same ▸ ended)
      · rw [same] at ended
        exact inv.pump ended
      · exact inv.flag.mp (MessagePump.step_ended ticked ended).2
    exact ⟨was.1,stays was.2⟩
  · rcases step_ended stepped ended with already | joined
    · exact gone (inv.exited already)
    · exact gone joined
  · rcases moved with same | ⟨msg,same⟩ | ticked
    · rw [same]
      exact inv.waiting
    · rw [same]
      simp [Pump.pushBack]
    · exact pump_waits inv.waiting ticked

def closes : Event Message → Bool
  | .ui _ | .pump | .returned => true
  | _ => false

end Keyser.Exiting
