import Keyser.Connections
import Keyser.MainMenu
import Keyser.MessagePump
import Keyser.Mining
import Mathlib.Logic.Function.Basic

namespace Keyser.Shutdown
open Runs Hex MainMenu MessagePump
open Connections (ContextThread)

variable {Message : Type} {linkage : Linkage}

inductive SourceFile where
  | mainMenu
  | netInterface
  | miner
  deriving DecidableEq

-- Internal linkage gives every file that includes App.hpp an object of its own.
inductive Linkage where
  | internal
  | external

inductive FlagObject where
  | own (file : SourceFile)
  | shared
  deriving DecidableEq

def Linkage.object : Linkage → SourceFile → FlagObject
  | .internal,file => .own file
  | .external,_ => .shared

-- App.hpp declares mShutdown static at namespace scope.
def appLinkage : Linkage := .internal

-- App::init's thread: the loop of MainMenu::start, then ~NetInterface, which stops the context
-- and joins its thread, and the pump's after it. The process is over where an exception leaves
-- handleInput or a handler of the context, and where a second thread is put over the first.
inductive Ui where
  | test
  | key
  | leaving
  | stopping
  | joining
  | ended
  | aborted
  deriving DecidableEq

-- History: handleInput has processed /shutdown, and it had at the pump's last test.
structure System (Message : Type) where
  mShutdown : FlagObject → Bool
  menu : Menu
  ui : Ui
  pump : Pump Message
  miner : Mining.Miner
  contextThr : Option ContextThread
  stopped : Bool
  requested : Bool
  late : Bool

def fresh (maxMessages : UInt8) : System Message :=
  ⟨fun _ => false,freshMenu,.test,MessagePump.fresh maxMessages,Mining.fresh,none,false,false,false⟩

def System.sees (s : System Message) (linkage : Linkage) (file : SourceFile) : Bool :=
  s.mShutdown (linkage.object file)

def System.handle (s : System Message) (linkage : Linkage) : Option Request → System Message
  | some .shutdown =>
    {s with mShutdown := Function.update s.mShutdown (linkage.object .mainMenu) true, requested := true}
  | some .startServer =>
    match s.contextThr with
    | none => {s with contextThr := some .running}
    | some _ => {s with ui := .aborted}
  | _ => s

def uiStep (linkage : Linkage) (s : System Message) (ch : Int) : Option (System Message) :=
  match s.ui with
  | .test => some {s with ui := if s.sees linkage .mainMenu then .leaving else .key}
  | .key =>
    if ch = escape then some {s with ui := .leaving}
    else match keyPressed s.menu ch with
      | none => some {s with ui := .aborted}
      | some (menu,request) => some ({s with menu := menu, ui := .test}.handle linkage request)
  | .leaving => some {s with stopped := true, ui := .stopping}
  | .stopping =>
    match s.contextThr with
    | some .running => none
    | none | some .returned => some {s with contextThr := none, ui := .joining}
  | .joining =>
    match s.pump.pc with
    | .ended => some {s with ui := .ended}
    | _ => none
  | .ended | .aborted => none

inductive Event (Message : Type) where
  | ui (ch : Int)
  | arrive (msg : Message)
  | pump
  | miner (event : Mining.Event)
  | returned
  | raised

def reading (shutdown : Bool) : Mining.Event → Mining.Event
  | .mining _ => .mining shutdown
  | event => event

def pumpStep (linkage : Linkage) (s : System Message) : Option (System Message) :=
  (s.pump.step (s.sees linkage .netInterface)).map fun pump =>
    match s.pump.pc with
    | .test => {s with pump := pump, late := s.requested}
    | _ => {s with pump := pump}

def step (linkage : Linkage) (s : System Message) (event : Event Message) : Option (System Message) :=
  if s.ui = .aborted then none
  else match event with
    | .ui ch => uiStep linkage s ch
    | .arrive msg => some {s with pump := s.pump.pushBack msg}
    | .pump => pumpStep linkage s
    | .miner event =>
      (Mining.step s.miner (reading (s.sees linkage .miner) event)).map fun miner => {s with miner := miner}
    | .returned =>
      if s.contextThr = some .running ∧ s.stopped = true then some {s with contextThr := some .returned} else none
    | .raised => if s.contextThr = some .running then some {s with ui := .aborted} else none

-- The loop whose mShutdown test a step evaluates.
def tested (s : System Message) : Event Message → Option SourceFile
  | .pump => match s.pump.pc with
    | .test => some .netInterface
    | _ => none
  | .miner (.mining _) => if s.miner.testing then some .miner else none
  | _ => none

def joins (s : System Message) : Event Message → Prop
  | .ui _ => s.ui = .stopping
  | _ => False

def handles (s : System Message) : Event Message → Prop
  | .pump => ∃ msgCount msg, s.pump.pc = .handling msgCount msg
  | _ => False

structure Reached (linkage : Linkage) (s : System Message) (event : Event Message) : Prop where
  test : s.requested = true → ∀ file, tested s event = some file → s.sees linkage file = true
  join : s.requested = true → joins s event → s.pump.pc = .ended ∨ s.sees linkage .netInterface = true
  silent : s.late = true → ¬ handles s event

-- After the command no loop comes to its test again, nor the main thread to its join.
def Quiet (s : System Message) (event : Event Message) : Prop :=
  s.requested = true → tested s event = none ∧ ¬ joins s event

def Flags (linkage : Linkage) (s next : System Message) : Prop :=
  next.mShutdown = s.mShutdown ∧ next.requested = s.requested ∨
  next.mShutdown = Function.update s.mShutdown (linkage.object .mainMenu) true ∧ next.requested = true

theorem handle_facts (s : System Message) (linkage : Linkage) (request : Option Request) :
    Flags linkage s (s.handle linkage request) ∧ (s.handle linkage request).pump = s.pump ∧
      (s.handle linkage request).late = s.late := by
  unfold System.handle
  split
  · exact ⟨.inr ⟨rfl,rfl⟩,rfl,rfl⟩
  · split <;> exact ⟨.inl ⟨rfl,rfl⟩,rfl,rfl⟩
  · exact ⟨.inl ⟨rfl,rfl⟩,rfl,rfl⟩

theorem uiStep_facts {s next : System Message} (stepped : uiStep linkage s ch = some next) :
    Flags linkage s next ∧ next.pump = s.pump ∧ next.late = s.late := by
  unfold uiStep at stepped
  cases place : s.ui <;> simp only [place] at stepped
  case key =>
    split at stepped
    · cases stepped; exact ⟨.inl ⟨rfl,rfl⟩,rfl,rfl⟩
    · split at stepped <;> cases stepped
      · exact ⟨.inl ⟨rfl,rfl⟩,rfl,rfl⟩
      · exact handle_facts {s with menu := _, ui := .test} linkage _
  case stopping => split at stepped <;> cases stepped <;> exact ⟨.inl ⟨rfl,rfl⟩,rfl,rfl⟩
  case joining =>
    split at stepped <;> cases stepped
    exact ⟨.inl ⟨rfl,rfl⟩,rfl,rfl⟩
  case ended | aborted => cases stepped
  case test | leaving => cases stepped; exact ⟨.inl ⟨rfl,rfl⟩,rfl,rfl⟩

theorem pumpStep_facts {s next : System Message} (stepped : pumpStep linkage s = some next) :
    Flags linkage s next ∧ s.pump.step (s.sees linkage .netInterface) = some next.pump ∧
      (s.pump.pc = .test → next.late = s.requested) ∧ (s.pump.pc ≠ .test → next.late = s.late) := by
  obtain ⟨pump,pumped,result⟩ := Option.map_eq_some_iff.mp stepped
  cases place : s.pump.pc <;> simp only [place] at result <;> subst result <;>
    exact ⟨.inl ⟨rfl,rfl⟩,pumped,by simp,by simp⟩

theorem step_cases {s next : System Message} (stepped : step linkage s event = some next) :
    Flags linkage s next ∧ ((next.pump.pc = s.pump.pc ∧ next.late = s.late) ∨
    (event = .pump ∧ s.pump.step (s.sees linkage .netInterface) = some next.pump ∧
      (s.pump.pc = .test → next.late = s.requested) ∧ (s.pump.pc ≠ .test → next.late = s.late))) := by
  unfold step at stepped
  split at stepped
  · cases stepped
  · cases event with
    | ui ch =>
        obtain ⟨flags,pump,late⟩ := uiStep_facts stepped
        exact ⟨flags,.inl ⟨by rw [pump],late⟩⟩
    | arrive msg => cases stepped; exact ⟨.inl ⟨rfl,rfl⟩,.inl ⟨rfl,rfl⟩⟩
    | pump =>
        obtain ⟨flags,facts⟩ := pumpStep_facts stepped
        exact ⟨flags,.inr ⟨rfl,facts⟩⟩
    | miner event =>
        obtain ⟨miner,_,rfl⟩ := Option.map_eq_some_iff.mp stepped
        exact ⟨.inl ⟨rfl,rfl⟩,.inl ⟨rfl,rfl⟩⟩
    | returned | raised =>
        simp only at stepped
        split at stepped <;> cases stepped
        exact ⟨.inl ⟨rfl,rfl⟩,.inl ⟨rfl,rfl⟩⟩

-- What no step changes as long as every file has a flag of its own.
structure Untouched (s : System Message) : Prop where
  flags : ∀ file, file ≠ .mainMenu → s.mShutdown (.own file) = false
  pumping : s.pump.pc ≠ .ended

theorem fresh_untouched (maxMessages : UInt8) : Untouched (fresh maxMessages : System Message) :=
  ⟨fun _ _ => rfl,nofun⟩

theorem step_untouched {s next : System Message} (untouched : Untouched s)
    (stepped : step .internal s event = some next) : Untouched next := by
  constructor
  · intro file other
    rcases (step_cases stepped).1 with ⟨flags,_⟩ | ⟨flags,_⟩
    · rw [flags]
      exact untouched.flags file other
    · rw [flags,Function.update_of_ne (by simpa [Linkage.object] using other)]
      exact untouched.flags file other
  · intro ended
    rcases (step_cases stepped).2 with ⟨pc,_⟩ | ⟨_,pumped,_⟩
    · exact untouched.pumping (pc ▸ ended)
    · have seen := (step_ended pumped ended).2
      exact absurd (seen.symm.trans (untouched.flags .netInterface (by decide))) (by decide)

theorem tested_cases {s : System Message} (evaluated : tested s event = some file) : file ≠ .mainMenu := by
  cases event with
  | ui | arrive | returned | raised => cases evaluated
  | pump => simp only [tested] at evaluated; split at evaluated <;> cases evaluated; decide
  | miner event =>
      cases event with
      | mining => simp only [tested] at evaluated; split at evaluated <;> cases evaluated; decide
      | start | stop | destroy | caller => cases evaluated

theorem reached_quiet {s : System Message} (untouched : Untouched s) (reached : Reached .internal s event) :
    Quiet s event := by
  intro requested
  constructor
  · cases evaluated : tested s event with
    | none => rfl
    | some file =>
        have seen := reached.test requested file evaluated
        have unset := untouched.flags file (tested_cases evaluated)
        exact absurd (seen.symm.trans unset) (by decide)
  · intro joining
    rcases reached.join requested joining with ended | seen
    · exact untouched.pumping ended
    · exact absurd (seen.symm.trans (untouched.flags .netInterface (by decide))) (by decide)

theorem quiet_reached {s : System Message} (early : s.late = false) (quiet : Quiet s event) :
    Reached linkage s event where
  test requested file evaluated := by
    rw [(quiet requested).1] at evaluated
    cases evaluated
  join requested joining := absurd joining (quiet requested).2
  silent late := by
    rw [early] at late
    cases late

theorem quiet_early {s next : System Message} (early : s.late = false) (quiet : Quiet s event)
    (stepped : step linkage s event = some next) : next.late = false := by
  rcases (step_cases stepped).2 with ⟨_,late⟩ | ⟨rfl,_,atTest,elsewhere⟩
  · exact late.trans early
  · by_cases testing : s.pump.pc = .test
    · rw [atTest testing]
      by_contra requested
      have silent := (quiet (by simpa using requested)).1
      simp [tested,testing] at silent
    · exact (elsewhere testing).trans early

theorem reached_iff (maxMessages : UInt8) (events : List (Event Message)) :
    Along (step appLinkage) (Reached appLinkage) (fresh maxMessages) events ↔
      Along (step appLinkage) Quiet (fresh maxMessages) events :=
  ⟨Along.mono (fun _ _ _ untouched _ => step_untouched untouched) (fun _ _ => reached_quiet)
      (fresh_untouched maxMessages),
    Along.mono (fun _ _ _ => quiet_early) (fun _ _ => quiet_reached) rfl⟩

structure Shared (s : System Message) : Prop where
  flag : s.requested = true → s.mShutdown .shared = true
  late : s.late = true → s.pump.pc = .ended

theorem step_shared {s next : System Message} (inv : Shared s) (stepped : step .external s event = some next) :
    Shared next := by
  constructor
  · intro requested
    rcases (step_cases stepped).1 with ⟨flags,same⟩ | ⟨flags,_⟩
    · rw [flags]
      exact inv.flag (same ▸ requested)
    · rw [flags]
      exact Function.update_self ..
  · intro late
    rcases (step_cases stepped).2 with ⟨pc,same⟩ | ⟨_,pumped,atTest,elsewhere⟩
    · exact pc.trans (inv.late (same ▸ late))
    · by_cases testing : s.pump.pc = .test
      · have seen : s.sees .external .netInterface = true := inv.flag ((atTest testing).symm.trans late)
        rw [seen] at pumped
        exact test_ends testing pumped
      · have ended := inv.late ((elsewhere testing).symm.trans late)
        rw [ended_stays ended] at pumped
        cases pumped

theorem shared_reached {s : System Message} (inv : Shared s) : Reached .external s event where
  test requested _ _ := inv.flag requested
  join requested _ := .inr (inv.flag requested)
  silent late handling := by
    cases event with
    | pump =>
        obtain ⟨msgCount,msg,handling⟩ := handling
        exact absurd ((inv.late late).symm.trans handling) nofun
    | ui | arrive | miner | returned | raised => exact handling

-- Without the static the command reaches every loop on every run.
theorem external_reached (maxMessages : UInt8) (events : List (Event Message)) :
    Along (step .external) (Reached .external) (fresh maxMessages) events :=
  Along.mono (fun _ _ _ (inv : Shared _) _ => step_shared inv) (fun _ _ inv _ => shared_reached inv)
    ⟨nofun,nofun⟩ along_true

def typed (line : Text) : List (Event Message) :=
  line.flatMap fun c => [.ui c.toNat,.ui c.toNat]

-- /shutdown is typed and entered; the pump tests its flag and goes on.
theorem shutdown_missed :
    ¬ Along (step appLinkage) (Reached appLinkage) (fresh 255 : System Unit)
      (typed "/shutdown".toList ++ [.ui 10,.ui 10] ++ [.pump]) := by
  intro along
  have reached := along.last rfl rfl
  exact absurd (reached.test rfl .netInterface rfl) (by decide)

end Keyser.Shutdown
