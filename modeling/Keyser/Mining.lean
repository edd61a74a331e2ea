import Keyser.Runs

namespace Keyser.Mining
open Runs

-- `spawned` is before the first statement, `clearing` before the last.
inductive MiningPc where
  | spawned
  | outer
  | inner
  | clearing
  | finished
  deriving DecidableEq

structure MiningThread where
  numBlocks : UInt32
  blocksMined : UInt32
  pc : MiningPc
  deriving DecidableEq

inductive Caller where
  | idle
  | startGuard (numBlocks : UInt32)
  | startJoin (numBlocks : UInt32)
  | startSpawn (numBlocks : UInt32)
  | stopClear (destroying : Bool)
  | stopJoin (destroying : Bool)
  | destroyed
  deriving DecidableEq

-- A thread stays joinable after its end until it is joined.
structure Miner where
  minerActive : Bool
  miningThr : Option MiningThread
  caller : Caller
  deriving DecidableEq

def fresh : Miner := ⟨false,none,.idle⟩

def MiningThread.spawn (numBlocks : UInt32) : MiningThread := ⟨numBlocks,0,.spawned⟩

-- One access to _minerActive; `shutdown` is what the thread reads in mShutdown. The inner
-- loop has lost its break: its only way out is the return.
def miningStep (s : Miner) (shutdown : Bool) (thread : MiningThread) : Option Miner :=
  match thread.pc with
  | .spawned => some {s with minerActive := true, miningThr := some {thread with pc := .outer}}
  | .outer =>
    if !shutdown && s.minerActive && decide (thread.blocksMined < thread.numBlocks) then
      some {s with miningThr := some {thread with pc := .inner}}
    else some {s with miningThr := some {thread with pc := .clearing}}
  | .inner =>
    if shutdown || !s.minerActive then some {s with miningThr := some {thread with pc := .finished}}
    else some s
  | .clearing => some {s with minerActive := false, miningThr := some {thread with pc := .finished}}
  | .finished => none

-- if (_miningThr.joinable()) _miningThr.join();
def join (s : Miner) (after : Caller) : Option Miner :=
  match s.miningThr with
  | none => some {s with caller := after}
  | some thread => if thread.pc = .finished then some {s with miningThr := none, caller := after} else none

def callerStep (s : Miner) : Option Miner :=
  match s.caller with
  | .idle => none
  | .startGuard numBlocks => some {s with caller := if s.minerActive then .idle else .startJoin numBlocks}
  | .startJoin numBlocks => join s (.startSpawn numBlocks)
  | .startSpawn numBlocks => some {s with miningThr := some (.spawn numBlocks), caller := .idle}
  | .stopClear destroying => some {s with minerActive := false, caller := .stopJoin destroying}
  | .stopJoin destroying => join s (if destroying then .destroyed else .idle)
  | .destroyed => none

inductive Event where
  | start (numBlocks : UInt32)
  | stop
  | destroy
  | caller
  | mining (shutdown : Bool)
  deriving DecidableEq

def step (s : Miner) : Event → Option Miner
  | .start numBlocks => if s.caller = .idle then some {s with caller := .startGuard numBlocks} else none
  | .stop => if s.caller = .idle then some {s with caller := .stopClear false} else none
  | .destroy => if s.caller = .idle then some {s with caller := .stopClear true} else none
  | .caller => callerStep s
  | .mining shutdown => s.miningThr.bind (miningStep s shutdown)

def Miner.testing (s : Miner) : Bool :=
  match s.miningThr with
  | some thread => thread.pc = .outer || thread.pc = .inner
  | none => false

def Caller.joining : Caller → Bool
  | .startJoin _ | .stopJoin _ => true
  | _ => false

-- The join waits for a thread that will not see that it was asked to stop.
def Hang (s : Miner) : Prop :=
  s.caller.joining = true ∧ s.minerActive = true ∧ ∃ thread, s.miningThr = some thread ∧ thread.pc ≠ .finished

-- The access to _minerActive that start and stop begin with comes next.
def Caller.asking : Caller → Bool
  | .startGuard _ | .stopClear _ => true
  | _ => false

def Caller.decided : Caller → Bool
  | .startJoin _ | .startSpawn _ | .stopJoin _ => true
  | _ => false

def Unborn (s : Miner) : Prop := s.miningThr.map MiningThread.pc = some .spawned

-- start and stop come to _minerActive after the first statement of the thread before them.
def Prompt (s : Miner) (event : Event) : Prop := event = .caller → s.caller.asking = true → ¬ Unborn s

instance (s : Miner) (event : Event) : Decidable (Prompt s event) :=
  inferInstanceAs (Decidable (event = .caller → s.caller.asking = true →
    ¬ s.miningThr.map MiningThread.pc = some .spawned))

structure Invariant (s : Miner) : Prop where
  asked : s.caller.decided = true → s.minerActive = false ∧ ¬ Unborn s
  unborn : Unborn s → s.minerActive = false

theorem fresh_invariant : Invariant fresh := by
  constructor <;> simp [fresh,Caller.decided,Unborn]

theorem miningStep_facts {s next : Miner} (found : s.miningThr = some thread)
    (stepped : miningStep s shutdown thread = some next) :
    next.caller = s.caller ∧ ¬ Unborn next ∧ (¬ Unborn s → s.minerActive = false → next.minerActive = false) := by
  unfold miningStep at stepped
  cases place : thread.pc <;> simp only [place] at stepped
  case spawned =>
    cases stepped
    exact ⟨rfl,by simp [Unborn],fun born => absurd (by simp [Unborn,found,place]) born⟩
  case outer => split at stepped <;> cases stepped <;> exact ⟨rfl,by simp [Unborn],fun _ off => off⟩
  case inner =>
    split at stepped <;> cases stepped
    · exact ⟨rfl,by simp [Unborn],fun _ off => off⟩
    · exact ⟨rfl,by simp [Unborn,found,place],fun _ off => off⟩
  case clearing => cases stepped; exact ⟨rfl,by simp [Unborn],fun _ _ => rfl⟩
  case finished => cases stepped

theorem join_facts {s next : Miner} (joined : join s after = some next) :
    next = {s with miningThr := none, caller := after} := by
  unfold join at joined
  split at joined
  · rename_i none
    cases joined
    rw [none]
  · split at joined <;> cases joined
    rfl

theorem joined_invariant {s : Miner} (off : s.minerActive = false) (after : Caller) :
    Invariant {s with miningThr := none, caller := after} :=
  ⟨fun _ => ⟨off,by simp [Unborn]⟩,by simp [Unborn]⟩

theorem callerStep_invariant {s next : Miner} (inv : Invariant s) (prompt : Prompt s .caller)
    (stepped : callerStep s = some next) : Invariant next := by
  unfold callerStep at stepped
  have prompt := prompt rfl
  cases place : s.caller <;> simp only [place] at stepped prompt
  case idle | destroyed => cases stepped
  case startGuard numBlocks =>
    cases stepped
    refine ⟨fun decided => ?_,inv.unborn⟩
    cases active : s.minerActive with
    | true => simp [active,Caller.decided] at decided
    | false => exact ⟨rfl,prompt rfl⟩
  case stopClear destroying => cases stepped; exact ⟨fun _ => ⟨rfl,prompt rfl⟩,fun _ => rfl⟩
  case startJoin numBlocks | stopJoin destroying =>
    have off := (inv.asked (by rw [place]; rfl)).1
    rw [join_facts stepped]
    exact joined_invariant off _
  case startSpawn numBlocks =>
    cases stepped
    have off := (inv.asked (by rw [place]; rfl)).1
    exact ⟨nofun,fun _ => off⟩

theorem step_invariant (s : Miner) (event : Event) (next : Miner) (inv : Invariant s) (prompt : Prompt s event)
    (stepped : step s event = some next) : Invariant next := by
  cases event with
  | caller => exact callerStep_invariant inv prompt stepped
  | mining shutdown =>
      obtain ⟨thread,found,stepped⟩ := Option.bind_eq_some_iff.mp stepped
      obtain ⟨stays,born,off⟩ := miningStep_facts found stepped
      refine ⟨fun decided => ?_,fun unborn => absurd unborn born⟩
      obtain ⟨wasOff,wasBorn⟩ := inv.asked (stays ▸ decided)
      exact ⟨off wasBorn wasOff,born⟩
  | start | stop | destroy =>
      simp only [step] at stepped
      split at stepped
      · cases stepped
        exact ⟨nofun,inv.unborn⟩
      · cases stepped

theorem joining_decided {caller : Caller} (joining : caller.joining = true) : caller.decided = true := by
  cases caller <;> simp_all [Caller.joining,Caller.decided]

theorem never_hangs (events : List Event) (ran : run step fresh events = some s)
    (prompt : Along step Prompt fresh events) : ¬ Hang s := by
  have inv := along_invariant step_invariant fresh_invariant prompt ran
  rintro ⟨joining,active,_⟩
  have off := (inv.asked (joining_decided joining)).1
  exact absurd (active.symm.trans off) (by decide)

-- From the first step against the condition one statement leads into the hang.
theorem late_hangs (ran : run step fresh events = some s) (prompt : Along step Prompt fresh events)
    (late : ¬ Prompt s event) (stepped : step s event = some next) :
    ∃ hung, run step fresh (events ++ [event] ++ [.mining false]) = some hung ∧ Hang hung := by
  have inv := along_invariant step_invariant fresh_invariant prompt ran
  simp only [Prompt,Classical.not_imp,not_not] at late
  obtain ⟨rfl,asking,unborn⟩ := late
  have off := inv.unborn unborn
  obtain ⟨thread,found,place⟩ := Option.map_eq_some_iff.mp unborn
  have joining : next.caller.joining = true ∧ next.miningThr = some thread := by
    simp only [step,callerStep] at stepped
    cases asked : s.caller <;> simp only [asked,Caller.asking,Bool.false_eq_true,off,if_false] at asking stepped
    all_goals cases stepped; exact ⟨rfl,found⟩
  have sets : step next (.mining false) =
      some {next with minerActive := true, miningThr := some {thread with pc := .outer}} := by
    simp [step,joining.2,miningStep,place]
  exact ⟨_,run_snoc (run_snoc ran stepped) sets,joining.1,rfl,_,rfl,by simp⟩

def startThenStop : List Event := [.start 1,.caller,.caller,.caller]

theorem never_hangs_stopped : ¬ Hang ⟨false,some ⟨1,0,.inner⟩,.stopJoin false⟩ :=
  never_hangs (startThenStop ++ [.mining false,.mining false,.stop,.caller]) rfl (by decide)

-- stop clears the flag, and then the thread's first statement sets it again.
theorem hangs : ∃ events s, run step fresh events = some s ∧ Hang s :=
  ⟨startThenStop ++ [.stop,.caller,.mining false],_,rfl,rfl,rfl,_,rfl,by decide⟩

end Keyser.Mining
