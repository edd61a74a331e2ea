import Keyser.Mining

namespace Keyser.MiningThreads
open Runs Mining

variable {s next : Miner}

-- start and the destructor come behind a join. The inner loop has no way on to blocksMined++.
structure Threads (s : Miner) : Prop where
  spawning : ∀ numBlocks, s.caller = .startSpawn numBlocks → s.miningThr = none
  destroyed : s.caller = .destroyed → s.miningThr = none
  mined : ∀ thread, s.miningThr = some thread → thread.blocksMined = 0
  looping : ∀ thread, s.miningThr = some thread → thread.pc = .inner → 0 < thread.numBlocks

theorem fresh_threads : Threads fresh := by
  constructor <;> simp [fresh]

-- The thread goes on by one statement; the caller is at none where there is no thread.
theorem mining_threads {thread : MiningThread} (threads : Threads s) (found : s.miningThr = some thread)
    (stepped : miningStep s shutdown thread = some next) : Threads next := by
  have caller := (miningStep_facts found stepped).1
  have mined := threads.mined thread found
  have absent (joined : s.miningThr = none) : next.miningThr = none := by
    rw [found] at joined
    cases joined
  have went : ∃ after, next.miningThr = some after ∧ after.blocksMined = 0 ∧
      (after.pc = .inner → 0 < after.numBlocks) := by
    have looping := threads.looping thread found
    unfold miningStep at stepped
    cases place : thread.pc <;> simp only [place] at stepped looping
    case spawned => cases stepped; exact ⟨_,rfl,mined,by simp⟩
    case outer =>
      split at stepped <;> cases stepped
      · rename_i admits
        simp only [Bool.and_eq_true,decide_eq_true_eq,mined] at admits
        exact ⟨_,rfl,mined,fun _ => admits.2⟩
      · exact ⟨_,rfl,mined,by simp⟩
    case inner =>
      split at stepped <;> cases stepped
      · exact ⟨_,rfl,mined,by simp⟩
      · exact ⟨thread,found,mined,fun _ => looping trivial⟩
    case clearing => cases stepped; exact ⟨_,rfl,mined,by simp⟩
    case finished => cases stepped
  obtain ⟨after,now,count,loops⟩ := went
  refine ⟨fun numBlocks spawning => absent (threads.spawning numBlocks (caller ▸ spawning)),
    fun destroyed => absent (threads.destroyed (caller ▸ destroyed)),fun other there => ?_,fun other there => ?_⟩
  · cases now.symm.trans there
    exact count
  · cases now.symm.trans there
    exact loops

theorem caller_threads (threads : Threads s) (stepped : callerStep s = some next) : Threads next := by
  unfold callerStep at stepped
  cases place : s.caller <;> simp only [place] at stepped
  case idle | destroyed => cases stepped
  case startGuard numBlocks =>
    cases stepped
    exact ⟨by dsimp only; split <;> simp,by dsimp only; split <;> simp,threads.mined,threads.looping⟩
  case stopClear destroying => cases stepped; exact ⟨by simp,by simp,threads.mined,threads.looping⟩
  case startJoin numBlocks | stopJoin destroying => rw [join_facts stepped]; constructor <;> simp
  case startSpawn numBlocks => cases stepped; constructor <;> simp [MiningThread.spawn]

theorem step_threads (s : Miner) (event : Event) (next : Miner) (threads : Threads s)
    (stepped : step s event = some next) : Threads next := by
  cases event with
  | caller => exact caller_threads threads stepped
  | mining shutdown =>
      obtain ⟨thread,found,stepped⟩ := Option.bind_eq_some_iff.mp stepped
      exact mining_threads threads found stepped
  | start | stop | destroy =>
      simp only [step] at stepped
      split at stepped <;> cases stepped
      exact ⟨by simp,by simp,threads.mined,threads.looping⟩

theorem threads_joined (events : List Event) (ran : run step fresh events = some s) : Threads s :=
  Runs.invariant step_threads fresh_threads ran

-- The second start comes behind the join of the first thread.
theorem threads_joined_twice : Threads ⟨false,none,.startSpawn 2⟩ :=
  threads_joined
    [.start 0,.caller,.caller,.caller,.mining false,.mining false,.mining false,.start 2,.caller,.caller] rfl

-- A thread that has blocks to mine and sees itself active, or is yet to say that it is.
def Doomed (s : Miner) : Prop :=
  ∃ thread, s.miningThr = some thread ∧ 0 < thread.numBlocks ∧
    (thread.pc = .spawned ∨ s.minerActive = true ∧ (thread.pc = .outer ∨ thread.pc = .inner))

-- Without the flag of the application, the thread has only _minerActive to leave by.
def unread : Event → Bool
  | .mining shutdown => !shutdown
  | _ => true

structure Waiting (s : Miner) : Prop where
  threads : Threads s
  joining : s.caller.joining = true
  doomed : Doomed s

theorem mining_waits {thread : MiningThread} (waiting : Waiting s) (found : s.miningThr = some thread)
    (stepped : miningStep s false thread = some next) : Waiting next := by
  obtain ⟨threads,joining,other,there,blocks,working⟩ := waiting
  cases found.symm.trans there
  have caller := (miningStep_facts found stepped).1
  refine ⟨mining_threads threads found stepped,caller ▸ joining,?_⟩
  have mined := threads.mined thread found
  unfold miningStep at stepped
  rcases working with spawned | ⟨active,outer | inner⟩
  · simp only [spawned] at stepped
    cases stepped
    exact ⟨_,rfl,blocks,.inr ⟨rfl,.inl rfl⟩⟩
  · simp only [outer,active,mined,blocks,decide_true,Bool.not_false,Bool.and_self,if_true] at stepped
    cases stepped
    exact ⟨_,rfl,blocks,.inr ⟨rfl,.inr rfl⟩⟩
  · simp only [inner,active,Bool.not_true,Bool.or_self,Bool.false_eq_true,if_false] at stepped
    cases stepped
    exact ⟨thread,found,blocks,.inr ⟨active,.inr inner⟩⟩

-- Nobody is left to clear _minerActive: the controlling thread is in the join.
theorem step_waits (s : Miner) (event : Event) (next : Miner) (waiting : Waiting s) (blind : unread event = true)
    (stepped : step s event = some next) : Waiting next := by
  have joining := waiting.joining
  cases event with
  | mining shutdown =>
      obtain ⟨thread,found,stepped⟩ := Option.bind_eq_some_iff.mp stepped
      simp only [unread,Bool.not_eq_true'] at blind
      subst blind
      exact mining_waits waiting found stepped
  | caller =>
      obtain ⟨thread,found,_,working⟩ := waiting.doomed
      have running : thread.pc ≠ .finished := by
        rcases working with spawned | ⟨_,outer | inner⟩ <;> simp [*]
      unfold step callerStep at stepped
      cases place : s.caller <;> simp [place,Caller.joining,join,found,running] at stepped joining
  | start | stop | destroy =>
      simp only [step] at stepped
      split at stepped
      · rename_i idle
        rw [idle] at joining
        cases joining
      · cases stepped

-- The schedules that lead out of a join.
def Ends (s : Miner) : Prop :=
  ∃ (more : List Event) (next : Miner), (∀ event ∈ more, unread event = true) ∧ run step s more = some next ∧
    next.caller.joining = false

theorem join_free (free : ∀ thread, s.miningThr = some thread → thread.pc = .finished) (after : Caller) :
    join s after = some {s with miningThr := none, caller := after} := by
  unfold join
  split
  · rename_i gone
    rw [gone]
  · rename_i thread found
    rw [if_pos (free thread found)]

theorem join_returns (joining : s.caller.joining = true)
    (free : ∀ thread, s.miningThr = some thread → thread.pc = .finished) :
    ∃ next, step s .caller = some next ∧ next.caller.joining = false := by
  cases place : s.caller <;> simp only [place,Caller.joining,Bool.false_eq_true] at joining
  case startJoin numBlocks =>
    exact ⟨{s with miningThr := none, caller := .startSpawn numBlocks},
      by simp only [step,callerStep,place,join_free free],rfl⟩
  case stopJoin destroying =>
    exact ⟨{s with miningThr := none, caller := if destroying then .destroyed else .idle},
      by simp only [step,callerStep,place,join_free free],by cases destroying <;> rfl⟩

def remaining (s : Miner) : Nat :=
  match s.miningThr.map MiningThread.pc with
  | some .spawned => 3
  | some .outer => 2
  | some .inner | some .clearing => 1
  | _ => 0

-- A thread that is not doomed is on its way out.
structure Leaving (caller : Caller) (s : Miner) : Prop where
  threads : Threads s
  caller : s.caller = caller
  free : ¬ Doomed s

theorem leaving_steps (leaving : Leaving caller s) (ahead : 0 < remaining s) :
    ∃ next, step s (.mining false) = some next ∧ Leaving caller next ∧ remaining next < remaining s := by
  obtain ⟨threads,isCaller,free⟩ := leaving
  unfold remaining at ahead
  cases found : s.miningThr with
  | none => rw [found] at ahead; cases ahead
  | some thread =>
      have moves (next : Miner) (stepped : miningStep s false thread = some next) (freed : ¬ Doomed next)
          (less : remaining next < remaining s) :
          ∃ next, step s (.mining false) = some next ∧ Leaving caller next ∧ remaining next < remaining s :=
        ⟨next,by rw [step,found]; exact stepped,⟨mining_threads threads found stepped,
          ((miningStep_facts found stepped).1).trans isCaller,freed⟩,less⟩
      simp only [Doomed,found,Option.some.injEq,exists_eq_left',not_and] at free
      have looping := threads.looping thread found
      cases place : thread.pc <;> simp only [found,place,Option.map_some] at ahead free looping
      case spawned =>
        refine moves {s with minerActive := true, miningThr := some {thread with pc := .outer}}
          (by simp [miningStep,place]) ?_ (by simp [remaining,found,place])
        simpa [Doomed] using free
      case outer =>
        have stays : (!false && s.minerActive && decide (thread.blocksMined < thread.numBlocks)) = false := by
          rw [threads.mined thread found]
          cases active : s.minerActive with
          | false => rfl
          | true =>
              have idle : ¬ 0 < thread.numBlocks := fun blocks => by simpa [active] using free blocks
              simp only [idle,decide_false,Bool.and_false]
        exact moves {s with miningThr := some {thread with pc := .clearing}}
          (by simp only [miningStep,place,stays,Bool.false_eq_true,if_false]) (by simp [Doomed])
          (by simp [remaining,found,place])
      case inner =>
        have off : (false || !s.minerActive) = true := by simpa [looping trivial] using free
        exact moves {s with miningThr := some {thread with pc := .finished}}
          (by simp only [miningStep,place,off,if_true]) (by simp [Doomed]) (by simp [remaining,found,place])
      case clearing =>
        exact moves {s with minerActive := false, miningThr := some {thread with pc := .finished}}
          (by simp only [miningStep,place]) (by simp [Doomed]) (by simp [remaining,found,place])
      case finished => cases ahead

theorem remaining_finished (gone : remaining s = 0) : ∀ thread, s.miningThr = some thread → thread.pc = .finished := by
  intro thread found
  unfold remaining at gone
  cases place : thread.pc <;> simp_all

theorem ends_iff (threads : Threads s) (joining : s.caller.joining = true) : Ends s ↔ ¬ Doomed s := by
  constructor
  · rintro ⟨more,next,blind,went,returned⟩ doomed
    have waiting : Waiting next :=
      along_invariant step_waits ⟨threads,joining,doomed⟩ (along_of blind) went
    exact absurd (waiting.joining.symm.trans returned) (by decide)
  · intro free
    have advance (t : Miner) (leaving : Leaving s.caller t) (ahead : 0 < remaining t) :
        ∃ (events : List Event) (next : Miner), (∀ event ∈ events, event = .mining false) ∧
          run step t events = some next ∧ Leaving s.caller next ∧ remaining next < remaining t := by
      obtain ⟨next,stepped,leaves,less⟩ := leaving_steps leaving ahead
      exact ⟨[.mining false],next,by simp,by simp [run,stepped],leaves,less⟩
    obtain ⟨more,middle,kinds,went,leaves,gone⟩ := exhaust advance ⟨threads,rfl,free⟩
    obtain ⟨next,joined,returned⟩ := join_returns (leaves.caller.symm ▸ joining) (remaining_finished gone)
    refine ⟨more ++ [.caller],next,?_,run_snoc went joined,returned⟩
    intro event member
    rcases List.mem_append.mp member with early | last
    · rw [kinds event early]
      rfl
    · rw [List.mem_singleton.mp last]
      rfl

theorem prompt_free (ran : run step fresh events = some s) (prompt : Along step Prompt fresh events)
    (joining : s.caller.joining = true) : ¬ Doomed s := by
  have inv := along_invariant step_invariant fresh_invariant prompt ran
  obtain ⟨off,born⟩ := inv.asked (joining_decided joining)
  rintro ⟨thread,found,_,spawned | ⟨active,_⟩⟩
  · exact born (by simp [Unborn,found,spawned])
  · exact absurd (active.symm.trans off) (by decide)

-- Without the application's flag a join comes to its end if and only if its thread is not
-- doomed, and it is not where start and stop come after the first statement of the thread.
theorem joins_end (events : List Event) (ran : run step fresh events = some s) (joining : s.caller.joining = true) :
    (Ends s ↔ ¬ Doomed s) ∧ (Along step Prompt fresh events → Ends s) := by
  have exact := ends_iff (Runs.invariant step_threads fresh_threads ran) joining
  exact ⟨exact,fun prompt => exact.mpr (prompt_free ran prompt joining)⟩

theorem joins_end_stopped : (Ends ⟨false,some ⟨1,0,.inner⟩,.stopJoin false⟩ ↔
    ¬ Doomed ⟨false,some ⟨1,0,.inner⟩,.stopJoin false⟩) ∧
      (Along step Prompt fresh (startThenStop ++ [.mining false,.mining false,.stop,.caller]) →
        Ends ⟨false,some ⟨1,0,.inner⟩,.stopJoin false⟩) :=
  joins_end (startThenStop ++ [.mining false,.mining false,.stop,.caller]) rfl rfl

end Keyser.MiningThreads
