import Keyser.Runs
import Mathlib.Logic.Function.Basic

namespace Keyser.Monitors
open Runs

variable {Thread Shared State Call Result Note Client : Type*}

-- What is done between the lock and the unlock: moves on the shared state, any of which may
-- have no defined meaning there, and then a result.
inductive Section (Shared Result : Type*) where
  | finish (result : Result)
  | move (act : Shared → Option Shared) (rest : Shared → Section Shared Result)

def Section.run : Section Shared Result → Shared → Option (Result × Shared)
  | .finish result,shared => some (result,shared)
  | .move act rest,shared => (act shared).bind ((rest shared).run ·)

-- What the clients of an object have to do with it, and what they do on their own.
inductive Visible (Thread Call Result Note : Type*) where
  | called (thread : Thread) (call : Call)
  | answered (thread : Thread) (result : Result)
  | noted (note : Note)

inductive Stage (Shared Call Result : Type*) where
  | idle
  | waiting (call : Call)
  | inside (call : Call) (rest : Section Shared Result)
  | leaving (result : Result)

-- An object whose operations are sections under one mutex, and its clients.
structure Locked (Thread Shared Call Result Client : Type*) where
  shared : Shared
  holder : Option Thread
  stage : Thread → Stage Shared Call Result
  client : Client

inductive Event (Thread Call Note : Type*) where
  | call (thread : Thread) (call : Call)
  | lock (thread : Thread)
  | move (thread : Thread)
  | unlock (thread : Thread)
  | answer (thread : Thread)
  | note (note : Note)

inductive Phase (Call Result : Type*) where
  | idle
  | called (call : Call)
  | done (result : Result)

-- The object as it is meant: an operation takes effect at one point between its call and its answer.
structure Atomic (Thread State Call Result Client : Type*) where
  state : State
  phase : Thread → Phase Call Result
  client : Client

inductive AtomicEvent (Thread Call Note : Type*) where
  | call (thread : Thread) (call : Call)
  | effect (thread : Thread)
  | answer (thread : Thread)
  | note (note : Note)

def Locked.fresh (shared : Shared) (client : Client) : Locked Thread Shared Call Result Client :=
  ⟨shared,none,fun _ => .idle,client⟩

def Atomic.fresh (state : State) (client : Client) : Atomic Thread State Call Result Client :=
  ⟨state,fun _ => .idle,client⟩

def Stage.phase : Stage Shared Call Result → Phase Call Result
  | .idle => .idle
  | .waiting call => .called call
  | .inside call _ => .called call
  | .leaving result => .done result

section Steps
variable [DecidableEq Thread] (follow : Client → Visible Thread Call Result Note → Option Client)

def Locked.step (code : Call → Section Shared Result) (s : Locked Thread Shared Call Result Client) :
    Event Thread Call Note → Option (Locked Thread Shared Call Result Client)
  | .call thread call => match s.stage thread with
    | .idle => (follow s.client (.called thread call)).map fun client =>
      {s with stage := Function.update s.stage thread (.waiting call), client := client}
    | _ => none
  | .lock thread => match s.stage thread,s.holder with
    | .waiting call,none =>
      some {s with stage := Function.update s.stage thread (.inside call (code call)), holder := some thread}
    | _,_ => none
  | .move thread => match s.stage thread with
    | .inside call (.move act rest) => (act s.shared).map fun shared =>
      {s with stage := Function.update s.stage thread (.inside call (rest s.shared)), shared := shared}
    | _ => none
  | .unlock thread => match s.stage thread with
    | .inside _ (.finish result) =>
      some {s with stage := Function.update s.stage thread (.leaving result), holder := none}
    | _ => none
  | .answer thread => match s.stage thread with
    | .leaving result => (follow s.client (.answered thread result)).map fun client =>
      {s with stage := Function.update s.stage thread .idle, client := client}
    | _ => none
  | .note note => (follow s.client (.noted note)).map fun client => {s with client := client}

def Atomic.step (apply : Call → State → Option (Result × State)) (s : Atomic Thread State Call Result Client) :
    AtomicEvent Thread Call Note → Option (Atomic Thread State Call Result Client)
  | .call thread call => match s.phase thread with
    | .idle => (follow s.client (.called thread call)).map fun client =>
      {s with phase := Function.update s.phase thread (.called call), client := client}
    | _ => none
  | .effect thread => match s.phase thread with
    | .called call => (apply call s.state).map fun (result,state) =>
      {s with phase := Function.update s.phase thread (.done result), state := state}
    | _ => none
  | .answer thread => match s.phase thread with
    | .done result => (follow s.client (.answered thread result)).map fun client =>
      {s with phase := Function.update s.phase thread .idle, client := client}
    | _ => none
  | .note note => (follow s.client (.noted note)).map fun client => {s with client := client}

end Steps

-- A thread holds the mutex and its next move has no defined meaning.
def Undefined (s : Locked Thread Shared Call Result Client) (thread : Thread) : Prop :=
  ∃ call act rest, s.stage thread = .inside call (.move act rest) ∧ act s.shared = none

-- Run as one, the sections are the operations of the object that is meant.
def Implements (code : Call → Section Shared Result) (apply : Call → State → Option (Result × State))
    (embed : State → Shared) : Prop :=
  ∀ call state, (code call).run (embed state) = (apply call state).map (Prod.map id embed)

structure Linearizes (code : Call → Section Shared Result) (embed : State → Shared)
    (s : Locked Thread Shared Call Result Client) (a : Atomic Thread State Call Result Client) : Prop where
  client : s.client = a.client
  phases : ∀ thread, (s.stage thread).phase = a.phase thread
  alone : ∀ thread call rest, s.stage thread = .inside call rest → s.holder = some thread
  free : s.holder = none → s.shared = embed a.state
  held : ∀ thread, s.holder = some thread → ∃ call rest, s.stage thread = .inside call rest ∧
    rest.run s.shared = (code call).run (embed a.state)

theorem fresh_linearizes (code : Call → Section Shared Result) (embed : State → Shared) (state : State)
    (client : Client) : Linearizes code embed (.fresh (embed state) client : Locked Thread Shared Call Result Client)
      (.fresh state client) :=
  ⟨rfl,fun _ => rfl,nofun,fun _ => rfl,nofun⟩

theorem Linearizes.phased {s : Locked Thread Shared Call Result Client} {a : Atomic Thread State Call Result Client}
    {code : Call → Section Shared Result} {embed : State → Shared} (lin : Linearizes code embed s a)
    (place : s.stage thread = stage) : a.phase thread = stage.phase :=
  (lin.phases thread).symm.trans (congrArg Stage.phase place)

-- What is left of a section comes to what the whole of it would have.
theorem Linearizes.runs {s : Locked Thread Shared Call Result Client} {a : Atomic Thread State Call Result Client}
    {code : Call → Section Shared Result} {embed : State → Shared} (lin : Linearizes code embed s a)
    (inside : s.stage thread = .inside call rest) :
    s.holder = some thread ∧ rest.run s.shared = (code call).run (embed a.state) := by
  have holds := lin.alone thread call rest inside
  obtain ⟨call',rest',inside',runs⟩ := lin.held thread holds
  cases inside.symm.trans inside'
  exact ⟨holds,runs⟩

variable [DecidableEq Thread] {follow : Client → Visible Thread Call Result Note → Option Client}
  {code : Call → Section Shared Result} {apply : Call → State → Option (Result × State)} {embed : State → Shared}
  {s next : Locked Thread Shared Call Result Client} {a : Atomic Thread State Call Result Client}

theorem phases_update {stage : Thread → Stage Shared Call Result} {phase : Thread → Phase Call Result}
    (phases : ∀ thread, (stage thread).phase = phase thread) (same : after.phase = y) (thread other : Thread) :
    (Function.update stage thread after other).phase = Function.update phase thread y other := by
  by_cases here : other = thread
  · subst here
    rw [Function.update_self,Function.update_self,same]
  · rw [Function.update_of_ne here,Function.update_of_ne here,phases]

-- A thread that does not hold the mutex changes nothing of what the holder relies on.
theorem Linearizes.outside (lin : Linearizes code embed s a) (was : ∀ call rest, s.stage thread ≠ .inside call rest)
    (isnt : ∀ call rest, after ≠ .inside call rest) (same : after.phase = y) (client : Client) :
    Linearizes code embed {s with stage := Function.update s.stage thread after, client := client}
      {a with phase := Function.update a.phase thread y, client := client} := by
  refine ⟨rfl,phases_update lin.phases same thread,?_,lin.free,?_⟩
  · intro other call rest inside
    by_cases here : other = thread
    · subst here
      exact absurd ((Function.update_self ..).symm.trans inside) (isnt call rest)
    · exact lin.alone other call rest ((Function.update_of_ne here ..).symm.trans inside)
  · intro other holds
    obtain ⟨call,rest,inside,runs⟩ := lin.held other holds
    have elsewhere : other ≠ thread := by
      rintro rfl
      exact was call rest inside
    exact ⟨call,rest,(Function.update_of_ne elsewhere ..).trans inside,runs⟩

theorem lock_linearizes (lin : Linearizes code embed s a) (waiting : s.stage thread = .waiting call)
    (free : s.holder = none) : Linearizes code embed
      {s with stage := Function.update s.stage thread (.inside call (code call)), holder := some thread} a := by
  have phase : a.phase thread = .called call := lin.phased waiting
  refine ⟨lin.client,?_,?_,nofun,?_⟩
  · have updated : ∀ other, (Function.update s.stage thread (.inside call (code call)) other).phase =
        Function.update a.phase thread (.called call) other := phases_update lin.phases rfl thread
    rwa [← phase,Function.update_eq_self] at updated
  · intro other call' rest inside
    by_cases here : other = thread
    · rw [here]
    · have holds := lin.alone other call' rest ((Function.update_of_ne here ..).symm.trans inside)
      rw [free] at holds
      cases holds
  · rintro _ ⟨⟩
    exact ⟨call,code call,Function.update_self ..,by rw [lin.free free]⟩

theorem move_linearizes (lin : Linearizes code embed s a) (inside : s.stage thread = .inside call (.move act rest))
    (moved : act s.shared = some shared) : Linearizes code embed
      {s with stage := Function.update s.stage thread (.inside call (rest s.shared)), shared := shared} a := by
  have phase : a.phase thread = .called call := lin.phased inside
  obtain ⟨holds,runs⟩ := lin.runs inside
  refine ⟨lin.client,?_,?_,?_,?_⟩
  · have updated : ∀ other, (Function.update s.stage thread (.inside call (rest s.shared)) other).phase =
        Function.update a.phase thread (.called call) other := phases_update lin.phases rfl thread
    rwa [← phase,Function.update_eq_self] at updated
  · intro other call' rest' within
    by_cases here : other = thread
    · rw [here]
      exact holds
    · exact lin.alone other call' rest' ((Function.update_of_ne here ..).symm.trans within)
  · intro free
    rw [holds] at free
    cases free
  · intro other holder
    obtain rfl : thread = other := Option.some.inj (holds.symm.trans holder)
    refine ⟨call,rest s.shared,Function.update_self ..,?_⟩
    rw [← runs,Section.run,moved]
    rfl

theorem unlock_linearizes (implements : Implements code apply embed) (lin : Linearizes code embed s a)
    (inside : s.stage thread = .inside call (.finish result)) :
    ∃ state, apply call a.state = some (result,state) ∧ Linearizes code embed
      {s with stage := Function.update s.stage thread (.leaving result), holder := none}
      {a with phase := Function.update a.phase thread (.done result), state := state} := by
  obtain ⟨holds,runs⟩ := lin.runs inside
  rw [implements call a.state,Section.run] at runs
  obtain ⟨⟨result',state⟩,applied,same⟩ := Option.map_eq_some_iff.mp runs.symm
  obtain ⟨rfl,embedded⟩ := Prod.mk.inj same
  refine ⟨state,applied,lin.client,phases_update lin.phases rfl thread,?_,fun _ => embedded.symm,nofun⟩
  intro other call' rest' within
  by_cases here : other = thread
  · subst here
    cases (Function.update_self ..).symm.trans within
  · have both := lin.alone other call' rest' ((Function.update_of_ne here ..).symm.trans within)
    exact absurd (Option.some.inj (both.symm.trans holds)) here

theorem step_linearizes (implements : Implements code apply embed) (lin : Linearizes code embed s a)
    (stepped : Locked.step follow code s event = some next) : ∃ effects after,
      run (Atomic.step follow apply) a effects = some after ∧ Linearizes code embed next after := by
  cases event with
  | call thread call =>
      cases place : s.stage thread <;> simp only [Locked.step,place,reduceCtorEq] at stepped
      obtain ⟨client,followed,rfl⟩ := Option.map_eq_some_iff.mp stepped
      rw [lin.client] at followed
      refine ⟨[.call thread call],_,?_,lin.outside (by simp [place]) (by simp) rfl client⟩
      simp [run,Atomic.step,lin.phased place,Stage.phase,followed]
  | lock thread =>
      cases place : s.stage thread <;> simp only [Locked.step,place,reduceCtorEq] at stepped
      cases free : s.holder <;> simp only [free,reduceCtorEq] at stepped
      cases stepped
      exact ⟨[],a,rfl,lock_linearizes lin place free⟩
  | move thread =>
      cases place : s.stage thread with
      | inside call body =>
          cases body with
          | move act rest =>
              simp only [Locked.step,place] at stepped
              obtain ⟨shared,moved,rfl⟩ := Option.map_eq_some_iff.mp stepped
              exact ⟨[],a,rfl,move_linearizes lin place moved⟩
          | finish result => simp [Locked.step,place] at stepped
      | _ => simp [Locked.step,place] at stepped
  | unlock thread =>
      cases place : s.stage thread with
      | inside call body =>
          cases body with
          | finish result =>
              simp only [Locked.step,place] at stepped
              cases stepped
              obtain ⟨state,applied,kept⟩ := unlock_linearizes implements lin place
              refine ⟨[.effect thread],_,?_,kept⟩
              simp [run,Atomic.step,lin.phased place,Stage.phase,applied]
          | move act rest => simp [Locked.step,place] at stepped
      | _ => simp [Locked.step,place] at stepped
  | answer thread =>
      cases place : s.stage thread <;> simp only [Locked.step,place,reduceCtorEq] at stepped
      obtain ⟨client,followed,rfl⟩ := Option.map_eq_some_iff.mp stepped
      rw [lin.client] at followed
      refine ⟨[.answer thread],_,?_,lin.outside (by simp [place]) (by simp) rfl client⟩
      simp [run,Atomic.step,lin.phased place,Stage.phase,followed]
  | note note =>
      obtain ⟨client,followed,rfl⟩ := Option.map_eq_some_iff.mp stepped
      rw [lin.client] at followed
      refine ⟨[.note note],{a with client := client},?_,rfl,lin.phases,lin.alone,lin.free,lin.held⟩
      simp [run,Atomic.step,followed]

-- Whatever the clients are and however the threads interleave, they see an atomic object.
theorem run_linearizes (implements : Implements code apply embed) (lin : Linearizes code embed s a)
    (ran : run (Locked.step follow code) s events = some next) : ∃ effects after,
      run (Atomic.step follow apply) a effects = some after ∧ Linearizes code embed next after :=
  simulated (fun _ _ _ _ => step_linearizes implements) lin ran

omit [DecidableEq Thread] in
theorem undefined_called (implements : Implements code apply embed) (lin : Linearizes code embed s a)
    (undefined : Undefined s thread) : ∃ call, a.phase thread = .called call ∧ apply call a.state = none := by
  obtain ⟨call,act,rest,inside,stuck⟩ := undefined
  obtain ⟨_,runs⟩ := lin.runs inside
  rw [implements call a.state,Section.run,stuck] at runs
  exact ⟨call,lin.phased inside,Option.map_eq_none_iff.mp runs.symm⟩

end Keyser.Monitors
