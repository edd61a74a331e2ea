import Keyser.Monitors

namespace Keyser.Tsqueue
open Runs Monitors

variable {T Thread Note : Type*}

-- An element is named when it is made, and a reference is such a name. What a value has been
-- moved out of is an element all the same.
structure Deque (T : Type*) where
  cells : List (Nat × Option T)
  next : Nat

inductive Call (T : Type*) where
  | front
  | back
  | popFront
  | popBack
  | pushBack (item : T)
  | pushFront (item : T)
  | atIndex (index : Int32)
  | empty
  | clear
  | count

inductive Answer (T : Type*) where
  | nothing
  | value (t : Option T)
  | reference (name : Nat)
  | flag (empty : Bool)
  | size (count : Nat)
  | outOfRange

-- deque::at takes a size_t.
def position (index : Int32) : Nat := index.toInt64.toUInt64.toNat

def refer : Option (Nat × α) → Answer T
  | some (name,_) => .reference name
  | none => .outOfRange

def Deque.moveFront (deque : Deque T) : Option (Deque T) :=
  match deque.cells with
  | [] => none
  | (name,_) :: rest => some {deque with cells := (name,none) :: rest}

def Deque.moveBack (deque : Deque T) : Option (Deque T) :=
  deque.cells.getLast?.map fun (name,_) => {deque with cells := deque.cells.dropLast ++ [(name,none)]}

-- front, back and the pops of an empty deque have no defined meaning.
def Deque.nonempty (deque : Deque T) (after : List (Nat × Option T)) : Option (Deque T) :=
  if deque.cells.isEmpty then none else some {deque with cells := after}

-- The bodies of the methods, each under its scoped_lock. pushBack copies the item: a const
-- reference cannot be moved from.
def code : Call T → Section (Deque T) (Answer T)
  | .front => .move (fun deque => deque.nonempty deque.cells) fun deque => .finish (refer deque.cells.head?)
  | .back => .move (fun deque => deque.nonempty deque.cells) fun deque => .finish (refer deque.cells.getLast?)
  | .popFront => .move Deque.moveFront fun deque =>
    .move (fun deque => deque.nonempty deque.cells.tail) fun _ =>
      .finish (.value (deque.cells.head?.bind Prod.snd))
  | .popBack => .move Deque.moveBack fun deque =>
    .move (fun deque => deque.nonempty deque.cells.dropLast) fun _ =>
      .finish (.value (deque.cells.getLast?.bind Prod.snd))
  | .pushBack item => .move (fun deque => some ⟨deque.cells ++ [(deque.next,some item)],deque.next + 1⟩) fun _ =>
    .finish .nothing
  | .pushFront item => .move (fun deque => some ⟨(deque.next,some item) :: deque.cells,deque.next + 1⟩) fun _ =>
    .finish .nothing
  | .atIndex index => .move some fun deque => .finish (refer deque.cells[position index]?)
  | .empty => .move some fun deque => .finish (.flag deque.cells.isEmpty)
  | .clear => .move (fun deque => some {deque with cells := []}) fun _ => .finish .nothing
  | .count => .move some fun deque => .finish (.size deque.cells.length)

-- The queue as it is meant.
structure Contents (T : Type*) where
  cells : List (Nat × T)
  next : Nat

def Contents.none : Contents T := ⟨[],0⟩

def apply : Call T → Contents T → Option (Answer T × Contents T)
  | .front,s => s.cells.head?.map fun (name,_) => (.reference name,s)
  | .back,s => s.cells.getLast?.map fun (name,_) => (.reference name,s)
  | .popFront,s => s.cells.head?.map fun (_,t) => (.value (some t),{s with cells := s.cells.tail})
  | .popBack,s => s.cells.getLast?.map fun (_,t) => (.value (some t),{s with cells := s.cells.dropLast})
  | .pushBack item,s => some (.nothing,⟨s.cells ++ [(s.next,item)],s.next + 1⟩)
  | .pushFront item,s => some (.nothing,⟨(s.next,item) :: s.cells,s.next + 1⟩)
  | .atIndex index,s => some (refer s.cells[position index]?,s)
  | .empty,s => some (.flag s.cells.isEmpty,s)
  | .clear,s => some (.nothing,{s with cells := []})
  | .count,s => some (.size s.cells.length,s)

def present : Nat × T → Nat × Option T := Prod.map id some

def embed (s : Contents T) : Deque T := ⟨s.cells.map present,s.next⟩

theorem implements : Implements (code (T := T)) apply embed := by
  rintro call ⟨cells,next⟩
  cases call with
  | front | popFront => cases cells <;> rfl
  | back | popBack =>
      rcases List.eq_nil_or_concat cells with rfl | ⟨rest,last,rfl⟩
      · rfl
      · simp [code,apply,embed,Section.run,Deque.nonempty,Deque.moveBack,refer,present]
  | atIndex index =>
      cases found : cells[position index]? <;> simp [code,apply,embed,Section.run,refer,present,found]
  | pushBack | pushFront | empty | clear | count => simp [code,apply,embed,Section.run,present]

-- The calls that need an element.
def Call.takes : Call T → Bool
  | .front | .back | .popFront | .popBack => true
  | _ => false

theorem apply_none {call : Call T} {state : Contents T} (undefined : apply call state = none) :
    call.takes = true ∧ state.cells = [] := by
  cases call <;> simp_all [apply,Call.takes]

-- A value comes out of the element itself, and a reference names one that is there.
def Within (state : Contents T) : Answer T → Prop
  | .value none => False
  | .reference name => ∃ t, (name,t) ∈ state.cells
  | _ => True

theorem apply_within {call : Call T} {state : Contents T} (applied : apply call state = some (answer,after)) :
    Within state answer := by
  cases call with
  | front =>
      obtain ⟨⟨name,t⟩,found,same⟩ := Option.map_eq_some_iff.mp applied
      cases same
      exact ⟨t,List.mem_of_head? found⟩
  | back =>
      obtain ⟨⟨name,t⟩,found,same⟩ := Option.map_eq_some_iff.mp applied
      cases same
      exact ⟨t,List.mem_of_getLast? found⟩
  | popFront | popBack =>
      obtain ⟨_,_,same⟩ := Option.map_eq_some_iff.mp applied
      cases same
      trivial
  | atIndex index =>
      cases found : state.cells[position index]? with
      | none =>
          simp only [apply,found] at applied
          cases applied
          trivial
      | some cell =>
          simp only [apply,found] at applied
          cases applied
          exact ⟨cell.2,List.mem_of_getElem? found⟩
  | pushBack | pushFront | empty | clear | count =>
      cases applied
      trivial

section Histories
variable [DecidableEq Thread]

abbrev History (Thread T Note : Type*) := List (Visible Thread (Call T) (Answer T) Note)

def log (history : History Thread T Note) (visible : Visible Thread (Call T) (Answer T) Note) :
    Option (History Thread T Note) :=
  some (history ++ [visible])

-- The answer is that of the deque somewhere on the way.
def Sound (effects : List (AtomicEvent Thread (Call T) Note)) (answer : Answer T) : Prop :=
  ∃ (early : List (AtomicEvent Thread (Call T) Note))
    (a : Atomic Thread (Contents T) (Call T) (Answer T) (History Thread T Note)),
    early <+: effects ∧ run (Atomic.step log apply) (.fresh .none []) early = some a ∧ Within a.state answer

theorem Sound.grows {answer : Answer T} (sound : Sound effects answer)
    (event : AtomicEvent Thread (Call T) Note) : Sound (effects ++ [event]) answer := by
  obtain ⟨early,a,before,ran,within⟩ := sound
  exact ⟨early,a,before.trans (List.prefix_append effects [event]),ran,within⟩

structure Whole (effects : List (AtomicEvent Thread (Call T) Note))
    (a : Atomic Thread (Contents T) (Call T) (Answer T) (History Thread T Note)) : Prop where
  ran : run (Atomic.step log apply) (.fresh .none []) effects = some a
  done : ∀ thread answer, a.phase thread = .done answer → Sound effects answer
  answered : ∀ thread answer, .answered thread answer ∈ a.client → Sound effects answer

theorem phase_done {good : Answer T → Prop} {phase : Thread → Phase (Call T) (Answer T)}
    {after : Phase (Call T) (Answer T)} (whole : ∀ thread answer, phase thread = .done answer → good answer)
    (here : ∀ answer, after = .done answer → good answer) (thread : Thread) :
    ∀ other answer, Function.update phase thread after other = .done answer → good answer := by
  intro other answer done
  by_cases same : other = thread
  · rw [same,Function.update_self] at done
    exact here answer done
  · rw [Function.update_of_ne same] at done
    exact whole other answer done

theorem fresh_whole :
    Whole [] (.fresh .none [] : Atomic Thread (Contents T) (Call T) (Answer T) (History Thread T Note)) := by
  constructor <;> simp [Atomic.fresh,run]

theorem step_whole (past : List (AtomicEvent Thread (Call T) Note))
    (a : Atomic Thread (Contents T) (Call T) (Answer T) (History Thread T Note))
    (event : AtomicEvent Thread (Call T) Note)
    (next : Atomic Thread (Contents T) (Call T) (Answer T) (History Thread T Note))
    (whole : Whole past a) (stepped : Atomic.step log apply a event = some next) : Whole (past ++ [event]) next := by
  have ran := run_snoc whole.ran stepped
  have done : ∀ thread answer, a.phase thread = .done answer → Sound (past ++ [event]) answer :=
    fun thread answer place => (whole.done thread answer place).grows event
  have answered : ∀ thread answer, .answered thread answer ∈ a.client → Sound (past ++ [event]) answer :=
    fun thread answer member => (whole.answered thread answer member).grows event
  cases event with
  | call thread call =>
      cases place : a.phase thread <;> simp only [Atomic.step,place,log,Option.map_some,reduceCtorEq] at stepped
      cases stepped
      exact ⟨ran,phase_done done (by simp) thread,by simpa using answered⟩
  | effect thread =>
      cases place : a.phase thread <;> simp only [Atomic.step,place,reduceCtorEq] at stepped
      obtain ⟨⟨answer,state⟩,applied,rfl⟩ := Option.map_eq_some_iff.mp stepped
      refine ⟨ran,phase_done done ?_ thread,answered⟩
      rintro _ ⟨⟩
      exact ⟨past,a,List.prefix_append past _,whole.ran,apply_within applied⟩
  | answer thread =>
      cases place : a.phase thread <;> simp only [Atomic.step,place,log,Option.map_some,reduceCtorEq] at stepped
      cases stepped
      refine ⟨ran,phase_done done (by simp) thread,fun other answer member => ?_⟩
      rcases List.mem_append.mp member with old | new
      · exact answered other answer old
      · cases List.mem_singleton.mp new
        exact done thread _ place
  | note note =>
      simp only [Atomic.step,log,Option.map_some] at stepped
      cases stepped
      exact ⟨ran,done,by simpa using answered⟩

-- Every history of the queue is one of the deque whose methods are single steps. What a
-- reference names was there when the method took effect, and may be gone when it is answered.
structure Linearizable (s : Locked Thread (Deque T) (Call T) (Answer T) (History Thread T Note)) : Prop where
  atomic : ∃ (effects : List (AtomicEvent Thread (Call T) Note))
      (a : Atomic Thread (Contents T) (Call T) (Answer T) (History Thread T Note)),
    run (Atomic.step log apply) (.fresh .none []) effects = some a ∧ a.client = s.client ∧
      (s.holder = none → s.shared = embed a.state) ∧
      (∀ thread answer, .answered thread answer ∈ s.client → Sound effects answer) ∧
      ∀ thread, Undefined s thread → a.state.cells = [] ∧ ∃ call, a.phase thread = .called call ∧ call.takes = true
  exclusive : ∀ one two call call' rest rest', s.stage one = .inside call rest → s.stage two = .inside call' rest' →
    one = two

theorem linearizable (events : List (Event Thread (Call T) Note))
    (ran : run (Locked.step log code) (.fresh (embed .none) []) events = some s) : Linearizable s := by
  obtain ⟨effects,a,went,lin⟩ := run_linearizes implements (fresh_linearizes code embed .none []) ran
  have whole : Whole effects a := Runs.recorded step_whole fresh_whole went
  refine ⟨⟨effects,a,went,lin.client.symm,lin.free,?_,fun thread undefined => ?_⟩,?_⟩
  · rw [lin.client]
    exact whole.answered
  · obtain ⟨call,phase,none⟩ := undefined_called implements lin undefined
    obtain ⟨takes,empty⟩ := apply_none none
    exact ⟨empty,call,phase,takes⟩
  · intro one two call call' rest rest' inside inside'
    exact Option.some.inj ((lin.alone one call rest inside).symm.trans (lin.alone two call' rest' inside'))

-- Thread 1 pops between the step of front and its answer: the reference is left to nothing.
theorem linearizable_two : ∃ s : Locked Nat (Deque Nat) (Call Nat) (Answer Nat) (History Nat Nat Empty),
    Linearizable s ∧ s.shared.cells = [] ∧
      s.client = [.called 0 (.pushBack 7),.answered 0 .nothing,.called 0 .front,.called 1 .popFront,
        .answered 1 (.value (some 7)),.answered 0 (.reference 0)] :=
  ⟨_,linearizable [.call 0 (.pushBack 7),.lock 0,.move 0,.unlock 0,.answer 0,.call 0 .front,.call 1 .popFront,.lock 0,
    .move 0,.unlock 0,.lock 1,.move 1,.move 1,.unlock 1,.answer 1,.answer 0] rfl,rfl,rfl⟩

end Histories

end Keyser.Tsqueue
