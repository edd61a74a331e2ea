import Keyser.InboundDelivery
import Keyser.Tsqueue

namespace Keyser.LockedInbound
open Runs Monitors Tsqueue PeerReceive

variable {Peer : Type}

-- update runs in the pump's thread, and the handlers of a peer run one at a time.
inductive Side (Peer : Type) where
  | pump
  | peer (peer : Peer)
  deriving DecidableEq

-- The places of NetInterface::update, with empty() and popFront() from their call to their answer.
inductive Pc (Peer : Type) where
  | test
  | counting (msgCount : UInt8)
  | emptying (msgCount : UInt8)
  | popping (msgCount : UInt8)
  | taking (msgCount : UInt8)
  | handling (msgCount : UInt8) (msg : Option (OwnedMessage Peer))
  | ended

-- `pushes` are the calls of pushBack, in order.
structure Client (Peer : Type) where
  maxMessages : UInt8
  pc : Pc Peer
  handled : List (Option (OwnedMessage Peer))
  pushes : List (OwnedMessage Peer)

def Client.fresh (maxMessages : UInt8) : Client Peer := ⟨maxMessages,.test,[],[]⟩

-- What the pump does without the queue; `shutdown` is what its test reads.
def Client.alone (s : Client Peer) (shutdown : Bool) : Option (Client Peer) :=
  match s.pc with
  | .test => some {s with pc := if shutdown then .ended else .counting 0}
  | .counting msgCount => if msgCount < s.maxMessages then none else some {s with pc := .test}
  | .handling msgCount msg => some {s with handled := s.handled ++ [msg], pc := .counting (msgCount + 1)}
  | _ => none

def Client.calls (s : Client Peer) : Call (OwnedMessage Peer) → Option (Client Peer)
  | .empty => match s.pc with
    | .counting msgCount => if msgCount < s.maxMessages then some {s with pc := .emptying msgCount} else none
    | _ => none
  | .popFront => match s.pc with
    | .popping msgCount => some {s with pc := .taking msgCount}
    | _ => none
  | _ => none

def Client.hears (s : Client Peer) : Answer (OwnedMessage Peer) → Option (Client Peer)
  | .flag empty => match s.pc with
    | .emptying msgCount => some {s with pc := if empty then .test else .popping msgCount}
    | _ => none
  | .value msg => match s.pc with
    | .taking msgCount => some {s with pc := .handling msgCount msg}
    | _ => none
  | _ => none

variable [DecidableEq Peer]

-- addToIncomingMessageQueue pushes the peer's own messages.
def follow (s : Client Peer) : Visible (Side Peer) (Call (OwnedMessage Peer)) (Answer (OwnedMessage Peer)) Bool →
    Option (Client Peer)
  | .called (.peer peer) (.pushBack owned) =>
    if owned.remote = peer then some {s with pushes := s.pushes ++ [owned]} else none
  | .called (.peer _) _ => none
  | .answered (.peer _) _ => some s
  | .called .pump call => s.calls call
  | .answered .pump answer => s.hears answer
  | .noted shutdown => s.alone shutdown

abbrev Queue (Peer : Type) := Locked (Side Peer) (Deque (OwnedMessage Peer)) (Call (OwnedMessage Peer))
  (Answer (OwnedMessage Peer)) (Client Peer)

abbrev AtomicQueue (Peer : Type) := Atomic (Side Peer) (Contents (OwnedMessage Peer)) (Call (OwnedMessage Peer))
  (Answer (OwnedMessage Peer)) (Client Peer)

-- Where the pump is, with the queue's methods as single steps: the answer is known from its effect on.
inductive Shows : Pc Peer → Phase (Call (OwnedMessage Peer)) (Answer (OwnedMessage Peer)) →
    MessagePump.Pc (OwnedMessage Peer) → Prop
  | test : Shows .test .idle .test
  | counting (msgCount : UInt8) : Shows (.counting msgCount) .idle (.counting msgCount)
  | emptying (msgCount : UInt8) : Shows (.emptying msgCount) (.called .empty) (.counting msgCount)
  | emptied (msgCount : UInt8) (empty : Bool) :
      Shows (.emptying msgCount) (.done (.flag empty)) (if empty then .test else .popping msgCount)
  | popping (msgCount : UInt8) : Shows (.popping msgCount) .idle (.popping msgCount)
  | taking (msgCount : UInt8) : Shows (.taking msgCount) (.called .popFront) (.popping msgCount)
  | taken (msgCount : UInt8) (msg : OwnedMessage Peer) :
      Shows (.taking msgCount) (.done (.value (some msg))) (.handling msgCount msg)
  | handling (msgCount : UInt8) (msg : OwnedMessage Peer) :
      Shows (.handling msgCount (some msg)) .idle (.handling msgCount msg)
  | ended : Shows .ended .idle .ended

def ofPeer (peer : Peer) (sent : List (OwnedMessage Peer)) : List (OwnedMessage Peer) :=
  sent.filter fun owned => decide (owned.remote = peer)

def pending : Phase (Call (OwnedMessage Peer)) (Answer (OwnedMessage Peer)) → List (OwnedMessage Peer)
  | .called (.pushBack owned) => [owned]
  | _ => []

structure Refines (a : AtomicQueue Peer) (t : InboundDelivery.Inbound Peer) : Prop where
  maximum : t.pump.maxMessages = a.client.maxMessages
  queue : t.pump.mMessagesIn = a.state.cells.map Prod.snd
  handled : a.client.handled = t.pump.handled.map some
  place : Shows a.client.pc (a.phase .pump) t.pump.pc
  below : ∀ msgCount, a.client.pc = .emptying msgCount → msgCount < a.client.maxMessages
  pushing : ∀ peer call, a.phase (.peer peer) = .called call → ∃ owned, call = .pushBack owned ∧ owned.remote = peer
  pushed : ∀ peer, ofPeer peer a.client.pushes =
    ofPeer peer t.pushed ++ pending (a.phase (.peer peer))

variable {a next : AtomicQueue Peer} {t : InboundDelivery.Inbound Peer}

theorem fresh_refines (maxMessages : UInt8) :
    Refines (.fresh .none (.fresh maxMessages) : AtomicQueue Peer) (InboundDelivery.fresh maxMessages) :=
  ⟨rfl,rfl,rfl,.test,nofun,nofun,fun _ => rfl⟩

theorem ofPeer_append (peer : Peer) (sent more : List (OwnedMessage Peer)) :
    ofPeer peer (sent ++ more) = ofPeer peer sent ++ ofPeer peer more :=
  List.filter_append ..

-- A step of the pump touches no other call.
theorem Refines.pump (refines : Refines a t) (client : Client Peer) (state : Contents (OwnedMessage Peer))
    (phase : Phase (Call (OwnedMessage Peer)) (Answer (OwnedMessage Peer)))
    (pump : MessagePump.Pump (OwnedMessage Peer)) (same : client.pushes = a.client.pushes)
    (maximum : client.maxMessages = a.client.maxMessages) (limit : pump.maxMessages = t.pump.maxMessages)
    (queue : pump.mMessagesIn = state.cells.map Prod.snd) (handled : client.handled = pump.handled.map some)
    (place : Shows client.pc phase pump.pc)
    (below : ∀ msgCount, client.pc = .emptying msgCount → msgCount < client.maxMessages) (ticked : Nat) :
    Refines (⟨state,Function.update a.phase .pump phase,client⟩ : AtomicQueue Peer)
      {t with pump := pump, ticked := ticked} := by
  have elsewhere (peer : Peer) : Function.update a.phase .pump phase (.peer peer) = a.phase (.peer peer) :=
    Function.update_of_ne (by simp) ..
  refine ⟨limit.trans (refines.maximum.trans maximum.symm),queue,handled,?_,below,?_,?_⟩
  · show Shows client.pc (Function.update a.phase .pump phase .pump) pump.pc
    rw [Function.update_self]
    exact place
  · intro peer call called
    exact refines.pushing peer call ((elsewhere peer).symm.trans called)
  · intro peer
    show ofPeer peer client.pushes = ofPeer peer t.pushed ++ pending (Function.update a.phase .pump phase (.peer peer))
    rw [elsewhere,same]
    exact refines.pushed peer

theorem pump_call_refines (refines : Refines a t)
    (stepped : Atomic.step follow apply a (.call .pump call) = some next) : Refines next t := by
  cases phase : a.phase .pump <;> simp only [Atomic.step,phase,reduceCtorEq] at stepped
  obtain ⟨client,followed,rfl⟩ := Option.map_eq_some_iff.mp stepped
  have place := refines.place
  rw [phase] at place
  generalize isPc : t.pump.pc = shown at place
  cases call with
  | empty =>
      simp only [follow,Client.calls] at followed
      cases pc : a.client.pc <;>
        simp only [pc,reduceCtorEq,Option.ite_none_right_eq_some,Option.some.injEq] at followed place
      obtain ⟨below,rfl⟩ := followed
      cases place
      exact refines.pump {a.client with pc := .emptying _} a.state (.called .empty) t.pump rfl rfl rfl refines.queue
        refines.handled (by rw [isPc]; exact .emptying _) (by rintro _ ⟨⟩; exact below) t.ticked
  | popFront =>
      simp only [follow,Client.calls] at followed
      cases pc : a.client.pc <;> simp only [pc,reduceCtorEq,Option.some.injEq] at followed place
      subst followed
      cases place
      exact refines.pump {a.client with pc := .taking _} a.state (.called .popFront) t.pump rfl rfl rfl refines.queue
        refines.handled (by rw [isPc]; exact .taking _) (by simp) t.ticked
  | _ => cases followed

omit [DecidableEq Peer] in
theorem pump_ran (ticks : t.pump.step shutdown = some pump) : run InboundDelivery.step t [.pump shutdown] =
    some {t with pump := pump, ticked := InboundDelivery.ticking t.pump.pc t.ticked} := by
  simp [run,InboundDelivery.step,ticks]

theorem pump_effect_refines (refines : Refines a t)
    (stepped : Atomic.step follow apply a (.effect .pump) = some next) :
    ∃ after, run InboundDelivery.step t [.pump false] = some after ∧ Refines next after := by
  have place := refines.place
  cases phase : a.phase .pump <;> simp only [Atomic.step,phase,reduceCtorEq] at stepped place
  obtain ⟨⟨answer,state⟩,applied,rfl⟩ := Option.map_eq_some_iff.mp stepped
  generalize isPc : t.pump.pc = shown at place
  generalize pc : a.client.pc = pc' at place
  cases place with
  | emptying msgCount =>
      cases applied
      have below := refines.below msgCount pc
      rw [← refines.maximum] at below
      have ticks : t.pump.step false =
          some {t.pump with pc := if a.state.cells.isEmpty then .test else .popping msgCount} := by
        simp only [MessagePump.Pump.step,isPc,below,decide_true,Bool.true_and,refines.queue]
        cases a.state.cells <;> rfl
      refine ⟨_,pump_ran ticks,?_⟩
      exact refines.pump a.client a.state (.done (.flag a.state.cells.isEmpty))
        {t.pump with pc := if a.state.cells.isEmpty then .test else .popping msgCount} rfl rfl rfl refines.queue
        refines.handled (by rw [pc]; exact .emptied msgCount a.state.cells.isEmpty) refines.below _
  | taking msgCount =>
      obtain ⟨⟨name,msg⟩,first,same⟩ := Option.map_eq_some_iff.mp applied
      cases same
      obtain ⟨rest,cells⟩ := List.head?_eq_some_iff.mp first
      have queue : t.pump.mMessagesIn = msg :: rest.map Prod.snd := by rw [refines.queue,cells,List.map_cons]
      have ticks : t.pump.step false =
          some {t.pump with mMessagesIn := rest.map Prod.snd, pc := .handling msgCount msg} := by
        simp only [MessagePump.Pump.step,isPc,queue]
      refine ⟨_,pump_ran ticks,?_⟩
      exact refines.pump a.client {a.state with cells := a.state.cells.tail} (.done (.value (some msg)))
        {t.pump with mMessagesIn := rest.map Prod.snd, pc := .handling msgCount msg} rfl rfl rfl (by rw [cells]; rfl)
        refines.handled (by rw [pc]; exact .taken msgCount msg) refines.below _

theorem pump_answer_refines (refines : Refines a t)
    (stepped : Atomic.step follow apply a (.answer .pump) = some next) : Refines next t := by
  have place := refines.place
  cases phase : a.phase .pump <;> simp only [Atomic.step,phase,reduceCtorEq] at stepped place
  obtain ⟨client,followed,rfl⟩ := Option.map_eq_some_iff.mp stepped
  generalize isPc : t.pump.pc = shown at place
  generalize pc : a.client.pc = pc' at place
  cases place with
  | emptied msgCount empty =>
      simp only [follow,Client.hears,pc,Option.some.injEq] at followed
      subst followed
      refine refines.pump {a.client with pc := if empty then .test else .popping msgCount} a.state .idle t.pump rfl rfl
        rfl refines.queue refines.handled ?_ ?_ t.ticked
      · rw [isPc]
        cases empty
        · exact .popping msgCount
        · exact .test
      · intro other asking
        cases empty <;> cases asking
  | taken msgCount msg =>
      simp only [follow,Client.hears,pc,Option.some.injEq] at followed
      subst followed
      exact refines.pump {a.client with pc := .handling msgCount (some msg)} a.state .idle t.pump rfl rfl rfl
        refines.queue refines.handled (by rw [isPc]; exact .handling msgCount msg) (by simp) t.ticked

-- The client's phase changes with no step that is seen.
theorem note_refines (refines : Refines a t) (stepped : Atomic.step follow apply a (.note shutdown) = some next) :
    ∃ after, run InboundDelivery.step t [.pump shutdown] = some after ∧ Refines next after := by
  obtain ⟨client,followed,rfl⟩ := Option.map_eq_some_iff.mp stepped
  have place := refines.place
  have keeps : Function.update a.phase .pump (a.phase .pump) = a.phase := Function.update_eq_self ..
  generalize isPc : t.pump.pc = shown at place
  generalize pc : a.client.pc = pc' at place
  generalize phase : a.phase .pump = phase' at place keeps
  simp only [follow,Client.alone,pc] at followed
  rw [← keeps]
  cases place with
  | test =>
      cases followed
      have ticks : t.pump.step shutdown = some {t.pump with pc := if shutdown then .ended else .counting 0} := by
        simp only [MessagePump.Pump.step,isPc]
      refine ⟨_,pump_ran ticks,?_⟩
      refine refines.pump {a.client with pc := if shutdown then .ended else .counting 0} a.state .idle
        {t.pump with pc := if shutdown then .ended else .counting 0} rfl rfl rfl refines.queue refines.handled ?_ ?_ _
      · cases shutdown
        · exact .counting 0
        · exact .ended
      · intro other asking
        cases shutdown <;> cases asking
  | counting msgCount =>
      simp only [Option.ite_none_left_eq_some,Option.some.injEq] at followed
      obtain ⟨full,rfl⟩ := followed
      have ticks : t.pump.step shutdown = some {t.pump with pc := .test} := by
        simp only [MessagePump.Pump.step,isPc,refines.maximum,full,decide_false,Bool.false_and,Bool.false_eq_true,
          if_false]
      refine ⟨_,pump_ran ticks,?_⟩
      exact refines.pump {a.client with pc := .test} a.state .idle {t.pump with pc := .test} rfl rfl rfl refines.queue
        refines.handled .test (by simp) _
  | handling msgCount msg =>
      cases followed
      have ticks : t.pump.step shutdown =
          some {t.pump with handled := t.pump.handled ++ [msg], pc := .counting (msgCount + 1)} := by
        simp only [MessagePump.Pump.step,isPc]
      refine ⟨_,pump_ran ticks,?_⟩
      exact refines.pump {a.client with handled := a.client.handled ++ [some msg], pc := .counting (msgCount + 1)}
        a.state .idle {t.pump with handled := t.pump.handled ++ [msg], pc := .counting (msgCount + 1)} rfl rfl rfl
        refines.queue (by simp [refines.handled]) (.counting (msgCount + 1)) (by simp) _
  | _ => cases followed

-- A step of a peer's handler: of its own messages one may be pending, or be pushed.
theorem Refines.peer (refines : Refines a t) (peer : Peer) (state : Contents (OwnedMessage Peer))
    (phase : Phase (Call (OwnedMessage Peer)) (Answer (OwnedMessage Peer))) (called effected : List (OwnedMessage Peer))
    (own : ∀ owned ∈ called ++ effected, owned.remote = peer)
    (pending : ∀ call, phase = .called call → ∃ owned, call = .pushBack owned ∧ owned.remote = peer)
    (counted : LockedInbound.pending (a.phase (.peer peer)) ++ called = effected ++ LockedInbound.pending phase)
    (cells : state.cells.map Prod.snd = a.state.cells.map Prod.snd ++ effected) :
    Refines (⟨state,Function.update a.phase (.peer peer) phase,{a.client with pushes := a.client.pushes ++ called}⟩ :
        AtomicQueue Peer)
      {t with
        pump := {t.pump with mMessagesIn := t.pump.mMessagesIn ++ effected}
        pushed := t.pushed ++ effected} := by
  have elsewhere {side : Side Peer} (other : side ≠ .peer peer) :
      Function.update a.phase (.peer peer) phase side = a.phase side :=
    Function.update_of_ne other ..
  refine ⟨refines.maximum,by rw [cells,refines.queue],refines.handled,?_,refines.below,?_,?_⟩
  · show Shows a.client.pc (Function.update a.phase (.peer peer) phase .pump) t.pump.pc
    rw [elsewhere (by simp)]
    exact refines.place
  · intro other call calls
    by_cases here : other = peer
    · subst here
      have now : Function.update a.phase (.peer other) phase (.peer other) = phase :=
        Function.update_self (Side.peer other) ..
      exact pending call (now.symm.trans calls)
    · exact refines.pushing other call ((elsewhere (by simpa using here)).symm.trans calls)
  · intro other
    show ofPeer other (a.client.pushes ++ called) = ofPeer other (t.pushed ++ effected) ++
      LockedInbound.pending (Function.update a.phase (.peer peer) phase (.peer other))
    rw [ofPeer_append,ofPeer_append,refines.pushed other]
    by_cases here : other = peer
    · subst here
      have all : ∀ part, (∀ owned ∈ part, owned.remote = other) → ofPeer other part = part := fun part owns =>
        List.filter_eq_self.mpr fun owned member => decide_eq_true (owns owned member)
      rw [Function.update_self,all called fun owned member => own owned (List.mem_append_left _ member),
        all effected fun owned member => own owned (List.mem_append_right _ member),List.append_assoc,counted,
        List.append_assoc]
    · have none : ∀ part, (∀ owned ∈ part, owned.remote = peer) → ofPeer other part = [] := fun part owns =>
        List.filter_eq_nil_iff.mpr fun owned member => by
          rw [owns owned member]
          simpa using Ne.symm here
      rw [elsewhere (by simpa using here),none called fun owned member => own owned (List.mem_append_left _ member),
        none effected fun owned member => own owned (List.mem_append_right _ member),List.append_nil,List.append_nil]

theorem peer_call_refines (refines : Refines a t)
    (stepped : Atomic.step follow apply a (.call (.peer peer) call) = some next) : Refines next t := by
  cases phase : a.phase (.peer peer) <;> simp only [Atomic.step,phase,reduceCtorEq] at stepped
  obtain ⟨client,followed,rfl⟩ := Option.map_eq_some_iff.mp stepped
  cases call with
  | pushBack owned =>
      simp only [follow,Option.ite_none_right_eq_some,Option.some.injEq] at followed
      obtain ⟨own,rfl⟩ := followed
      have kept := refines.peer peer a.state (.called (.pushBack owned)) [owned] [] (by simpa using own)
        (by rintro _ ⟨⟩; exact ⟨owned,rfl,own⟩) (by rw [phase]; rfl) (by simp)
      simpa only [List.append_nil] using kept
  | _ => cases followed

theorem peer_effect_refines (refines : Refines a t)
    (stepped : Atomic.step follow apply a (.effect (.peer peer)) = some next) :
    ∃ events after, run InboundDelivery.step t events = some after ∧ Refines next after := by
  cases phase : a.phase (.peer peer) <;> simp only [Atomic.step,phase,reduceCtorEq] at stepped
  obtain ⟨⟨answer,state⟩,applied,rfl⟩ := Option.map_eq_some_iff.mp stepped
  obtain ⟨owned,rfl,own⟩ := refines.pushing peer _ phase
  cases applied
  have kept := refines.peer peer ⟨a.state.cells ++ [(a.state.next,owned)],a.state.next + 1⟩ (.done .nothing) [] [owned]
    (by simpa using own) (by simp) (by rw [phase]; rfl) (by simp)
  rw [List.append_nil] at kept
  exact ⟨[.push owned],_,rfl,kept⟩

theorem peer_answer_refines (refines : Refines a t)
    (stepped : Atomic.step follow apply a (.answer (.peer peer)) = some next) : Refines next t := by
  cases phase : a.phase (.peer peer) <;> simp only [Atomic.step,phase,reduceCtorEq] at stepped
  obtain ⟨client,followed,rfl⟩ := Option.map_eq_some_iff.mp stepped
  cases followed
  have kept := refines.peer peer a.state .idle [] [] (by simp) (by simp) (by rw [phase]; rfl) (by simp)
  simpa only [List.append_nil] using kept

theorem step_refines (refines : Refines a t) (stepped : Atomic.step follow apply a event = some next) :
    ∃ events after, run InboundDelivery.step t events = some after ∧ Refines next after := by
  cases event with
  | call side call =>
      cases side with
      | pump => exact ⟨[],t,rfl,pump_call_refines refines stepped⟩
      | peer peer => exact ⟨[],t,rfl,peer_call_refines refines stepped⟩
  | effect side =>
      cases side with
      | pump => exact ⟨_,pump_effect_refines refines stepped⟩
      | peer peer => exact peer_effect_refines refines stepped
  | answer side =>
      cases side with
      | pump => exact ⟨[],t,rfl,pump_answer_refines refines stepped⟩
      | peer peer => exact ⟨[],t,rfl,peer_answer_refines refines stepped⟩
  | note shutdown => exact ⟨_,note_refines refines stepped⟩

theorem run_refines (refines : Refines a t) (ran : run (Atomic.step follow apply) a effects = some next) :
    ∃ events after, run InboundDelivery.step t events = some after ∧ Refines next after :=
  simulated (fun _ _ _ _ => step_refines) refines ran

-- An empty queue, and no call of pushBack that is still to take effect.
structure Drained (s : Queue Peer) : Prop where
  pump : s.client.pc = .test
  free : s.holder = none
  empty : s.shared.cells = []
  told : ∀ peer call, (s.stage (.peer peer)).phase ≠ .called call

-- The queue of mutex and deque does for update what the one of single steps does.
structure Pumped (maxMessages : UInt8) (s : Queue Peer) : Prop where
  defined : ∀ side, ¬ Undefined s side
  atomic : ∃ (events : List (InboundDelivery.Event Peer)) (t : InboundDelivery.Inbound Peer),
    run InboundDelivery.step (InboundDelivery.fresh maxMessages) events = some t ∧
      s.client.handled = t.pump.handled.map some ∧
      (s.holder = none → s.shared.cells.map Prod.snd = t.pump.mMessagesIn.map some)
  ordered : ∃ handled : List (OwnedMessage Peer), s.client.handled = handled.map some ∧
    ∀ peer, ofPeer peer handled <+: ofPeer peer s.client.pushes ∧
      (Drained s → ofPeer peer handled = ofPeer peer s.client.pushes)

theorem refines_defined (refines : Refines a t) (delivered : InboundDelivery.Delivered maxMessages t)
    (phase : a.phase side = .called call) : apply call a.state ≠ none := by
  intro none
  obtain ⟨takes,empty⟩ := apply_none none
  cases side with
  | peer peer =>
      obtain ⟨owned,rfl,_⟩ := refines.pushing peer call phase
      cases takes
  | pump =>
      have place := refines.place
      rw [phase] at place
      generalize isPc : t.pump.pc = shown at place
      generalize a.client.pc = pc at place
      cases place with
      | emptying msgCount => cases takes
      | taking msgCount => exact delivered.safe msgCount isPc (by rw [refines.queue,empty]; rfl)

theorem drained_pushed {s : Queue Peer} (lin : Linearizes code embed s a) (refines : Refines a t)
    (delivered : InboundDelivery.Delivered maxMessages t) (drained : Drained s) (peer : Peer) :
    ofPeer peer t.pump.handled = ofPeer peer a.client.pushes := by
  have cells : a.state.cells = [] := by
    have same := lin.free drained.free ▸ drained.empty
    exact List.map_eq_nil_iff.mp same
  have queue : t.pump.mMessagesIn = [] := by
    rw [refines.queue,cells,List.map_nil]
  have hand : InboundDelivery.inHand t.pump.pc = [] := by
    have place := refines.place
    rw [← lin.client,drained.pump] at place
    generalize t.pump.pc = shown at place
    generalize a.phase .pump = phase at place
    cases place
    rfl
  have none : pending (a.phase (.peer peer)) = [] := by
    rw [← lin.phases]
    cases phase : (s.stage (.peer peer)).phase with
    | called call => exact absurd phase (drained.told peer call)
    | idle | done => rfl
  have pushed := delivered.lossless
  rw [queue,hand,List.append_nil,List.append_nil] at pushed
  rw [refines.pushed peer,none,List.append_nil,pushed]

theorem pumped (maxMessages : UInt8) (events : List (Event (Side Peer) (Call (OwnedMessage Peer)) Bool))
    (ran : run (Locked.step follow code) (.fresh (embed .none) (.fresh maxMessages)) events = some s) :
    Pumped maxMessages s := by
  obtain ⟨effects,a,went,lin⟩ := run_linearizes implements (fresh_linearizes code embed .none _) ran
  obtain ⟨inbound,t,came,refines⟩ := run_refines (fresh_refines maxMessages) went
  have delivered := InboundDelivery.invariant_delivered
    (Runs.invariant InboundDelivery.step_invariant (InboundDelivery.fresh_invariant maxMessages) came)
  have handled : s.client.handled = t.pump.handled.map some := by rw [lin.client,refines.handled]
  refine ⟨fun side undefined => ?_,⟨inbound,t,came,handled,fun free => ?_⟩,t.pump.handled,handled,fun peer => ⟨?_,?_⟩⟩
  · obtain ⟨call,phase,none⟩ := undefined_called implements lin undefined
    exact refines_defined refines delivered phase none
  · rw [lin.free free,refines.queue,embed,List.map_map,List.map_map]
    rfl
  · rw [lin.client,refines.pushed peer]
    exact (delivered.perPeer peer).trans (List.prefix_append _ _)
  · intro drained
    rw [lin.client]
    exact drained_pushed lin refines delivered drained peer

-- A push holds the mutex when the pump asks whether the queue is empty.
theorem pumped_tick : ∃ s : Queue Nat, Pumped 255 s ∧ s.client.handled = [some InboundDelivery.first] :=
  ⟨_,pumped 255 [.note false,.call (.peer 0) (.pushBack InboundDelivery.first),.lock (.peer 0),.call .pump .empty,
    .move (.peer 0),.unlock (.peer 0),.lock .pump,.move .pump,.unlock .pump,.answer .pump,.call .pump .popFront,
    .lock .pump,.move .pump,.move .pump,.unlock .pump,.answer .pump,.note false] rfl,rfl⟩

end Keyser.LockedInbound
