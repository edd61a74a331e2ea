import Keyser.PeerSend

namespace Keyser.Flushing
open Framing PeerSend

-- The steps by which what has been told gets on the wire.
def flushes : Event → Bool
  | .posted _ | .transmit _ _ | .written _ => true
  | _ => false

-- An open socket with no write failed, and the messages it has been told to send.
structure Flowing (told : List NetMessage) (s : Sender) : Prop where
  inv : Invariant s
  isOpen : s.isOpen = true
  alive : s.failed = false
  told : s.posted ++ s.handlers = told

theorem writePart_queue (s : Sender) (part : Part) (buffer : NetMessage → List UInt8) :
    (s.writePart part buffer).messagesOut = s.messagesOut := by
  unfold Sender.writePart
  split <;> rfl

theorem writeNext_pops {s : Sender} (front : s.messagesOut = msg :: rest) : s.writeNext.messagesOut = rest := by
  simp only [Sender.writeNext,Sender.popFront,front]
  cases rest <;> simp [Sender.writeHeader,Sender.writePart]

-- The socket takes all that is left of the write in flight.
def drained (s : Sender) (op : WriteOp) : Sender := {s with wire := s.wire ++ op.unsent, writing := []}

theorem finish_run {s : Sender} (isOpen : s.isOpen = true) (single : s.writing = [op]) :
    Runs.run step s [.transmit 0 op.unsent.length,.written 0] = some ((drained s op).onWritten op.part) := by
  simp [Runs.run,step,single,isOpen,drained]

theorem finish {s : Sender} (flowing : Flowing told s) (single : s.writing = [op]) :
    Flowing told ((drained s op).onWritten op.part) ∧ ((drained s op).onWritten op.part).handlers = s.handlers := by
  have kept := onWritten_undisturbed (drained s op) op.part
  have inv : Invariant ((drained s op).onWritten op.part) :=
    Runs.invariant step_invariant flowing.inv (finish_run flowing.isOpen single)
  exact ⟨⟨inv,kept.isOpen.trans flowing.isOpen,kept.failed.trans flowing.alive,
    by rw [kept.posted,kept.handlers]; exact flowing.told⟩,kept.handlers⟩

-- Of a message whose body is in flight nothing is left to do but that.
theorem body_gone {s : Sender} (flowing : Flowing told s) (single : s.writing = [op]) (isBody : op.part = .body)
    (front : s.messagesOut = msg :: rest) : ∃ events next, (∀ event ∈ events, flushes event = true) ∧
      Runs.run step s events = some next ∧ Flowing told next ∧ next.handlers = s.handlers ∧
      next.messagesOut = rest := by
  obtain ⟨flows,handlers⟩ := finish flowing single
  refine ⟨[.transmit 0 op.unsent.length,.written 0],_,by simp [flushes],
    finish_run flowing.isOpen single,flows,handlers,?_⟩
  · rw [isBody]
    exact writeNext_pops (s := drained s op) front

theorem front_gone {s : Sender} (flowing : Flowing told s) (front : s.messagesOut = msg :: rest) :
    ∃ events next, (∀ event ∈ events, flushes event = true) ∧ Runs.run step s events = some next ∧
      Flowing told next ∧ next.handlers = s.handlers ∧ next.messagesOut = rest := by
  cases flowing.inv.phase with
  | idle quiet empty wire => rw [front] at empty; cases empty
  | stuck msg rest quiet failed queued wire => rw [flowing.alive] at failed; cases failed
  | writing op first others single queued own left wire =>
      cases part : op.part with
      | body => exact body_gone flowing single part front
      | header =>
          obtain ⟨flows,handlers⟩ := finish flowing single
          have ran := finish_run flowing.isOpen single
          rw [part] at flows handlers ran
          by_cases bodied : 0 < msg.body.size
          · have goesOn : (drained s op).onWritten .header = (drained s op).writeBody := by
              simp [Sender.onWritten,Sender.onHeaderWritten,drained,front,bodied]
            rw [goesOn] at flows handlers ran
            have inFlight : (drained s op).writeBody.writing = [⟨.body,s.popped,msg.body.bytes⟩] := by
              simp [drained,Sender.writeBody,Sender.writePart,front]
            have waiting : (drained s op).writeBody.messagesOut = msg :: rest := by
              simp [drained,Sender.writeBody,Sender.writePart,front]
            obtain ⟨events,next,kinds,went,flowsOn,same,gone⟩ := body_gone flows inFlight rfl waiting
            exact ⟨[.transmit 0 op.unsent.length,.written 0] ++ events,next,
              List.forall_mem_append.mpr ⟨by simp [flushes],kinds⟩,
              by rw [Runs.run_append,ran]; exact went,flowsOn,same.trans handlers,gone⟩
          · have goesOn : (drained s op).onWritten .header = (drained s op).writeNext := by
              simp [Sender.onWritten,Sender.onHeaderWritten,drained,front,bodied]
            rw [goesOn] at flows handlers ran
            exact ⟨[.transmit 0 op.unsent.length,.written 0],_,by simp [flushes],ran,flows,handlers,
              writeNext_pops (s := drained s op) front⟩

theorem handler_runs {s : Sender} (flowing : Flowing told s) (waiting : s.handlers = msg :: rest) :
    ∃ next, Runs.run step s [.posted 0] = some next ∧ Flowing told next ∧ next.handlers = rest ∧
      next.messagesOut.length = s.messagesOut.length + 1 := by
  have ran : Runs.run step s [.posted 0] = some ({s with handlers := rest}.onPosted msg) := by
    simp [Runs.run,step,waiting]
  have kept := onPosted_undisturbed {s with handlers := rest} msg
  have told' := flowing.told
  rw [waiting] at told'
  refine ⟨_,ran,⟨Runs.invariant step_invariant flowing.inv ran,kept.isOpen.trans flowing.isOpen,
    kept.failed.trans flowing.alive,?_⟩,kept.handlers,?_⟩
  · rw [kept.posted,kept.handlers]
    simpa using told'
  · simp only [Sender.onPosted]
    split
    · simp
    · simp [Sender.writeHeader,writePart_queue]

def unflushed (s : Sender) : Nat := 2*s.handlers.length + s.messagesOut.length

-- All that a flowing sender has been told can be brought on the wire.
theorem flush {s : Sender} (flowing : Flowing told s) : ∃ events next, (∀ event ∈ events, flushes event = true) ∧
    Runs.run step s events = some next ∧ Flowing told next ∧ unflushed next = 0 := by
  refine Runs.exhaust ?_ flowing
  intro s flowing left
  cases waiting : s.handlers with
  | cons msg rest =>
      obtain ⟨next,ran,flows,handlers,longer⟩ := handler_runs flowing waiting
      refine ⟨_,next,by simp [flushes],ran,flows,?_⟩
      simp only [unflushed,handlers,longer,waiting,List.length_cons]
      omega
  | nil =>
      cases front : s.messagesOut with
      | nil => simp [unflushed,waiting,front] at left
      | cons msg rest =>
          obtain ⟨events,next,kinds,ran,flows,handlers,gone⟩ := front_gone flowing front
          refine ⟨events,next,kinds,ran,flows,?_⟩
          simp [unflushed,handlers,gone,waiting,front]

end Keyser.Flushing
