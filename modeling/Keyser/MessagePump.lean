import Mathlib.Logic.Basic

namespace Keyser.MessagePump

variable {Message : Type}

-- The places of NetInterface::update: the mShutdown test after its sleep, the inner
-- loop's condition, popFront, onMessage.
inductive Pc (Message : Type) where
  | test
  | counting (msgCount : UInt8)
  | popping (msgCount : UInt8)
  | handling (msgCount : UInt8) (msg : Message)
  | ended
  deriving DecidableEq

structure Pump (Message : Type) where
  maxMessages : UInt8
  mMessagesIn : List Message
  pc : Pc Message
  handled : List Message
  emptyFront : Bool
  deriving DecidableEq

def fresh (maxMessages : UInt8) : Pump Message := ⟨maxMessages,[],.test,[],false⟩

def Pump.pushBack (pump : Pump Message) (msg : Message) : Pump Message :=
  {pump with mMessagesIn := pump.mMessagesIn ++ [msg]}

-- One step of update; `shutdown` is what the test reads.
def Pump.step (pump : Pump Message) (shutdown : Bool) : Option (Pump Message) :=
  match pump.pc with
  | .test => some {pump with pc := if shutdown then .ended else .counting 0}
  | .counting msgCount =>
    if decide (msgCount < pump.maxMessages) && !pump.mMessagesIn.isEmpty then
      some {pump with pc := .popping msgCount}
    else some {pump with pc := .test}
  | .popping msgCount =>
    match pump.mMessagesIn with
    | [] => some {pump with emptyFront := true}
    | msg :: rest => some {pump with mMessagesIn := rest, pc := .handling msgCount msg}
  | .handling msgCount msg =>
    some {pump with handled := pump.handled ++ [msg], pc := .counting (msgCount + 1)}
  | .ended => none

theorem step_ended {pump next : Pump Message} (stepped : pump.step shutdown = some next)
    (ended : next.pc = .ended) : pump.pc = .test ∧ shutdown = true := by
  unfold Pump.step at stepped
  cases place : pump.pc <;> simp only [place] at stepped
  case test =>
    cases stepped
    cases shutdown
    · cases ended
    · exact ⟨rfl,rfl⟩
  case counting msgCount => split at stepped <;> cases stepped <;> cases ended
  case popping msgCount =>
    split at stepped <;> cases stepped
    · cases ended
    · cases ended
  case handling msgCount msg => cases stepped; cases ended
  case ended => cases stepped

theorem test_ends {pump next : Pump Message} (testing : pump.pc = .test)
    (stepped : pump.step true = some next) : next.pc = .ended := by
  simp only [Pump.step,testing] at stepped
  cases stepped
  rfl

theorem ended_stays {pump : Pump Message} (ended : pump.pc = .ended) : pump.step shutdown = none := by
  simp [Pump.step,ended]

end Keyser.MessagePump
