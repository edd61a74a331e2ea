import Keyser.MessagePump
import Keyser.PeerReceive
import Keyser.Runs

namespace Keyser.InboundDelivery
open MessagePump PeerReceive

variable {Peer : Type}

-- The pump and the peers on one mMessagesIn. The last two fields are history: what was
-- pushed, in order, and how many messages this tick has handed to onMessage.
structure Inbound (Peer : Type) where
  pump : Pump (OwnedMessage Peer)
  pushed : List (OwnedMessage Peer)
  ticked : Nat

def fresh (maxMessages : UInt8) : Inbound Peer := ⟨MessagePump.fresh maxMessages,[],0⟩

inductive Event (Peer : Type) where
  | push (owned : OwnedMessage Peer)
  | pump (shutdown : Bool)

def ticking (pc : Pc (OwnedMessage Peer)) (ticked : Nat) : Nat :=
  match pc with
  | .test => 0
  | .handling _ _ => ticked + 1
  | _ => ticked

-- empty(), popFront() and onMessage are steps of their own: a push can come between.
def step (s : Inbound Peer) : Event Peer → Option (Inbound Peer)
  | .push owned => some {s with pump := s.pump.pushBack owned, pushed := s.pushed ++ [owned]}
  | .pump shutdown =>
    (s.pump.step shutdown).map fun pump => {s with pump := pump, ticked := ticking s.pump.pc s.ticked}

def inHand : Pc (OwnedMessage Peer) → List (OwnedMessage Peer)
  | .handling _ msg => [msg]
  | _ => []

def counter : Pc (OwnedMessage Peer) → Option UInt8
  | .counting msgCount | .popping msgCount | .handling msgCount _ => some msgCount
  | _ => none

def admitted : Pc (OwnedMessage Peer) → Bool
  | .popping _ | .handling _ _ => true
  | _ => false

structure Invariant (maxMessages : UInt8) (s : Inbound Peer) : Prop where
  maximum : s.pump.maxMessages = maxMessages
  defined : s.pump.emptyFront = false
  waiting : ∀ msgCount, s.pump.pc = .popping msgCount → s.pump.mMessagesIn ≠ []
  lossless : s.pump.handled ++ inHand s.pump.pc ++ s.pump.mMessagesIn = s.pushed
  bounded : s.ticked ≤ maxMessages.toNat
  counted : ∀ msgCount, counter s.pump.pc = some msgCount → msgCount.toNat = s.ticked
  below : admitted s.pump.pc = true → s.ticked < maxMessages.toNat

theorem fresh_invariant (maxMessages : UInt8) : Invariant maxMessages (fresh maxMessages : Inbound Peer) :=
  ⟨rfl,rfl,nofun,rfl,Nat.zero_le _,nofun,nofun⟩

theorem push_invariant {s : Inbound Peer} (inv : Invariant maxMessages s) (owned : OwnedMessage Peer) :
    Invariant maxMessages {s with pump := s.pump.pushBack owned, pushed := s.pushed ++ [owned]} := by
  refine ⟨inv.maximum,inv.defined,?_,?_,inv.bounded,inv.counted,inv.below⟩
  · intro msgCount popping
    simp [Pump.pushBack]
  · rw [← inv.lossless]
    simp [Pump.pushBack]

-- The pump is the only one that pops, so what empty() has told it stays true.
theorem pump_invariant {s : Inbound Peer} {pump : Pump (OwnedMessage Peer)} (inv : Invariant maxMessages s)
    (stepped : s.pump.step shutdown = some pump) :
    Invariant maxMessages {s with pump := pump, ticked := ticking s.pump.pc s.ticked} := by
  obtain ⟨maximum,defined,waiting,lossless,bounded,counted,below⟩ := inv
  unfold Pump.step at stepped
  cases place : s.pump.pc <;> simp only [place] at stepped waiting lossless counted below
  case test =>
    cases stepped
    cases shutdown
    · exact ⟨maximum,defined,nofun,lossless,Nat.zero_le _,by simp [counter,ticking],nofun⟩
    · exact ⟨maximum,defined,nofun,lossless,Nat.zero_le _,nofun,nofun⟩
  case counting msgCount =>
    have counts : msgCount.toNat = s.ticked := counted msgCount rfl
    split at stepped <;> cases stepped
    · rename_i admits
      simp only [Bool.and_eq_true,decide_eq_true_eq,Bool.not_eq_true',List.isEmpty_eq_false_iff] at admits
      obtain ⟨less,nonempty⟩ := admits
      refine ⟨maximum,defined,fun _ _ => nonempty,lossless,bounded,counted,fun _ => ?_⟩
      rw [maximum] at less
      exact counts ▸ UInt8.lt_iff_toNat_lt.mp less
    · exact ⟨maximum,defined,nofun,lossless,bounded,nofun,nofun⟩
  case popping msgCount =>
    obtain ⟨msg,rest,queue⟩ := List.exists_cons_of_ne_nil (waiting msgCount rfl)
    simp only [queue] at stepped lossless
    cases stepped
    exact ⟨maximum,defined,nofun,by simpa [inHand] using lossless,bounded,counted,below⟩
  case handling msgCount msg =>
    cases stepped
    have counts : msgCount.toNat = s.ticked := counted msgCount rfl
    have room := below rfl
    have largest := maxMessages.toNat_lt
    refine ⟨maximum,defined,nofun,by simpa [inHand] using lossless,room,?_,nofun⟩
    intro _ same
    cases same
    simp only [ticking,UInt8.toNat_add,UInt8.toNat_one]
    omega
  case ended => cases stepped

theorem step_invariant (s : Inbound Peer) (event : Event Peer) (next : Inbound Peer)
    (inv : Invariant maxMessages s) (stepped : step s event = some next) : Invariant maxMessages next := by
  cases event with
  | push owned => cases stepped; exact push_invariant inv owned
  | pump shutdown =>
      obtain ⟨pump,pumped,rfl⟩ := Option.map_eq_some_iff.mp stepped
      exact pump_invariant inv pumped

structure Delivered [DecidableEq Peer] (maxMessages : UInt8) (s : Inbound Peer) : Prop where
  defined : s.pump.emptyFront = false
  safe : ∀ msgCount, s.pump.pc = .popping msgCount → s.pump.mMessagesIn ≠ []
  ordered : s.pump.handled <+: s.pushed
  lossless : s.pump.handled ++ inHand s.pump.pc ++ s.pump.mMessagesIn = s.pushed
  perPeer : ∀ peer, s.pump.handled.filter (fun owned => decide (owned.remote = peer)) <+:
    s.pushed.filter fun owned => decide (owned.remote = peer)
  bounded : s.ticked ≤ maxMessages.toNat
  counter : ∀ msgCount, counter s.pump.pc = some msgCount → msgCount.toNat = s.ticked

theorem invariant_delivered [DecidableEq Peer] {s : Inbound Peer} (inv : Invariant maxMessages s) :
    Delivered maxMessages s := by
  have ordered : s.pump.handled <+: s.pushed := by
    rw [← inv.lossless,List.append_assoc]
    exact List.prefix_append _ _
  exact ⟨inv.defined,inv.waiting,ordered,inv.lossless,fun peer => ordered.filter _,inv.bounded,inv.counted⟩

theorem delivered [DecidableEq Peer] (maxMessages : UInt8) (events : List (Event Peer))
    (ran : Runs.run step (fresh maxMessages) events = some s) : Delivered maxMessages s :=
  invariant_delivered (Runs.invariant step_invariant (fresh_invariant maxMessages) ran)

def first : OwnedMessage Nat := ⟨0,⟨⟨0,Memory.zeros 16,Memory.zeros 7,0⟩,.empty⟩⟩
def second : OwnedMessage Nat := ⟨1,⟨⟨1,Memory.zeros 16,Memory.zeros 7,0⟩,.empty⟩⟩

-- One message a tick: the second push comes between empty() and popFront() of the first.
theorem delivered_tick :
    ∃ s, Delivered 1 s ∧ s.pump.handled = [first] ∧ s.pump.mMessagesIn = [second] :=
  ⟨_,delivered 1 [.push first,.pump false,.pump false,.push second,.pump false,.pump false,.pump false] rfl,rfl,rfl⟩

end Keyser.InboundDelivery
