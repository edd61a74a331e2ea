import Keyser.PeerLifetime
import Keyser.Streams

namespace Keyser.Links
open Framing PeerReceive PeerLifetime

-- A peer is named by the node that holds it and its place among the objects there.
abbrev End := Nat × Nat

structure Node where
  owners : Owners
  popped : List (OwnedMessage Nat)

-- `dialled` are the connections nobody has accepted yet, `other` is the end that a socket is
-- connected to and `taken` how many of its bytes have come in.
structure Network where
  nodes : Nat → Node
  dialled : List (End × Nat)
  other : End → Option End
  taken : End → Nat

def fresh : Network := ⟨fun _ => ⟨PeerLifetime.fresh,[]⟩,[],fun _ => none,fun _ => 0⟩

def Network.object (s : Network) (place : End) : Option Object := (s.nodes place.1).owners.objects[place.2]?

def Network.wire (s : Network) (place : End) : List UInt8 := (s.object place).elim [] (·.sender.wire)

def Network.put (s : Network) (node : Nat) (after : Node) : Network :=
  {s with nodes := Function.update s.nodes node after}

def Node.takesOff (node : Node) : PeerLifetime.Event → List (OwnedMessage Nat)
  | .popFront => node.owners.mMessagesIn.take 1
  | _ => []

-- The exception of a read handler has ended the node's process.
def Node.ended (node : Node) : Bool := node.owners.objects.any (·.receiver.raised)

-- A handler of a peer that is gone has no defined step.
def Node.step (node : Node) (event : PeerLifetime.Event) : Option Node :=
  if !node.ended && (serves event).all fun peer => decide (0 < node.owners.useCount peer) then
    (PeerLifetime.step node.owners event).map fun owners => ⟨owners,node.popped ++ node.takesOff event⟩
  else none

def alone : PeerLifetime.Event → Bool
  | .connect _ established => !established
  | .accept _ => false
  | .arrive _ (.byte _) => false
  | _ => true

inductive Event where
  | dial (node listener : Nat) (header : NetMessageHeader)
  | accept (position : Nat) (header : NetMessageHeader)
  | act (node : Nat) (event : PeerLifetime.Event)
  | byte (place : End)

def step (s : Network) : Event → Option Network
  | .dial node listener header => ((s.nodes node).step (.connect header true)).map fun after =>
    {s.put node after with dialled := s.dialled ++ [((node,(s.nodes node).owners.objects.length),listener)]}
  | .accept position header => s.dialled[position]?.bind fun (dialler,listener) =>
    ((s.nodes listener).step (.accept header)).map fun after =>
      let accepted := (listener,(s.nodes listener).owners.objects.length)
      {s.put listener after with
        dialled := s.dialled.eraseIdx position
        other := Function.update (Function.update s.other dialler (some accepted)) accepted (some dialler)}
  | .act node event => if alone event then ((s.nodes node).step event).map (s.put node) else none
  | .byte place => (s.other place).bind fun source => (s.wire source)[s.taken place]?.bind fun value =>
    ((s.nodes place.1).step (.arrive place.2 (.byte value))).map fun after =>
      {s.put place.1 after with taken := Function.update s.taken place (s.taken place + 1)}

def Network.incoming (s : Network) (place : End) : List UInt8 :=
  ((s.other place).elim [] s.wire).take (s.taken place)

def Node.pushedBy (node : Node) (peer : Nat) : List (OwnedMessage Nat) :=
  (node.popped ++ node.owners.mMessagesIn).filter fun owned => decide (owned.remote = peer)

def Network.posted (s : Network) (place : End) : List NetMessage := (s.object place).elim [] (·.sender.posted)

def Network.poppedFrom (s : Network) (place : End) : List NetMessage :=
  ((s.nodes place.1).popped.filter fun owned => decide (owned.remote = place.2)).map OwnedMessage.msg

end Keyser.Links
