import Keyser.NetInterface
import Keyser.Ownership
import Keyser.PeerReceive
import Keyser.PeerSend
import Mathlib.Data.List.ReduceOption

namespace Keyser.PeerLifetime
open Framing PeerReceive

-- The two halves of a Peer share its socket: each knows whether it is open.
structure Object where
  sender : PeerSend.Sender
  receiver : Receiver Nat

def Object.isConnected (object : Object) : Bool := object.sender.isOpen

-- Whether the io_context holds a handler that captured the `this` of the peer.
def Object.pending (object : Object) : Bool :=
  !object.sender.handlers.isEmpty || !object.sender.writing.isEmpty || object.receiver.reading.isSome

def Object.disconnect (object : Object) : Object := ⟨object.sender.disconnect,object.receiver.disconnect⟩

def Object.write (object : Object) (event : PeerSend.Event) : Option Object :=
  (PeerSend.step object.sender event).map fun sender => ⟨sender,{object.receiver with isOpen := sender.isOpen}⟩

def Object.arrive (object : Object) (arrival : Arrival) : Option Object :=
  if object.receiver.reading.isSome then
    let receiver := PeerReceive.step object.receiver arrival
    some ⟨{object.sender with isOpen := receiver.isOpen},receiver⟩
  else none

-- Connected, with the first read started.
def listening (peer : Nat) (header : NetMessageHeader) : Object :=
  ⟨PeerSend.fresh true,PeerReceive.fresh peer header⟩

def refused (peer : Nat) (header : NetMessageHeader) : Object :=
  ⟨PeerSend.fresh false,{PeerReceive.fresh peer header with isOpen := false, reading := none}⟩

-- A peer is named by the place of its object, which no other takes. The shared_ptrs to it
-- are in mPeers, in the queued messages and elsewhere: newConn, parameters, the message
-- that the pump handles.
structure Owners where
  objects : List Object
  mPeers : List Nat
  mMessagesIn : List (OwnedMessage Nat)
  locals : List Nat

def fresh : Owners := ⟨[],[],[],[]⟩

def Owners.useCount (s : Owners) (peer : Nat) : Nat :=
  s.mPeers.count peer + (s.mMessagesIn.map OwnedMessage.remote).count peer + s.locals.count peer

def Owners.isConnected (s : Owners) (peer : Nat) : Bool := s.objects[peer]?.any Object.isConnected

def Owners.pending (s : Owners) (peer : Nat) : Bool := s.objects[peer]?.any Object.pending

-- ~Peer runs when the last shared_ptr is gone.
def Owners.release (s : Owners) (peer : Nat) : Owners :=
  if s.useCount peer = 0 then {s with objects := s.objects.modify peer Object.disconnect} else s

def Owners.write (s : Owners) (peer : Nat) (event : PeerSend.Event) : Option Owners :=
  s.objects[peer]?.bind fun object =>
    (object.write event).map fun object => {s with objects := s.objects.set peer object}

def Owners.send (s : Owners) (calls : List (Nat × NetMessage)) : Option Owners :=
  calls.foldlM (fun s call => s.write call.1 (.send call.2)) s

-- A message that is complete takes a shared_from_this into the queue.
def Owners.arrive (s : Owners) (peer : Nat) (arrival : Arrival) : Option Owners :=
  s.objects[peer]?.bind fun object => (object.arrive arrival).map fun after =>
    {s with objects := s.objects.set peer after,
            mMessagesIn := s.mMessagesIn ++ after.receiver.pushed.drop object.receiver.pushed.length}

def Owners.message (s : Owners) (peer : Nat) (msg : NetMessage) : Option Owners :=
  (NetInterface.message s.isConnected (NetInterface.peersOf s.mPeers) (some peer) msg).bind fun network =>
    {s with mPeers := network.mPeers.reduceOption}.send network.sent

-- One round of the loop in messageNeighbors.
def Owners.neighbor (s : Owners) (position : Nat) (msg : NetMessage) (ignorePeer : Option Nat) : Option Owners :=
  (NetInterface.visit s.isConnected msg ignorePeer position
    ⟨NetInterface.peersOf s.mPeers,[],false⟩).bind fun visited =>
      {s with mPeers := visited.network.mPeers.reduceOption}.send visited.network.sent

inductive Event where
  | connect (header : NetMessageHeader) (established : Bool)
  | accept (header : NetMessageHeader)
  | push (position : Nat)
  | copy (peer : Nat)
  | drop (position : Nat)
  | popFront
  | message (position : Nat) (msg : NetMessage)
  | neighbor (position : Nat) (msg : NetMessage) (ignorePeer : Option Nat)
  | sender (peer : Nat) (event : PeerSend.Event)
  | arrive (peer : Nat) (arrival : Arrival)

-- A peer is copied or told to send through a shared_ptr to it. Between connect's start of the
-- read and its push_back others take their steps; where remote_endpoint throws, newConn is dropped.
def step (s : Owners) : Event → Option Owners
  | .connect header true =>
    some {s with objects := s.objects ++ [listening s.objects.length header], locals := s.locals ++ [s.objects.length]}
  | .connect header false => some {s with objects := s.objects ++ [refused s.objects.length header]}
  | .accept header =>
    some {s with objects := s.objects ++ [listening s.objects.length header], mPeers := s.mPeers ++ [s.objects.length]}
  | .push position => s.locals[position]?.map fun peer =>
    {s with locals := s.locals.eraseIdx position, mPeers := s.mPeers ++ [peer]}
  | .copy peer => if 0 < s.useCount peer then some {s with locals := s.locals ++ [peer]} else none
  | .drop position => s.locals[position]?.map fun peer => {s with locals := s.locals.eraseIdx position}.release peer
  | .popFront =>
    match s.mMessagesIn with
    | [] => none
    | owned :: rest => some {s with mMessagesIn := rest, locals := s.locals ++ [owned.remote]}
  | .message position msg => s.locals[position]?.bind fun peer => s.message peer msg
  | .neighbor position msg ignorePeer => s.mPeers[position]?.bind fun peer =>
    (s.neighbor position msg ignorePeer).map (·.release peer)
  | .sender peer (.send msg) => if 0 < s.useCount peer then s.write peer (.send msg) else none
  | .sender peer event => s.write peer event
  | .arrive peer arrival => s.arrive peer arrival

-- The peer whose handler the step runs, or lets the socket work for.
def serves : Event → Option Nat
  | .sender peer (.posted _) | .sender peer (.transmit _ _) | .sender peer (.written _)
  | .sender peer (.writeFailed _) | .arrive peer _ => some peer
  | _ => none

structure Safe (s : Owners) : Prop where
  owned : ∀ peer, s.pending peer = true → 0 < s.useCount peer
  runs : ∀ event peer next, serves event = some peer → step s event = some next → 0 < s.useCount peer

-- The peer that loses a shared_ptr.
def releases (s : Owners) : Event → Option Nat
  | .drop position => s.locals[position]?
  | .neighbor position _ _ => s.mPeers[position]?.filter fun peer => !s.isConnected peer
  | _ => none

def counting : Ownership.Counting Owners Nat := ⟨Owners.useCount,Owners.pending⟩

def Orderly (s : Owners) (event : Event) : Prop := counting.Shared s (releases s event)

theorem count_eraseIdx {items : List Nat} (found : items[position]? = some item) (other : Nat) :
    items.count other = (items.eraseIdx position).count other + if other = item then 1 else 0 := by
  obtain ⟨short,rfl⟩ := List.getElem?_eq_some_iff.mp found
  rw [← (List.getElem_cons_eraseIdx_perm short).count_eq,List.count_cons]
  simp only [beq_iff_eq,eq_comm (a := other)]

theorem pending_append (objects : List Object) (object : Object) (peer : Nat) (other : peer ≠ objects.length) :
    (objects ++ [object])[peer]?.any Object.pending = objects[peer]?.any Object.pending := by
  rcases Nat.lt_or_ge peer objects.length with old | new
  · rw [List.getElem?_append_left old]
  · rw [List.getElem?_eq_none (by simp; omega),List.getElem?_eq_none new]

theorem release_changes {s next : Owners} (peer : Nat) (objects : next.objects = s.objects)
    (counts : ∀ other, s.useCount other = next.useCount other + if other = peer then 1 else 0) :
    counting.Changes s (next.release peer) (some peer) := by
  have count (other : Nat) : (next.release peer).useCount other = next.useCount other := by
    unfold Owners.release
    split <;> rfl
  have same (other : Nat) : (next.release peer).pending other = s.pending other := by
    unfold Owners.release
    split
    · simp only [Owners.pending,objects,List.getElem?_modify]
      cases s.objects[other]? <;> split <;> rfl
    · simp only [Owners.pending,objects]
  refine .loses peer same fun other => (counts other).trans ?_
  exact congrArg (· + _) (count other).symm

-- send and disconnect aside, a step of the writing half belongs to a handler that waits.
theorem write_pending {object after : Object} (wrote : object.write event = some after)
    (calls : ∀ msg, event ≠ .send msg) (closes : event ≠ .disconnect) : object.pending = true := by
  obtain ⟨sender,stepped,rfl⟩ := Option.map_eq_some_iff.mp wrote
  cases PeerSend.step_taken stepped with
  | send => exact absurd rfl (calls _)
  | disconnect => exact absurd rfl closes
  | posted found =>
      have nonempty : object.sender.handlers ≠ [] := by
        intro empty
        simp [empty] at found
      simp [Object.pending,nonempty]
  | transmit found | written found | writeFailed found =>
      have nonempty : object.sender.writing ≠ [] := by
        intro empty
        simp [empty] at found
      simp [Object.pending,nonempty]

theorem arrive_pending {object after : Object} (arrived : object.arrive arrival = some after) :
    object.pending = true := by
  unfold Object.arrive at arrived
  split at arrived
  · rename_i reading
    simp [Object.pending,reading]
  · cases arrived

theorem set_keeps {s : Owners} {after object : Object} (found : s.objects[peer]? = some object)
    (mMessagesIn : List (OwnedMessage Nat)) (more : s.mMessagesIn <+: mMessagesIn)
    (owned : after.pending = true → object.pending = true ∨ 0 < s.useCount peer) :
    counting.Changes s {s with objects := s.objects.set peer after, mMessagesIn := mMessagesIn} none := by
  have grows (other : Nat) : s.useCount other ≤
      Owners.useCount {s with objects := s.objects.set peer after, mMessagesIn := mMessagesIn} other := by
    have queued := ((more.map OwnedMessage.remote).sublist).count_le other
    simp only [Owners.useCount]
    omega
  refine .keeps ?_ fun other positive => Nat.lt_of_lt_of_le positive (grows other)
  intro other (pending : (s.objects.set peer after)[other]?.any Object.pending = true)
  by_cases same : peer = other
  · subst same
    rw [List.getElem?_set_self (List.getElem?_eq_some_iff.mp found).1] at pending
    rcases owned pending with before | positive
    · have waits : s.pending peer = true := by rwa [Owners.pending,found]
      exact .inl waits
    · exact .inr (Nat.lt_of_lt_of_le positive (grows peer))
  · rw [List.getElem?_set_ne same] at pending
    exact .inl pending

theorem send_keeps {s next : Owners} (sent : s.write peer (.send msg) = some next) (owned : 0 < s.useCount peer) :
    counting.Changes s next none := by
  obtain ⟨object,found,wrote⟩ := Option.bind_eq_some_iff.mp sent
  obtain ⟨after,_,rfl⟩ := Option.map_eq_some_iff.mp wrote
  exact set_keeps found s.mMessagesIn (List.prefix_refl _) fun _ => .inr owned

theorem handler_keeps {s next : Owners} (handled : s.write peer event = some next)
    (calls : ∀ msg, event ≠ .send msg) : counting.Changes s next none := by
  obtain ⟨object,found,written⟩ := Option.bind_eq_some_iff.mp handled
  obtain ⟨after,wrote,rfl⟩ := Option.map_eq_some_iff.mp written
  refine set_keeps found s.mMessagesIn (List.prefix_refl _) fun pending => .inl ?_
  by_cases closes : event = .disconnect
  · subst closes
    cases wrote
    exact pending
  · exact write_pending wrote calls closes

theorem write_waits {s next : Owners} (handled : s.write peer event = some next)
    (calls : ∀ msg, event ≠ .send msg) (closes : event ≠ .disconnect) : s.pending peer = true := by
  obtain ⟨object,found,written⟩ := Option.bind_eq_some_iff.mp handled
  obtain ⟨after,wrote,_⟩ := Option.map_eq_some_iff.mp written
  simp [Owners.pending,found,write_pending wrote calls closes]

theorem arrive_keeps {s next : Owners} (served : s.arrive peer arrival = some next) : counting.Changes s next none := by
  obtain ⟨object,found,taken⟩ := Option.bind_eq_some_iff.mp served
  obtain ⟨after,arrived,rfl⟩ := Option.map_eq_some_iff.mp taken
  exact set_keeps found _ (List.prefix_append _ _) fun _ => .inl (arrive_pending arrived)

theorem reduceOption_some (peers : List Nat) : (peers.map some).reduceOption = peers := by
  induction peers with
  | nil => rfl
  | cons peer peers ih => rw [List.map_cons,List.reduceOption_cons_of_some,ih]

theorem useCount_pos {s : Owners} : 0 < s.useCount peer ↔
    peer ∈ s.mPeers ∨ peer ∈ s.mMessagesIn.map OwnedMessage.remote ∨ peer ∈ s.locals := by
  rw [← List.count_pos_iff,← List.count_pos_iff,← List.count_pos_iff,Owners.useCount]
  omega

theorem release_owned {s : Owners} (owned : 0 < s.useCount peer) : s.release peer = s := by
  rw [Owners.release,if_neg (Nat.ne_of_gt owned)]

theorem message_keeps {s next : Owners} (owned : 0 < s.useCount peer) (messaged : s.message peer msg = some next) :
    counting.Changes s next none := by
  unfold Owners.message at messaged
  rw [NetInterface.message_peers,Option.bind_some,reduceOption_some] at messaged
  cases alive : s.isConnected peer with
  | false =>
      simp only [alive] at messaged
      cases messaged
      exact .keeps (fun _ => .inl) fun _ => id
  | true =>
      simp only [alive,if_true] at messaged
      exact send_keeps (by simpa [Owners.send] using messaged) owned

theorem neighbor_connected {s visited : Owners} (found : s.mPeers[position]? = some peer)
    (alive : s.isConnected peer = true) (ran : s.neighbor position msg ignorePeer = some visited) :
    counting.Changes s visited none ∧ 0 < visited.useCount peer := by
  have owned : 0 < s.useCount peer := useCount_pos.mpr (.inl (List.mem_of_getElem? found))
  have element : (NetInterface.peersOf s.mPeers).mPeers[position]? = some (some peer) := by
    simp [NetInterface.peersOf,found]
  unfold Owners.neighbor at ran
  rw [NetInterface.visit_connected msg ignorePeer element alive,Option.bind_some] at ran
  simp only [NetInterface.peersOf,reduceOption_some,List.nil_append] at ran
  have kept : counting.Changes s visited none := by
    simp only [NetInterface.calls] at ran
    by_cases ignored : some peer = ignorePeer
    · simp [alive,ignored,Owners.send] at ran
      cases ran
      exact .keeps (fun _ => .inl) fun _ => id
    · exact send_keeps (by simpa [alive,ignored,Owners.send] using ran) owned
  refine ⟨kept,?_⟩
  cases kept with
  | keeps _ kept => exact kept peer owned

theorem neighbor_lost {s visited : Owners} (found : s.mPeers[position]? = some peer) (lost : s.isConnected peer = false)
    (ran : s.neighbor position msg ignorePeer = some visited) :
    visited = {s with mPeers := s.mPeers.eraseIdx position} := by
  obtain ⟨short,isPeer⟩ := List.getElem?_eq_some_iff.mp found
  have split : s.mPeers = s.mPeers.take position ++ peer :: s.mPeers.drop (position + 1) := by
    rw [← isPeer,List.getElem_cons_drop,List.take_append_drop]
  have place : (s.mPeers.take position).length = position := List.length_take_of_le (Nat.le_of_lt short)
  have pruned := NetInterface.visit_disconnected msg ignorePeer
    (s.mPeers.take position) (s.mPeers.drop (position + 1)) (s := ⟨NetInterface.peersOf s.mPeers,[],false⟩)
    (congrArg (List.map some) split) lost
  rw [place] at pruned
  unfold Owners.neighbor at ran
  rw [pruned,Option.bind_some] at ran
  simp only [NetInterface.peersOf,reduceOption_some,← List.eraseIdx_eq_take_drop_succ] at ran
  cases ran
  rfl

theorem neighbor_changes {s visited : Owners} (found : s.mPeers[position]? = some peer)
    (ran : s.neighbor position msg ignorePeer = some visited) :
    counting.Changes s (visited.release peer) ((some peer).filter fun peer => !s.isConnected peer) := by
  rw [Option.filter_some]
  cases alive : s.isConnected peer with
  | true =>
      obtain ⟨kept,owned⟩ := neighbor_connected found alive ran
      rw [release_owned owned]
      exact kept
  | false =>
      cases neighbor_lost found alive ran
      refine release_changes peer rfl fun other => ?_
      simp only [Owners.useCount,count_eraseIdx found other]
      omega

theorem shared_keeps {s next : Owners} (objects : next.objects = s.objects)
    (grows : ∀ peer, s.useCount peer ≤ next.useCount peer) : counting.Changes s next none := by
  refine .keeps (fun peer (pending : next.pending peer = true) => .inl ?_)
    fun peer owned => Nat.lt_of_lt_of_le owned (grows peer)
  rwa [Owners.pending,objects] at pending

theorem made_keeps {s next : Owners} (objects : next.objects = s.objects ++ [object])
    (owned : object.pending = true → 0 < next.useCount s.objects.length)
    (grows : ∀ peer, s.useCount peer ≤ next.useCount peer) : counting.Changes s next none := by
  refine .keeps ?_ fun peer owned => Nat.lt_of_lt_of_le owned (grows peer)
  intro peer (pending : next.pending peer = true)
  rw [Owners.pending,objects] at pending
  by_cases new : peer = s.objects.length
  · subst new
    exact .inr (owned (by simpa using pending))
  · rw [pending_append _ _ _ new] at pending
    exact .inl pending

theorem step_changes {s next : Owners} (stepped : step s event = some next) :
    counting.Changes s next (releases s event) := by
  cases event with
  | connect header established =>
      cases established <;> cases stepped
      · exact made_keeps rfl nofun fun _ => Nat.le_refl _
      · refine made_keeps rfl (fun _ => useCount_pos.mpr (.inr (.inr (by simp)))) fun peer => ?_
        simp only [Owners.useCount,List.count_append]
        omega
  | accept header =>
      cases stepped
      refine made_keeps rfl (fun _ => useCount_pos.mpr (.inl (by simp))) fun peer => ?_
      simp only [Owners.useCount,List.count_append]
      omega
  | push position =>
      obtain ⟨peer,found,rfl⟩ := Option.map_eq_some_iff.mp stepped
      refine shared_keeps rfl fun other => ?_
      simp only [Owners.useCount,count_eraseIdx found other,List.count_append,List.count_singleton,beq_iff_eq,
        eq_comm (a := other)]
      omega
  | copy peer =>
      simp only [step] at stepped
      split at stepped <;> cases stepped
      refine shared_keeps rfl fun other => ?_
      simp only [Owners.useCount,List.count_append]
      omega
  | drop position =>
      obtain ⟨peer,found,rfl⟩ := Option.map_eq_some_iff.mp stepped
      rw [releases,found]
      refine release_changes peer rfl fun other => ?_
      simp only [Owners.useCount,count_eraseIdx found other]
      omega
  | popFront =>
      simp only [step] at stepped
      split at stepped <;> cases stepped
      rename_i owned rest queue
      refine shared_keeps rfl fun other => ?_
      simp only [Owners.useCount,queue,List.map_cons,List.count_cons,List.count_append,List.count_nil]
      omega
  | message position msg =>
      obtain ⟨peer,found,messaged⟩ := Option.bind_eq_some_iff.mp stepped
      exact message_keeps (useCount_pos.mpr (.inr (.inr (List.mem_of_getElem? found)))) messaged
  | neighbor position msg ignorePeer =>
      obtain ⟨peer,found,ran⟩ := Option.bind_eq_some_iff.mp stepped
      obtain ⟨visited,visits,rfl⟩ := Option.map_eq_some_iff.mp ran
      rw [releases,found]
      exact neighbor_changes found visits
  | sender peer event =>
      cases event with
      | send msg =>
          simp only [step] at stepped
          split at stepped
          · rename_i owned
            exact send_keeps stepped owned
          · cases stepped
      | posted | transmit | written | writeFailed | disconnect => exact handler_keeps stepped nofun
  | arrive peer arrival => exact arrive_keeps stepped

theorem serves_pending {s next : Owners} (served : serves event = some peer) (stepped : step s event = some next) :
    s.pending peer = true := by
  cases event with
  | sender other event =>
      cases event with
      | send | disconnect => cases served
      | posted | transmit | written | writeFailed => cases served; exact write_waits stepped nofun nofun
  | arrive other arrival =>
      cases served
      obtain ⟨object,found,taken⟩ := Option.bind_eq_some_iff.mp stepped
      obtain ⟨after,arrived,_⟩ := Option.map_eq_some_iff.mp taken
      simp [Owners.pending,found,arrive_pending arrived]
  | connect | accept | push | copy | drop | popFront | message | neighbor => cases served

theorem safe_iff_owned {s : Owners} : Safe s ↔ counting.Owned s := by
  constructor
  · intro safe
    exact safe.owned
  · intro owned
    exact ⟨owned,fun _ peer _ served stepped => owned peer (serves_pending served stepped)⟩

theorem safe_iff (events : List Event) :
    Runs.Throughout step Safe fresh events ↔ Runs.Along step Orderly fresh events := by
  have start : counting.Owned fresh := by simp [Ownership.Counting.Owned,counting,fresh,Owners.pending]
  simp only [Runs.Throughout,safe_iff_owned]
  exact counting.throughout_owned (fun _ _ _ => step_changes) start

-- The read fails while the posted send still waits, and the next broadcast prunes the peer.
theorem safe_fails : ¬ Runs.Throughout step Safe fresh
    [.connect PeerSend.ping.header true,.push 0,.neighbor 0 PeerSend.hello none,.arrive 0 .failure,
      .neighbor 0 PeerSend.ping none] := by
  intro throughout
  have owned := (throughout _ _ (List.prefix_refl _) rfl).owned 0 rfl
  exact absurd owned (by decide)

end Keyser.PeerLifetime
