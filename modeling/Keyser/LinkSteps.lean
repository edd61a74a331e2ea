import Keyser.Links

namespace Keyser.LinkSteps
open Framing PeerReceive PeerLifetime Links

-- What a receiver has made of the bytes; of one that reads no more only what it pushed.
def Reads (peer : Nat) (bytes : List UInt8) (receiver : Receiver Nat) : Prop :=
  ∃ header, receiver.pushed = (receive (PeerReceive.fresh peer header) bytes).pushed ∧
    (receiver.reading.isSome = true →
      {receiver with isOpen := true} = receive (PeerReceive.fresh peer header) bytes)

theorem onHeader_open (s : Receiver Nat) (isOpen : Bool) :
    Receiver.onHeader {s with isOpen := isOpen} = {s.onHeader with isOpen := isOpen} := by
  unfold Receiver.onHeader
  by_cases sized : 0 < s.msgTemporaryIn.header.size.toNat
  · simp only [sized,if_true]
    cases s.msgTemporaryIn.body.resize s.allocatable s.msgTemporaryIn.header.size.toNat <;> rfl
  · simp only [sized,if_false]
    rfl

theorem complete_open (s : Receiver Nat) (isOpen : Bool) (part : Part) (filled : List UInt8)
    (full : filled.length = s.wanted part) : Receiver.complete {s with isOpen := isOpen} part filled full =
      {s.complete part filled full with isOpen := isOpen} := by
  cases part with
  | header => exact onHeader_open {s with msgTemporaryIn := ⟨.ofBytes ⟨filled,full⟩,s.msgTemporaryIn.body⟩,
                                          reading := none, filled := []} isOpen
  | body => rfl

-- Reading does not look at whether the socket is open, and leaves it so.
theorem step_open (s : Receiver Nat) (isOpen : Bool) (value : UInt8) :
    PeerReceive.step {s with isOpen := isOpen} (.byte value) =
      {PeerReceive.step s (.byte value) with isOpen := isOpen} := by
  obtain ⟨peer,before,msg,reading,filled,pushed,raised,room⟩ := s
  cases reading with
  | none => rfl
  | some part =>
      by_cases full : (filled ++ [value]).length =
          Receiver.wanted ⟨peer,before,msg,some part,filled,pushed,raised,room⟩ part
      · have read (o : Bool) := receive_full (s := ⟨peer,o,msg,some part,filled,pushed,raised,room⟩) part rfl (by simp) full
        exact (read isOpen).trans
          ((complete_open _ _ _ _ full).trans (congrArg (fun s => {s with isOpen := isOpen}) (read before).symm))
      · have read (o : Bool) : PeerReceive.step ⟨peer,o,msg,some part,filled,pushed,raised,room⟩ (.byte value) =
            ⟨peer,o,msg,some part,filled ++ [value],pushed,raised,room⟩ := dif_neg full
        rw [read,read]

theorem receive_open (bytes : List UInt8) (s : Receiver Nat) : (receive s bytes).isOpen = s.isOpen := by
  induction bytes generalizing s with
  | nil => rfl
  | cons byte rest ih =>
      have kept : (PeerReceive.step s (.byte byte)).isOpen = s.isOpen := by
        rw [show PeerReceive.step s (.byte byte) = _ from step_open s s.isOpen byte]
      exact (ih (PeerReceive.step s (.byte byte))).trans kept

theorem step_reads {receiver : Receiver Nat}
    (follows : {receiver with isOpen := true} = receive (PeerReceive.fresh peer header) bytes) (value : UInt8) :
    PeerReceive.step receiver (.byte value) =
      {receive (PeerReceive.fresh peer header) (bytes ++ [value]) with isOpen := receiver.isOpen} := by
  have same : receiver = {receive (PeerReceive.fresh peer header) bytes with isOpen := receiver.isOpen} := by
    rw [← follows]
  rw [same,step_open,receive_append]
  rfl

theorem reads_byte (reads : Reads peer bytes receiver) (reading : receiver.reading.isSome = true) (value : UInt8) :
    Reads peer (bytes ++ [value]) (PeerReceive.step receiver (.byte value)) ∧
      receiver.pushed <+: (PeerReceive.step receiver (.byte value)).pushed := by
  obtain ⟨header,pushed,follows⟩ := reads
  have core := step_reads (follows reading) value
  refine ⟨⟨header,by rw [core],fun _ => ?_⟩,?_⟩
  · have opened : (receive (PeerReceive.fresh peer header) (bytes ++ [value])).isOpen = true := receive_open _ _
    rw [core,← opened]
  · rw [core,pushed]
    exact Streams.pushed_extend peer header (List.prefix_append bytes [value])

theorem reads_remote (reads : Reads peer bytes receiver) : ∀ owned ∈ receiver.pushed, owned.remote = peer := by
  obtain ⟨header,pushed,_⟩ := reads
  intro owned member
  rw [pushed,Streams.fresh_stream peer header bytes] at member
  obtain ⟨msg,_,rfl⟩ := List.mem_map.mp member
  rfl

theorem reads_failure (reads : Reads peer bytes receiver) :
    Reads peer bytes (PeerReceive.step receiver .failure) := by
  obtain ⟨header,pushed,_⟩ := reads
  obtain ⟨_,_,_,reading,_,_,_,_⟩ := receiver
  cases reading with
  | none => exact ⟨header,pushed,nofun⟩
  | some part => exact ⟨header,pushed,nofun⟩

-- What a step on its own does to an object.
inductive Moved (object : Object) : Object → Prop where
  | same : Moved object object
  | wrote (wrote : object.write event = some after) : Moved object after
  | failed (failed : object.arrive .failure = some after) : Moved object after
  | disconnected : Moved object object.disconnect

theorem write_moves {object after : Object} (wrote : object.write event = some after) :
    ∃ sender, PeerSend.step object.sender event = some sender ∧
      after = ⟨sender,{object.receiver with isOpen := sender.isOpen}⟩ := by
  obtain ⟨sender,stepped,rfl⟩ := Option.map_eq_some_iff.mp wrote
  exact ⟨sender,stepped,rfl⟩

theorem arrive_moves {object after : Object} (arrived : object.arrive arrival = some after) :
    object.receiver.reading.isSome = true ∧ after.receiver = PeerReceive.step object.receiver arrival ∧
      after.sender = {object.sender with isOpen := after.receiver.isOpen} := by
  unfold Object.arrive at arrived
  split at arrived <;> cases arrived
  rename_i reading
  exact ⟨reading,rfl,rfl⟩

theorem moved_sender {object after : Object} (moved : Moved object after) (inv : PeerSend.Invariant object.sender) :
    PeerSend.Invariant after.sender ∧ object.sender.wire <+: after.sender.wire ∧
      object.sender.posted <+: after.sender.posted := by
  have unchanged (isOpen : Bool) : PeerSend.Invariant {object.sender with isOpen := isOpen} :=
    PeerSend.invariant_frame inv isOpen object.sender.handlers
  cases moved with
  | same => exact ⟨inv,List.prefix_refl _,List.prefix_refl _⟩
  | wrote wrote =>
      obtain ⟨sender,stepped,rfl⟩ := write_moves wrote
      exact ⟨PeerSend.step_invariant _ _ _ inv stepped,PeerSend.step_grows stepped⟩
  | failed failed =>
      rw [(arrive_moves failed).2.2]
      exact ⟨unchanged _,List.prefix_refl _,List.prefix_refl _⟩
  | disconnected => exact ⟨unchanged false,List.prefix_refl _,List.prefix_refl _⟩

theorem failure_pushed (receiver : Receiver Nat) : (PeerReceive.step receiver .failure).pushed = receiver.pushed := by
  cases reading : receiver.reading <;> simp [PeerReceive.step,reading,Receiver.disconnect]

theorem moved_receiver {object after : Object} (moved : Moved object after)
    (reads : Reads peer bytes object.receiver) :
    Reads peer bytes after.receiver ∧ after.receiver.pushed = object.receiver.pushed := by
  cases moved with
  | same => exact ⟨reads,rfl⟩
  | wrote wrote =>
      obtain ⟨sender,_,rfl⟩ := write_moves wrote
      exact ⟨reads,rfl⟩
  | failed failed =>
      rw [(arrive_moves failed).2.1]
      exact ⟨reads_failure reads,failure_pushed _⟩
  | disconnected => exact ⟨reads,rfl⟩

def Begun (peer : Nat) (object : Object) : Prop :=
  (∃ isOpen, object.sender = PeerSend.fresh isOpen) ∧ Reads peer [] object.receiver

inductive Kept (peer : Nat) : Option Object → Option Object → Prop where
  | none : Kept peer none none
  | moved (moved : Moved object after) : Kept peer (some object) (some after)
  | begun (begun : Begun peer object) : Kept peer none (some object)

theorem kept_refl (peer : Nat) (object : Option Object) : Kept peer object object := by
  cases object with
  | none => exact .none
  | some object => exact .moved .same

theorem set_kept {objects : List Object} (found : objects[peer]? = some object) (moved : Moved object after)
    (other : Nat) : Kept other objects[other]? (objects.set peer after)[other]? := by
  by_cases same : peer = other
  · subst same
    rw [List.getElem?_set_self (List.getElem?_eq_some_iff.mp found).1,found]
    exact .moved moved
  · rw [List.getElem?_set_ne same]
    exact kept_refl _ _

theorem modify_kept (objects : List Object) (peer other : Nat) :
    Kept other objects[other]? (objects.modify peer Object.disconnect)[other]? := by
  rw [List.getElem?_modify]
  cases objects[other]? with
  | none => exact .none
  | some object =>
      by_cases same : peer = other
      · simpa [same] using Kept.moved .disconnected
      · simpa [same] using kept_refl _ _

theorem snoc_kept {objects : List Object} (begun : Begun objects.length object) (other : Nat) :
    Kept other objects[other]? (objects ++ [object])[other]? := by
  rcases Nat.lt_trichotomy other objects.length with old | rfl | new
  · rw [List.getElem?_append_left old]
    exact kept_refl _ _
  · rw [List.getElem?_concat_length,List.getElem?_eq_none (Nat.le_refl _)]
    exact .begun begun
  · rw [List.getElem?_eq_none (Nat.le_of_lt new),List.getElem?_eq_none (by simp; omega)]
    exact .none

theorem listening_begun (peer : Nat) (header : NetMessageHeader) : Begun peer (listening peer header) :=
  ⟨⟨true,rfl⟩,header,rfl,fun _ => rfl⟩

theorem refused_begun (peer : Nat) (header : NetMessageHeader) : Begun peer (refused peer header) :=
  ⟨⟨false,rfl⟩,header,rfl,nofun⟩

-- A step on its own: the objects keep their streams, and no message is lost or made.
structure Progresses (node after : Node) : Prop where
  queue : after.popped ++ after.owners.mMessagesIn = node.popped ++ node.owners.mMessagesIn
  objects : ∀ peer, Kept peer node.owners.objects[peer]? after.owners.objects[peer]?

theorem write_objects {s next : Owners} (wrote : s.write peer event = some next) :
    next.mMessagesIn = s.mMessagesIn ∧ ∀ other, Kept other s.objects[other]? next.objects[other]? := by
  obtain ⟨object,found,written⟩ := Option.bind_eq_some_iff.mp wrote
  obtain ⟨after,moves,rfl⟩ := Option.map_eq_some_iff.mp written
  exact ⟨rfl,set_kept found (.wrote moves)⟩

theorem release_objects (s : Owners) (peer : Nat) : (s.release peer).mMessagesIn = s.mMessagesIn ∧
    ∀ other, Kept other s.objects[other]? (s.release peer).objects[other]? := by
  unfold Owners.release
  split
  · exact ⟨rfl,modify_kept _ _⟩
  · exact ⟨rfl,fun _ => kept_refl _ _⟩

theorem message_objects {s next : Owners} (messaged : s.message peer msg = some next) :
    next.mMessagesIn = s.mMessagesIn ∧ ∀ other, Kept other s.objects[other]? next.objects[other]? := by
  unfold Owners.message at messaged
  rw [NetInterface.message_peers,Option.bind_some,reduceOption_some] at messaged
  cases alive : s.isConnected peer with
  | false =>
      simp only [alive] at messaged
      cases messaged
      exact ⟨rfl,fun _ => kept_refl _ _⟩
  | true =>
      simp only [alive,if_true] at messaged
      exact write_objects (s := s) (by simpa [Owners.send] using messaged)

theorem neighbor_objects {s visited : Owners} (found : s.mPeers[position]? = some peer)
    (ran : s.neighbor position msg ignorePeer = some visited) :
    (visited.release peer).mMessagesIn = s.mMessagesIn ∧
      ∀ other, Kept other s.objects[other]? (visited.release peer).objects[other]? := by
  cases alive : s.isConnected peer with
  | false =>
      cases neighbor_lost found alive ran
      exact release_objects {s with mPeers := s.mPeers.eraseIdx position} peer
  | true =>
      rw [release_owned (neighbor_connected found alive ran).2]
      have element : (NetInterface.peersOf s.mPeers).mPeers[position]? = some (some peer) := by
        simp [NetInterface.peersOf,found]
      unfold Owners.neighbor at ran
      rw [NetInterface.visit_connected msg ignorePeer element alive,Option.bind_some] at ran
      simp only [NetInterface.peersOf,reduceOption_some,List.nil_append,NetInterface.calls] at ran
      by_cases ignored : some peer = ignorePeer
      · simp [alive,ignored,Owners.send] at ran
        cases ran
        exact ⟨rfl,fun _ => kept_refl _ _⟩
      · exact write_objects (s := s) (by simpa [alive,ignored,Owners.send] using ran)

theorem node_stepped {node after : Node} (stepped : node.step event = some after) :
    PeerLifetime.step node.owners event = some after.owners ∧ after.popped = node.popped ++ node.takesOff event := by
  unfold Node.step at stepped
  split at stepped
  · obtain ⟨owners,taken,rfl⟩ := Option.map_eq_some_iff.mp stepped
    exact ⟨taken,rfl⟩
  · cases stepped

theorem sender_wrote {s next : Owners} (stepped : PeerLifetime.step s (.sender peer event) = some next) :
    s.write peer event = some next := by
  cases event with
  | send msg =>
      simp only [PeerLifetime.step] at stepped
      split at stepped
      · exact stepped
      · cases stepped
  | posted | transmit | written | writeFailed | disconnect => exact stepped

-- popFront and the arrival of a byte aside, a step leaves the queue as it is.
theorem step_objects {s next : Owners} (stepped : PeerLifetime.step s event = some next)
    (mute : ∀ peer value, event ≠ .arrive peer (.byte value)) (leaves : event ≠ .popFront) :
    next.mMessagesIn = s.mMessagesIn ∧ ∀ peer, Kept peer s.objects[peer]? next.objects[peer]? := by
  cases event with
  | connect header established =>
      cases established <;> cases stepped
      · exact ⟨rfl,snoc_kept (refused_begun _ _)⟩
      · exact ⟨rfl,snoc_kept (listening_begun _ _)⟩
  | accept header => cases stepped; exact ⟨rfl,snoc_kept (listening_begun _ _)⟩
  | push position =>
      obtain ⟨peer,_,rfl⟩ := Option.map_eq_some_iff.mp stepped
      exact ⟨rfl,fun _ => kept_refl _ _⟩
  | copy peer =>
      simp only [PeerLifetime.step] at stepped
      split at stepped <;> cases stepped
      exact ⟨rfl,fun _ => kept_refl _ _⟩
  | drop position =>
      obtain ⟨peer,_,rfl⟩ := Option.map_eq_some_iff.mp stepped
      exact release_objects {s with locals := s.locals.eraseIdx position} peer
  | popFront => exact absurd rfl leaves
  | message position msg =>
      obtain ⟨peer,_,messaged⟩ := Option.bind_eq_some_iff.mp stepped
      exact message_objects messaged
  | neighbor position msg ignorePeer =>
      obtain ⟨peer,found,ran⟩ := Option.bind_eq_some_iff.mp stepped
      obtain ⟨visited,visits,rfl⟩ := Option.map_eq_some_iff.mp ran
      exact neighbor_objects found visits
  | sender peer event => exact write_objects (sender_wrote stepped)
  | arrive peer arrival =>
      cases arrival with
      | byte value => exact absurd rfl (mute peer value)
      | failure =>
          obtain ⟨object,found,arrived⟩ := Option.bind_eq_some_iff.mp stepped
          obtain ⟨after,failed,rfl⟩ := Option.map_eq_some_iff.mp arrived
          refine ⟨?_,set_kept found (.failed failed)⟩
          rw [(arrive_moves failed).2.1,failure_pushed,List.drop_length,List.append_nil]

theorem step_progresses {node after : Node} (stepped : node.step event = some after)
    (mute : ∀ peer value, event ≠ .arrive peer (.byte value)) : Progresses node after := by
  obtain ⟨owned,popped⟩ := node_stepped stepped
  by_cases takes : event = .popFront
  · subst takes
    simp only [PeerLifetime.step] at owned
    cases queue : node.owners.mMessagesIn with
    | nil =>
        simp [queue] at owned
    | cons first rest =>
        simp only [queue,Option.some.injEq] at owned
        refine ⟨?_,fun peer => ?_⟩
        · simp [popped,Node.takesOff,queue,← owned]
        · rw [← owned]
          exact kept_refl _ _
  · obtain ⟨queue,objects⟩ := step_objects owned mute takes
    have none : node.takesOff event = [] := by
      cases event with
      | popFront => exact absurd rfl takes
      | connect | accept | push | copy | drop | message | neighbor | sender | arrive => rfl
    exact ⟨by rw [popped,none,List.append_nil,queue],objects⟩

theorem arrive_stepped {node after : Node} (stepped : node.step (.arrive peer arrival) = some after) :
    ∃ object moved, node.owners.objects[peer]? = some object ∧ object.arrive arrival = some moved ∧
      after.owners.objects = node.owners.objects.set peer moved ∧ after.popped ++ after.owners.mMessagesIn =
        node.popped ++ node.owners.mMessagesIn ++ moved.receiver.pushed.drop object.receiver.pushed.length := by
  obtain ⟨owned,popped⟩ := node_stepped stepped
  obtain ⟨object,found,arrived⟩ := Option.bind_eq_some_iff.mp owned
  obtain ⟨moved,moves,owners⟩ := Option.map_eq_some_iff.mp arrived
  refine ⟨object,moved,found,moves,by rw [← owners],?_⟩
  rw [← owners,popped]
  simp [Node.takesOff]

-- The node that takes the step, and its own step.
inductive Acts (s : Network) : Links.Event → Nat → PeerLifetime.Event → Prop where
  | act : Acts s (.act node own) node own
  | byte : Acts s (.byte place) place.1 (.arrive place.2 (.byte value))
  | dial : Acts s (.dial node listener header) node (.connect header true)
  | accept (found : s.dialled[position]? = some (dialler,listener)) :
      Acts s (.accept position header) listener (.accept header)

theorem step_acts {s next : Network} (stepped : Links.step s event = some next) :
    ∃ node own after, Acts s event node own ∧ (s.nodes node).step own = some after ∧
      next.nodes = (s.put node after).nodes := by
  cases event with
  | act node own =>
      simp only [Links.step] at stepped
      split at stepped
      · obtain ⟨after,acted,rfl⟩ := Option.map_eq_some_iff.mp stepped
        exact ⟨node,own,after,.act,acted,rfl⟩
      · cases stepped
  | byte place =>
      simp only [Links.step] at stepped
      obtain ⟨source,_,taken⟩ := Option.bind_eq_some_iff.mp stepped
      obtain ⟨value,_,arrived⟩ := Option.bind_eq_some_iff.mp taken
      obtain ⟨after,acted,rfl⟩ := Option.map_eq_some_iff.mp arrived
      exact ⟨_,_,after,.byte,acted,rfl⟩
  | dial node listener header =>
      simp only [Links.step] at stepped
      obtain ⟨after,acted,rfl⟩ := Option.map_eq_some_iff.mp stepped
      exact ⟨_,_,after,.dial,acted,rfl⟩
  | accept position header =>
      simp only [Links.step] at stepped
      obtain ⟨⟨dialler,listener⟩,found,accepted⟩ := Option.bind_eq_some_iff.mp stepped
      obtain ⟨after,acted,rfl⟩ := Option.map_eq_some_iff.mp accepted
      exact ⟨_,_,after,.accept found,acted,rfl⟩

end Keyser.LinkSteps
