import Keyser.Telling

namespace Keyser.Broadcasting
open Framing PeerReceive PeerLifetime Links LinkSteps Relaying Delivery Telling

variable {node : Nat} {msg : NetMessage} {ignorePeer : Option Nat} {bound : Nat}

def mPeers (s : Network) (node : Nat) : List Nat := (s.nodes node).owners.mPeers

-- A node in the loop of messageNeighbors, with the position its iterator has come to.
-- `meanwhile` are the calls of send by others since the loop began.
structure Loop where
  network : Network
  position : Nat
  meanwhile : List (End × NetMessage)

inductive Event where
  | round
  | other (event : Links.Event)

-- Adding to a vector, or erasing from it, invalidates the iterators of the loop.
def sparesPeers : PeerLifetime.Event → Bool
  | .accept _ | .push _ | .neighbor _ _ _ => false
  | _ => true

def spares (node : Nat) (s : Network) : Links.Event → Bool
  | .act other event => other != node || sparesPeers event
  | .accept position _ => s.dialled[position]?.all fun call => call.2 != node
  | .dial _ _ _ | .byte _ => true

-- The range-for has set its end before the first round.
def step (node : Nat) (msg : NetMessage) (ignorePeer : Option Nat) (bound : Nat) (s : Loop) : Event → Option Loop
  | .round =>
    if s.position < bound then
      (Links.step s.network (.act node (.neighbor s.position msg ignorePeer))).map fun next =>
        {s with network := next, position := s.position + 1}
    else none
  | .other event =>
    if spares node s.network event then
      (Links.step s.network event).map fun next =>
        {s with network := next, meanwhile := s.meanwhile ++ networkTells s.network event}
    else none

-- How often the visits to some elements of mPeers tell a peer.
def heard (node : Nat) (ignorePeer : Option Nat) (peers : List Nat) (place : End) : Nat :=
  if place.1 = node ∧ some place.2 ≠ ignorePeer then peers.count place.2 else 0

-- What a place has been told since the loop began: what others said, and `times` the message.
def ToldSince (s : Network) (after : Loop) (msg : NetMessage) (place : End) (times : Nat) : Prop :=
  (told after.network place).Perm (told s place ++ toldTo place after.meanwhile ++ List.replicate times msg)

def ToldAll (node : Nat) (msg : NetMessage) (ignorePeer : Option Nat) (s : Network) (peers : List Nat)
    (after : Loop) : Prop :=
  ∀ place, ToldSince s after msg place (heard node ignorePeer peers place)

-- The first lost peer that is visited is erased. Unless it is the last one, a peer is then
-- missed, and some round to come reads past the last.
inductive Stage (node : Nat) (msg : NetMessage) (ignorePeer : Option Nat) (s : Network) (after : Loop) : Prop where
  | going (same : mPeers after.network node = mPeers s node) (within : after.position ≤ (mPeers s node).length)
      (told : ToldAll node msg ignorePeer s ((mPeers s node).take after.position) after)
  | short (fewer : (mPeers after.network node).length < (mPeers s node).length)
      (within : after.position < (mPeers s node).length)
  | last (pruned : mPeers after.network node = (mPeers s node).dropLast)
      (ended : after.position = (mPeers s node).length)
      (told : ToldAll node msg ignorePeer s (mPeers s node).dropLast after)

theorem spares_step {s next : Owners} (stepped : PeerLifetime.step s event = some next)
    (spared : sparesPeers event = true) : next.mPeers = s.mPeers := by
  cases event with
  | connect header established => cases established <;> cases stepped <;> rfl
  | accept | push | neighbor => cases spared
  | copy peer =>
      simp only [PeerLifetime.step] at stepped
      split at stepped <;> cases stepped
      rfl
  | drop position =>
      obtain ⟨peer,_,rfl⟩ := Option.map_eq_some_iff.mp stepped
      unfold Owners.release
      split <;> rfl
  | popFront =>
      simp only [PeerLifetime.step] at stepped
      split at stepped <;> cases stepped
      rfl
  | message position msg =>
      obtain ⟨peer,_,messaged⟩ := Option.bind_eq_some_iff.mp stepped
      unfold Owners.message at messaged
      rw [NetInterface.message_peers,Option.bind_some,reduceOption_some] at messaged
      exact send_peers messaged
  | sender peer event =>
      obtain ⟨object,_,written⟩ := Option.bind_eq_some_iff.mp (sender_wrote stepped)
      obtain ⟨after,_,rfl⟩ := Option.map_eq_some_iff.mp written
      rfl
  | arrive peer arrival =>
      obtain ⟨object,_,taken⟩ := Option.bind_eq_some_iff.mp stepped
      obtain ⟨after,_,rfl⟩ := Option.map_eq_some_iff.mp taken
      rfl

theorem put_peers (s : Network) (other : Nat) (after : Node) (node : Nat) :
    mPeers (s.put other after) node = if node = other then after.owners.mPeers else mPeers s node := by
  simp only [mPeers,Network.put,Function.update_apply]
  split <;> rfl

theorem spares_peers {s next : Network} (stepped : Links.step s event = some next)
    (spared : spares node s event = true) : mPeers next node = mPeers s node := by
  obtain ⟨other,own,after,acts,acted,nodes⟩ := step_acts stepped
  have same : mPeers next node = mPeers (s.put other after) node := by rw [mPeers,mPeers,nodes]
  rw [same,put_peers]
  split
  · rename_i here
    have own_spared : sparesPeers own = true := by
      cases acts with
      | act => simpa [spares,here] using spared
      | byte | dial => rfl
      | accept found => simp [spares,found,here] at spared
    rw [spares_step (node_stepped acted).1 own_spared,mPeers,here]
  · rfl

theorem heard_append (node : Nat) (ignorePeer : Option Nat) (first second : List Nat) (place : End) :
    heard node ignorePeer (first ++ second) place =
      heard node ignorePeer first place + heard node ignorePeer second place := by
  unfold heard
  split
  · exact List.count_append
  · rfl

theorem calls_heard {connected : Nat → Bool} (alive : connected peer = true) (place : End) :
    (if place.1 = node then toldTo place.2 (NetInterface.calls connected msg ignorePeer [peer]) else []) =
      List.replicate (heard node ignorePeer [peer] place) msg := by
  by_cases here : place.1 = node
  · by_cases same : peer = place.2
    · by_cases ignored : some peer = ignorePeer <;>
        simp [NetInterface.calls,alive,ignored,toldTo,heard,here,← same]
    · by_cases ignored : some peer = ignorePeer <;>
        simp [NetInterface.calls,alive,ignored,toldTo,heard,here,same]
  · simp [heard,here]

theorem calls_lost {connected : Nat → Bool} (lost : connected peer = false) (other : Nat) :
    toldTo other (NetInterface.calls connected msg ignorePeer [peer]) = [] := by
  simp [NetInterface.calls,lost,toldTo]

-- What a round does: a peer that is connected is told, one that is lost is erased.
inductive Visit (node : Nat) (msg : NetMessage) (ignorePeer : Option Nat) (position : Nat) (s next : Network) :
    Prop where
  | told (peer : Nat) (found : (mPeers s node)[position]? = some peer) (same : mPeers next node = mPeers s node)
      (told : ∀ place, (told next place).Perm
        (told s place ++ List.replicate (heard node ignorePeer [peer] place) msg))
  | erased (inside : position < (mPeers s node).length)
      (pruned : mPeers next node = (mPeers s node).eraseIdx position)
      (told : ∀ place, (told next place).Perm (told s place ++ List.replicate 0 msg))

theorem round_visits {s next : Network}
    (stepped : Links.step s (.act node (.neighbor position msg ignorePeer)) = some next) :
    Visit node msg ignorePeer position s next := by
  have went := network_told stepped
  simp only [Links.step,alone,if_true] at stepped
  obtain ⟨after,acted,rfl⟩ := Option.map_eq_some_iff.mp stepped
  obtain ⟨peer,found,ran⟩ := Option.bind_eq_some_iff.mp (node_stepped acted).1
  obtain ⟨visited,visits,isAfter⟩ := Option.map_eq_some_iff.mp ran
  have round := (neighbor_round found visits).mPeers
  rw [isAfter] at round
  have kept : mPeers (s.put node after) node = after.owners.mPeers := by rw [put_peers,if_pos rfl]
  have calls (place : End) : toldTo place (networkTells s (.act node (.neighbor position msg ignorePeer))) =
      if place.1 = node then
        toldTo place.2 (NetInterface.calls (s.nodes node).owners.isConnected msg ignorePeer [peer]) else [] := by
    rw [networkTells,toldTo_node,tells,found,Option.toList_some]
  cases alive : (s.nodes node).owners.isConnected peer with
  | true =>
      rw [alive,if_pos rfl] at round
      refine .told peer found (kept.trans round) fun place => (went place).trans ?_
      rw [calls,calls_heard alive]
  | false =>
      rw [alive,if_neg (by decide)] at round
      refine .erased (List.getElem?_eq_some_iff.mp found).1 (kept.trans round) fun place => (went place).trans ?_
      rw [calls,calls_lost alive,ite_self]
      exact .refl _

theorem ToldSince.round (position : Nat) {s next : Network} {after : Loop} (since : ToldSince s after msg place times)
    (went : (told next place).Perm (told after.network place ++ List.replicate more msg)) :
    ToldSince s {after with network := next, position := position} msg place (times + more) := by
  have all := went.trans (since.append_right _)
  rwa [List.append_assoc _ (List.replicate _ _),List.replicate_append_replicate] at all

theorem ToldSince.other {s next : Network} {after : Loop} (since : ToldSince s after msg place times)
    (stepped : Links.step after.network event = some next) :
    ToldSince s {after with network := next, meanwhile := after.meanwhile ++ networkTells after.network event}
      msg place times := by
  unfold ToldSince at since ⊢
  rw [toldTo_append]
  refine ((network_told stepped place).trans (since.append_right _)).trans ?_
  simp only [List.append_assoc]
  exact (List.perm_append_comm.append_left _).append_left _

theorem eraseIdx_fewer {peers : List Nat} (inside : position < peers.length) :
    (peers.eraseIdx position).length < peers.length := by
  rw [List.length_eraseIdx_of_lt inside]
  omega

-- A peer has been missed: no round that goes through is the last.
theorem short_round {s next : Network} {one : Loop} (fewer : (mPeers one.network node).length < (mPeers s node).length)
    (visit : Visit node msg ignorePeer one.position one.network next) :
    Stage node msg ignorePeer s {one with network := next, position := one.position + 1} := by
  cases visit with
  | told peer found same told =>
      have here := (List.getElem?_eq_some_iff.mp found).1
      exact .short (by rw [same]; exact fewer) (Nat.lt_of_le_of_lt here fewer)
  | erased here pruned told =>
      refine .short ?_ (Nat.lt_of_le_of_lt here fewer)
      rw [pruned]
      exact Nat.lt_trans (eraseIdx_fewer here) fewer

theorem going_round {s next : Network} {one : Loop} (same : mPeers one.network node = mPeers s node)
    (inside : one.position < (mPeers s node).length)
    (told : ToldAll node msg ignorePeer s ((mPeers s node).take one.position) one)
    (visit : Visit node msg ignorePeer one.position one.network next) :
    Stage node msg ignorePeer s {one with network := next, position := one.position + 1} := by
  cases visit with
  | told peer found kept heard =>
      rw [same] at found
      refine .going (kept.trans same) inside fun place => ?_
      have since := (told place).round (one.position + 1) (heard place)
      rwa [List.take_add_one,found,Option.toList_some,heard_append]
  | erased here pruned silent =>
      rw [same] at pruned
      by_cases isLast : one.position + 1 = (mPeers s node).length
      · refine .last ?_ isLast fun place => ?_
        · rw [pruned,← List.eraseIdx_length_sub_one,← isLast,Nat.add_sub_cancel]
        · have since := (told place).round (one.position + 1) (silent place)
          rw [List.dropLast_eq_take,← isLast,Nat.add_sub_cancel]
          exact since
      · refine .short ?_ (Nat.lt_of_le_of_ne inside isLast)
        rw [pruned]
        exact eraseIdx_fewer inside

theorem other_stage {s next : Network} {one : Loop} (stage : Stage node msg ignorePeer s one)
    (went : Links.step one.network event = some next) (spared : spares node one.network event = true) :
    Stage node msg ignorePeer s
      {one with network := next, meanwhile := one.meanwhile ++ networkTells one.network event} := by
  have kept := spares_peers went spared
  cases stage with
  | going same within told => exact .going (kept.trans same) within fun place => (told place).other went
  | short fewer within => exact .short (by rw [kept]; exact fewer) within
  | last pruned ended told => exact .last (kept.trans pruned) ended fun place => (told place).other went

theorem step_stage (s : Network) (one : Loop) (event : Event) (next : Loop) (stage : Stage node msg ignorePeer s one)
    (stepped : step node msg ignorePeer (mPeers s node).length one event = some next) :
    Stage node msg ignorePeer s next := by
  cases event with
  | other event =>
      simp only [step] at stepped
      split at stepped
      · rename_i spared
        obtain ⟨network,went,rfl⟩ := Option.map_eq_some_iff.mp stepped
        exact other_stage stage went spared
      · cases stepped
  | round =>
      simp only [step] at stepped
      split at stepped
      · rename_i inside
        obtain ⟨network,went,rfl⟩ := Option.map_eq_some_iff.mp stepped
        cases stage with
        | going same within told => exact going_round same inside told (round_visits went)
        | short fewer within => exact short_round fewer (round_visits went)
        | last pruned ended told => omega
      · cases stepped

-- What a loop that has come to its end has done, whatever others did meanwhile.
structure Broadcast (node : Nat) (msg : NetMessage) (ignorePeer : Option Nat) (s : Network) (after : Loop) : Prop where
  peers : mPeers after.network node = mPeers s node ∨ mPeers after.network node = (mPeers s node).dropLast
  told : ∀ place, (told after.network place).Perm (told s place ++ toldTo place after.meanwhile ++
    List.replicate (heard node ignorePeer (mPeers after.network node) place) msg)

theorem loop_broadcasts {s : Network} {events : List Event}
    (ran : Runs.run (step node msg ignorePeer (mPeers s node).length) ⟨s,0,[]⟩ events = some after)
    (ended : after.position = (mPeers s node).length) : Broadcast node msg ignorePeer s after := by
  have start : Stage node msg ignorePeer s ⟨s,0,[]⟩ := by
    refine .going rfl (Nat.zero_le _) fun place => ?_
    simp [ToldSince,heard,toldTo]
  cases Runs.invariant (step_stage s) start ran with
  | going same within told =>
      refine ⟨.inl same,fun place => ?_⟩
      have since := told place
      rwa [ended,List.take_length,← same] at since
  | short fewer within => omega
  | last pruned _ told =>
      refine ⟨.inr pruned,fun place => ?_⟩
      have since := told place
      rwa [← pruned] at since

theorem tells_neighbors (node : Nat) (msg : NetMessage) (ignorePeer : Option Nat) (s : Network) (events : List Event)
    (ran : Runs.run (step node msg ignorePeer (mPeers s node).length) ⟨s,0,[]⟩ events = some after)
    (ended : after.position = (mPeers s node).length) : Broadcast node msg ignorePeer s after :=
  loop_broadcasts ran ended

def calledTwice : List Links.Event :=
  [.dial 1 0 PeerSend.ping.header,.dial 2 0 PeerSend.ping.header,.accept 0 PeerSend.ping.header,
    .accept 0 PeerSend.ping.header]

-- Node 0 pings the two nodes that have called it; the first of them pings it between the two rounds.
def answered : List Event := [.round,.other (.act 1 (.sender 0 (.send PeerSend.ping))),.round]

theorem tells_neighbors_two : ∃ s, Runs.run Links.step Links.fresh calledTwice = some s ∧
    ∃ after, Broadcast 0 PeerSend.ping none s after ∧ told after.network (0,0) = [PeerSend.ping] ∧
      told after.network (0,1) = [PeerSend.ping] ∧ told after.network (1,0) = [PeerSend.ping] :=
  ⟨_,rfl,_,tells_neighbors 0 PeerSend.ping none _ answered rfl rfl,rfl,rfl,rfl⟩

def framesOf (messages : List NetMessage) : List Frame :=
  messages.filterMap fun msg => if sized : msg.header.size.toNat = msg.body.size then some ⟨msg,sized⟩ else none

theorem framesOf_map (frames : List Frame) : framesOf (frames.map Frame.toNetMessage) = frames := by
  induction frames with
  | nil => rfl
  | cons frame frames ih =>
      rw [framesOf,List.map_cons,List.filterMap_cons,dif_pos frame.sized]
      exact congrArg (frame :: ·) ih

-- What is told in another order are still frames.
theorem framesOf_perm {frames : List Frame} (perm : messages.Perm (frames.map Frame.toNetMessage)) :
    (framesOf messages).Perm frames ∧ messages = (framesOf messages).map Frame.toNetMessage := by
  have order := perm.filterMap fun msg =>
    if sized : msg.header.size.toNat = msg.body.size then some (⟨msg,sized⟩ : Frame) else none
  refine ⟨order.trans (.of_eq (framesOf_map frames)),?_⟩
  have sized : ∀ msg ∈ messages, msg.header.size.toNat = msg.body.size := by
    intro msg member
    obtain ⟨frame,_,rfl⟩ := List.mem_map.mp (perm.mem_iff.mp member)
    exact frame.sized
  clear perm order
  induction messages with
  | nil => rfl
  | cons msg messages ih =>
      obtain ⟨here,later⟩ := List.forall_mem_cons.mp sized
      rw [framesOf,List.filterMap_cons,dif_pos here]
      exact congrArg (msg :: ·) (ih later)

theorem loop_invariant (s : Loop) (event : Event) (next : Loop) (inv : Relaying.Invariant s.network)
    (stepped : step node msg ignorePeer bound s event = some next) : Relaying.Invariant next.network := by
  cases event with
  | round | other event =>
      simp only [step] at stepped
      split at stepped
      · obtain ⟨network,went,rfl⟩ := Option.map_eq_some_iff.mp stepped
        exact Relaying.step_invariant _ _ _ inv went
      · cases stepped

-- A live link out of whose one end frames have been told so far.
structure Heard (s : Network) (after : Loop) (before : End → List Frame) (link : End × End) : Prop where
  linked : after.network.other link.1 = some link.2
  live : Live after.network link.1 link.2
  framed : told s link.2 ++ toldTo link.2 after.meanwhile = (before link.1).map Frame.toNetMessage

-- When the loop has ended the message can be brought to the pumps of all neighbors, and nothing
-- that has been told besides is lost on the way.
theorem heard_everywhere (node : Nat) (frame : Frame) (ignorePeer : Option Nat) (events : List Links.Event)
    (ran : Runs.run Links.step Links.fresh events = some s) (rounds : List Event)
    (looped : Runs.run (step node frame.toNetMessage ignorePeer (mPeers s node).length) ⟨s,0,[]⟩ rounds = some after)
    (ended : after.position = (mPeers s node).length) (links : List (End × End)) (before : End → List Frame)
    (neighbors : ∀ link ∈ links, Heard s after before link) :
    ∃ (more : List Links.Event) (next : Network), (∀ event ∈ more, delivers event = true) ∧
      Runs.run Links.step after.network more = some next ∧ ∀ link ∈ links, ∃ order : List Frame,
        order.Perm (before link.1 ++ List.replicate (heard node ignorePeer (mPeers after.network node) link.2) frame) ∧
        next.poppedFrom link.1 = deliveries .empty order := by
  have inv := Runs.invariant loop_invariant (run_invariant ran) looped
  have broadcast := loop_broadcasts looped ended
  let sent (place : End) : List Frame :=
    (after.network.other place).elim [] fun source => framesOf (told after.network source)
  have orders (link : End × End) (member : link ∈ links) : (sent link.1).Perm
      (before link.1 ++ List.replicate (heard node ignorePeer (mPeers after.network node) link.2) frame) ∧
      told after.network link.2 = (sent link.1).map Frame.toNetMessage := by
    obtain ⟨linked,_,framed⟩ := neighbors link member
    have told := broadcast.told link.2
    rw [framed,← List.map_replicate,← List.map_append] at told
    simpa only [sent,linked,Option.elim_some] using framesOf_perm told
  obtain ⟨more,next,kinds,went,popped⟩ := links_carried sent inv fun link member =>
    ⟨(neighbors link member).linked,(neighbors link member).live,(orders link member).2⟩
  exact ⟨more,next,kinds,went,fun link member => ⟨sent link.1,(orders link member).1,popped link member⟩⟩

theorem popped_one {next : Network} {times : Nat} (told : ∃ order : List Frame,
    order.Perm (earlier ++ List.replicate times pinged) ∧ next.poppedFrom place = deliveries .empty order)
    (single : earlier ++ List.replicate times pinged = [pinged]) : next.poppedFrom place = [PeerSend.ping] := by
  obtain ⟨order,perm,popped⟩ := told
  rw [single,List.perm_singleton] at perm
  rw [popped,perm]
  rfl

-- Both pings of node 0 and that of node 1 come to the pumps.
theorem heard_everywhere_two : ∃ (after : Loop) (more : List Links.Event) (next : Network),
    (∀ event ∈ more, delivers event = true) ∧ Runs.run Links.step after.network more = some next ∧
      next.poppedFrom (1,0) = [PeerSend.ping] ∧ next.poppedFrom (2,0) = [PeerSend.ping] ∧
      next.poppedFrom (0,0) = [PeerSend.ping] := by
  obtain ⟨more,next,kinds,went,popped⟩ := heard_everywhere 0 pinged none calledTwice rfl answered rfl rfl
    [((1,0),(0,0)),((2,0),(0,1)),((0,0),(1,0))] (fun place => if place = (0,0) then [pinged] else []) (by
      simp only [List.forall_mem_cons,List.not_mem_nil,false_imp_iff,implies_true,and_true]
      exact ⟨⟨rfl,⟨⟨_,rfl,rfl,rfl⟩,⟨_,rfl,rfl⟩,by decide,rfl,rfl⟩,rfl⟩,
        ⟨rfl,⟨⟨_,rfl,rfl,rfl⟩,⟨_,rfl,rfl⟩,by decide,rfl,rfl⟩,rfl⟩,
        ⟨rfl,⟨⟨_,rfl,rfl,rfl⟩,⟨_,rfl,rfl⟩,by decide,rfl,rfl⟩,rfl⟩⟩)
  simp only [List.forall_mem_cons,List.not_mem_nil,false_imp_iff,implies_true,and_true] at popped
  exact ⟨_,more,next,kinds,went,popped_one popped.1 rfl,popped_one popped.2.1 rfl,popped_one popped.2.2 rfl⟩

end Keyser.Broadcasting
