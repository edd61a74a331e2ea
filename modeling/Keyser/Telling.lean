import Keyser.Delivery

namespace Keyser.Telling
open Framing PeerReceive PeerLifetime Links LinkSteps Relaying Delivery

variable {Place : Type} [DecidableEq Place]

-- What somebody is told by calls of send.
def toldTo (place : Place) (calls : List (Place × NetMessage)) : List NetMessage :=
  (calls.filter fun call => decide (call.1 = place)).map Prod.snd

theorem toldTo_append (place : Place) (first second : List (Place × NetMessage)) :
    toldTo place (first ++ second) = toldTo place first ++ toldTo place second := by
  simp [toldTo]

theorem toldTo_self (place : Place) (messages : List NetMessage) :
    toldTo place (messages.map (place,·)) = messages := by
  simp [toldTo,List.filter_map,Function.comp_def]

theorem toldTo_other {one other : Place} (away : other ≠ one) (messages : List NetMessage) :
    toldTo other (messages.map (one,·)) = [] := by
  simp [toldTo,List.filter_map,Function.comp_def,away.symm]

def said : PeerSend.Event → List NetMessage
  | .send msg => [msg]
  | _ => []

-- Whatever order the handlers run in, each posts the message it holds.
theorem sender_told {s next : PeerSend.Sender} (stepped : PeerSend.step s event = some next) :
    (next.posted ++ next.handlers).Perm (s.posted ++ s.handlers ++ said event) := by
  cases PeerSend.step_taken stepped with
  | send => rw [List.append_assoc]; exact .refl _
  | @posted handler msg found =>
      have kept := PeerSend.onPosted_undisturbed {s with handlers := s.handlers.eraseIdx handler} msg
      obtain ⟨short,rfl⟩ := List.getElem?_eq_some_iff.mp found
      simp only [said,List.append_nil]
      rw [kept.posted,kept.handlers,List.append_assoc]
      exact (List.getElem_cons_eraseIdx_perm short).append_left _
  | @written op write found allSent =>
      have kept := PeerSend.onWritten_undisturbed {s with writing := s.writing.eraseIdx op} write.part
      simp only [said,List.append_nil]
      rw [kept.posted,kept.handlers]
  | transmit | writeFailed | disconnect => simp only [said,List.append_nil]; exact .refl _

def heldBy (s : Owners) (peer : Nat) : List NetMessage :=
  s.objects[peer]?.elim [] fun object => object.sender.posted ++ object.sender.handlers

-- What the peers are told by a step of their node.
def tells (s : Owners) : PeerLifetime.Event → List (Nat × NetMessage)
  | .message position msg => NetInterface.calls s.isConnected msg none s.locals[position]?.toList
  | .neighbor position msg ignorePeer => NetInterface.calls s.isConnected msg ignorePeer s.mPeers[position]?.toList
  | .sender peer event => (said event).map (peer,·)
  | _ => []

theorem write_told {s next : Owners} (wrote : s.write peer event = some next) (other : Nat) :
    (heldBy next other).Perm (heldBy s other ++ toldTo other ((said event).map (peer,·))) := by
  obtain ⟨object,found,written⟩ := Option.bind_eq_some_iff.mp wrote
  obtain ⟨after,moves,rfl⟩ := Option.map_eq_some_iff.mp written
  obtain ⟨sender,stepped,rfl⟩ := write_moves moves
  by_cases same : other = peer
  · subst same
    rw [toldTo_self,heldBy,heldBy,found,List.getElem?_set_self (List.getElem?_eq_some_iff.mp found).1]
    exact sender_told stepped
  · rw [toldTo_other same,List.append_nil,heldBy,heldBy,List.getElem?_set_ne fun here => same here.symm]

theorem send_told {s next : Owners} (sent : s.send made = some next) (other : Nat) :
    (heldBy next other).Perm (heldBy s other ++ toldTo other made) := by
  induction made generalizing s with
  | nil =>
      cases sent
      rw [show toldTo other [] = [] from rfl,List.append_nil]
  | cons call made ih =>
      obtain ⟨middle,wrote,rest⟩ := Option.bind_eq_some_iff.mp sent
      have one := write_told wrote other
      have two := (ih rest).trans (one.append_right _)
      rwa [List.append_assoc,← toldTo_append] at two

theorem send_peers {s next : Owners} (sent : s.send made = some next) : next.mPeers = s.mPeers := by
  induction made generalizing s with
  | nil => cases sent; rfl
  | cons call made ih =>
      obtain ⟨middle,wrote,rest⟩ := Option.bind_eq_some_iff.mp sent
      obtain ⟨object,_,written⟩ := Option.bind_eq_some_iff.mp wrote
      obtain ⟨after,_,rfl⟩ := Option.map_eq_some_iff.mp written
      have kept := ih rest
      exact kept

theorem object_told {s next : Owners} (objects : next.objects[other]? = s.objects[other]?) :
    heldBy next other = heldBy s other := by
  rw [heldBy,objects,heldBy]

theorem release_told (s : Owners) (peer other : Nat) : heldBy (s.release peer) other = heldBy s other := by
  unfold Owners.release
  split
  · simp only [heldBy,List.getElem?_modify]
    cases s.objects[other]? with
    | none => rfl
    | some object => split <;> rfl
  · rfl

theorem snoc_told {s next : Owners} (objects : next.objects = s.objects ++ [object])
    (new : object.sender = PeerSend.fresh isOpen) (other : Nat) : heldBy next other = heldBy s other := by
  rw [heldBy,heldBy,objects]
  rcases Nat.lt_trichotomy other s.objects.length with old | rfl | beyond
  · rw [List.getElem?_append_left old]
  · rw [List.getElem?_concat_length,List.getElem?_eq_none (Nat.le_refl _),Option.elim_some,new]
    rfl
  · rw [List.getElem?_eq_none (Nat.le_of_lt beyond),List.getElem?_eq_none (by simp; omega)]

theorem message_told {s next : Owners} (messaged : s.message peer msg = some next) (other : Nat) :
    (heldBy next other).Perm (heldBy s other ++ toldTo other (NetInterface.calls s.isConnected msg none [peer])) := by
  unfold Owners.message at messaged
  rw [NetInterface.message_peers,Option.bind_some,reduceOption_some] at messaged
  have sent := send_told messaged other
  cases alive : s.isConnected peer <;> simpa [NetInterface.calls,alive] using sent

-- Whom a round tells, and what is left of mPeers: a peer that is lost is told nothing and erased.
structure Round (s next : Owners) (position : Nat) (msg : NetMessage) (ignorePeer : Option Nat) (peer : Nat) :
    Prop where
  found : s.mPeers[position]? = some peer
  told : ∀ other, (heldBy next other).Perm
    (heldBy s other ++ toldTo other (NetInterface.calls s.isConnected msg ignorePeer [peer]))
  mPeers : next.mPeers = if s.isConnected peer = true then s.mPeers else s.mPeers.eraseIdx position

theorem neighbor_round {s visited : Owners} (found : s.mPeers[position]? = some peer)
    (ran : s.neighbor position msg ignorePeer = some visited) :
    Round s (visited.release peer) position msg ignorePeer peer := by
  cases alive : s.isConnected peer with
  | false =>
      cases neighbor_lost found alive ran
      refine ⟨found,fun other => ?_,?_⟩
      · rw [release_told]
        simp [NetInterface.calls,alive,toldTo,heldBy]
      · rw [alive,if_neg (by decide)]
        unfold Owners.release
        split <;> rfl
  | true =>
      rw [release_owned (neighbor_connected found alive ran).2]
      have element : (NetInterface.peersOf s.mPeers).mPeers[position]? = some (some peer) := by
        simp [NetInterface.peersOf,found]
      unfold Owners.neighbor at ran
      rw [NetInterface.visit_connected msg ignorePeer element alive,Option.bind_some] at ran
      simp only [NetInterface.peersOf,reduceOption_some,List.nil_append] at ran
      refine ⟨found,send_told ran,?_⟩
      rw [alive,if_pos rfl]
      exact send_peers ran

theorem step_told {s next : Owners} (stepped : PeerLifetime.step s event = some next) (other : Nat) :
    (heldBy next other).Perm (heldBy s other ++ toldTo other (tells s event)) := by
  have silent (same : heldBy next other = heldBy s other) (none : tells s event = []) :
      (heldBy next other).Perm (heldBy s other ++ toldTo other (tells s event)) := by
    rw [same,none,show toldTo other [] = [] from rfl,List.append_nil]
  cases event with
  | connect header established =>
      cases established <;> cases stepped <;> exact silent (snoc_told rfl rfl other) rfl
  | accept header => cases stepped; exact silent (snoc_told rfl rfl other) rfl
  | push position =>
      obtain ⟨peer,_,rfl⟩ := Option.map_eq_some_iff.mp stepped
      exact silent rfl rfl
  | copy peer =>
      simp only [PeerLifetime.step] at stepped
      split at stepped <;> cases stepped
      exact silent rfl rfl
  | drop position =>
      obtain ⟨peer,_,rfl⟩ := Option.map_eq_some_iff.mp stepped
      exact silent (release_told _ peer other) rfl
  | popFront =>
      simp only [PeerLifetime.step] at stepped
      split at stepped <;> cases stepped
      exact silent rfl rfl
  | message position msg =>
      obtain ⟨peer,found,messaged⟩ := Option.bind_eq_some_iff.mp stepped
      rw [tells,found]
      exact message_told messaged other
  | neighbor position msg ignorePeer =>
      obtain ⟨peer,found,ran⟩ := Option.bind_eq_some_iff.mp stepped
      obtain ⟨visited,visits,rfl⟩ := Option.map_eq_some_iff.mp ran
      rw [tells,found]
      exact (neighbor_round found visits).told other
  | sender peer event => exact write_told (sender_wrote stepped) other
  | arrive peer arrival =>
      obtain ⟨object,found,taken⟩ := Option.bind_eq_some_iff.mp stepped
      obtain ⟨after,arrived,rfl⟩ := Option.map_eq_some_iff.mp taken
      refine silent ?_ rfl
      by_cases same : other = peer
      · subst same
        rw [heldBy,heldBy,found,List.getElem?_set_self (List.getElem?_eq_some_iff.mp found).1,Option.elim_some,
          Option.elim_some,(arrive_moves arrived).2.2]
      · exact object_told (List.getElem?_set_ne fun here => same here.symm)

-- What the peers of the nodes are told by a step of the network.
def networkTells (s : Network) : Links.Event → List (End × NetMessage)
  | .act node event => (tells (s.nodes node).owners event).map fun call => ((node,call.1),call.2)
  | _ => []

theorem toldTo_node (node : Nat) (made : List (Nat × NetMessage)) (place : End) :
    toldTo place (made.map fun call => ((node,call.1),call.2)) =
      if place.1 = node then toldTo place.2 made else [] := by
  obtain ⟨at_node,peer⟩ := place
  split
  · rename_i here
    cases here
    simp [toldTo,List.filter_map,Function.comp_def]
  · rename_i away
    simp [toldTo,List.filter_map,Function.comp_def,show ¬ node = at_node from fun same => away same.symm]

theorem put_told {s : Network} {after : Node} (stepped : (s.nodes node).step event = some after) (place : End) :
    (told (s.put node after) place).Perm
      (told s place ++ if place.1 = node then toldTo place.2 (tells (s.nodes node).owners event) else []) := by
  have owned := (node_stepped stepped).1
  rw [told,told,put_object]
  split
  · rename_i here
    rw [Network.object,here]
    exact step_told owned place.2
  · rw [List.append_nil]

-- A send that a peer is told of is kept, and no other is made up.
theorem network_told {s next : Network} (stepped : Links.step s event = some next) (place : End) :
    (told next place).Perm (told s place ++ toldTo place (networkTells s event)) := by
  obtain ⟨node,own,after,acts,acted,nodes⟩ := step_acts stepped
  have same : told next place = told (s.put node after) place := by
    rw [told,told,Network.object,Network.object,nodes]
  have went := put_told acted place
  rw [← same] at went
  cases acts with
  | act =>
      rw [networkTells,toldTo_node]
      exact went
  | byte | dial | accept => split at went <;> exact went

end Keyser.Telling
