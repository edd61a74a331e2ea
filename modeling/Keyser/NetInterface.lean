import Keyser.Framing
import Mathlib.Data.List.Nodup

namespace Keyser.NetInterface
open Framing Memory

variable {Peer : Type} {connected : Peer → Bool} {checked : Bool}
  {msg : NetMessage} {ignorePeer : Option Peer}

-- A shared_ptr& names an element of mPeers or a pointer that lives elsewhere.
inductive Ref (Peer : Type) where
  | element (position : Nat)
  | elsewhere (peer : Option Peer)

structure Network (Peer : Type) where
  mPeers : List (Option Peer)
  sent : List (Peer × NetMessage)

-- Reading past the end of mPeers, or through a null pointer, is undefined.
def Network.get (network : Network Peer) : Ref Peer → Option (Option Peer)
  | .element position => network.mPeers[position]?
  | .elsewhere peer => some peer

def Network.reset (network : Network Peer) : Ref Peer → Network Peer
  | .element position => {network with mPeers := network.mPeers.set position none}
  | .elsewhere _ => network

def Network.eraseNull (network : Network Peer) : Network Peer :=
  {network with mPeers := network.mPeers.filter Option.isSome}

def Network.send (network : Network Peer) (peer : Option Peer) (msg : NetMessage) : Option (Network Peer) :=
  peer.map fun peer => {network with sent := network.sent ++ [(peer,msg)]}

-- onDisconnect is empty in the source.
def validateConnection (connected : Peer → Bool) (network : Network Peer) (ref : Ref Peer) :
    Option (Bool × Network Peer) :=
  (network.get ref).map fun peer =>
    if peer.any connected then (true,network) else (false,(network.reset ref).eraseNull)

-- The pointer message is given is its own copy, not an element of mPeers.
def message (connected : Peer → Bool) (network : Network Peer) (peer : Option Peer) (msg : NetMessage) :
    Option (Network Peer) :=
  (validateConnection connected network (.elsewhere peer)).bind fun (valid,network) =>
    if valid then network.send peer msg else some network

theorem validateConnection_length {network after : Network Peer}
    (validated : validateConnection connected network ref = some (valid,after)) :
    after.mPeers.length ≤ network.mPeers.length := by
  obtain ⟨peer,_,answered⟩ := Option.map_eq_some_iff.mp validated
  split at answered
  · cases answered; exact Nat.le_refl _
  · cases answered
    refine (List.length_filter_le _ _).trans ?_
    cases ref with
    | element position => simp [Network.reset]
    | elsewhere peer => exact Nat.le_refl _

-- `stale` tells that an erase has invalidated the iterators of the range-for.
structure Iteration (Peer : Type) where
  network : Network Peer
  visits : List (Nat × Option Peer)
  stale : Bool

def Unshifted (peers : List Peer) (visits : List (Nat × Option Peer)) : Prop :=
  ∀ visit ∈ visits, peers[visit.1]?.map some = some visit.2

theorem unshifted_snoc (done rest : List Peer) (before : Unshifted (done ++ peer :: rest) visits) :
    Unshifted (done ++ peer :: rest) (visits ++ [(done.length,some peer)]) := by
  intro visit member
  rcases List.mem_append.mp member with old | new
  · exact before visit old
  · rw [List.mem_singleton] at new
    subst new
    simp

theorem connected_or_split (connected : Peer → Bool) (peers : List Peer) :
    (∀ peer ∈ peers, connected peer = true) ∨ ∃ good lost rest, peers = good ++ lost :: rest ∧
      (∀ peer ∈ good, connected peer = true) ∧ connected lost = false := by
  induction peers with
  | nil => exact .inl (by simp)
  | cons peer rest ih =>
      by_cases alive : connected peer = true
      · rcases ih with all | ⟨good,lost,after,rfl,goods,isLost⟩
        · exact .inl (by simpa [alive] using all)
        · exact .inr ⟨peer :: good,lost,after,rfl,by simpa [alive] using goods,isLost⟩
      · exact .inr ⟨[],peer,rest,rfl,by simp,Bool.eq_false_iff.mpr alive⟩

variable [DecidableEq Peer]

def visit (connected : Peer → Bool) (msg : NetMessage) (ignorePeer : Option Peer) (position : Nat)
    (s : Iteration Peer) : Option (Iteration Peer) :=
  (s.network.get (.element position)).bind fun peer =>
  (validateConnection connected s.network (.element position)).bind fun (valid,network) =>
  (if valid ∧ peer ≠ ignorePeer then network.send peer msg else some network).map fun network =>
    ⟨network,s.visits ++ [(position,peer)],
      s.stale || network.mPeers.length != s.network.mPeers.length⟩

-- Checked iterators stop at an invalidated one; plain ones go on with the position.
def advance (checked : Bool) (s : Iteration Peer) : Option (Iteration Peer) :=
  if checked && s.stale then none else some s

def loop (checked : Bool) (connected : Peer → Bool) (msg : NetMessage) (ignorePeer : Option Peer) :
    (left position : Nat) → Iteration Peer → Option (Iteration Peer)
  | 0,_,s => some s
  | left + 1,position,s => ((visit connected msg ignorePeer position s).bind (advance checked)).bind
      (loop checked connected msg ignorePeer left (position + 1))

def messageNeighbors (checked : Bool) (connected : Peer → Bool) (network : Network Peer) (msg : NetMessage)
    (ignorePeer : Option Peer) : Option (Iteration Peer) :=
  loop checked connected msg ignorePeer network.mPeers.length 0 ⟨network,[],false⟩

theorem visit_length {s next : Iteration Peer} (visited : visit connected msg ignorePeer position s = some next) :
    position < s.network.mPeers.length ∧ next.network.mPeers.length ≤ s.network.mPeers.length := by
  obtain ⟨peer,found,visited⟩ := Option.bind_eq_some_iff.mp visited
  obtain ⟨⟨valid,network⟩,validated,visited⟩ := Option.bind_eq_some_iff.mp visited
  obtain ⟨after,sent,rfl⟩ := Option.map_eq_some_iff.mp visited
  refine ⟨(List.getElem?_eq_some_iff.mp found).1,?_⟩
  have same : after.mPeers = network.mPeers := by
    split at sent
    · obtain ⟨_,_,rfl⟩ := Option.map_eq_some_iff.mp sent; rfl
    · cases sent; rfl
  rw [same]
  exact validateConnection_length validated

-- With fewer elements than the end was set at, some visit reads past the last.
theorem loop_short {s : Iteration Peer} (ahead : 0 < left) (short : s.network.mPeers.length < position + left) :
    loop checked connected msg ignorePeer left position s = none := by
  induction left generalizing position s with
  | zero => cases ahead
  | succ left ih =>
      rw [loop]
      cases visited : visit connected msg ignorePeer position s with
      | none => rfl
      | some next =>
          obtain ⟨inside,shrunk⟩ := visit_length visited
          simp only [Option.bind_some,advance]
          split
          · rfl
          · exact ih (by omega) (by omega)

def calls (connected : Peer → Bool) (msg : NetMessage) (ignorePeer : Option Peer) (peers : List Peer) :
    List (Peer × NetMessage) :=
  (peers.filter fun peer => connected peer && decide (some peer ≠ ignorePeer)).map (·,msg)

theorem calls_append (first second : List Peer) : calls connected msg ignorePeer (first ++ second) =
    calls connected msg ignorePeer first ++ calls connected msg ignorePeer second := by
  simp [calls]

theorem visit_connected (msg : NetMessage) (ignorePeer : Option Peer) {s : Iteration Peer}
    (found : s.network.mPeers[position]? = some (some peer)) (alive : connected peer = true) :
    visit connected msg ignorePeer position s =
      some ⟨{s.network with sent := s.network.sent ++ calls connected msg ignorePeer [peer]},
        s.visits ++ [(position,some peer)],s.stale⟩ := by
  simp only [visit,Network.get,validateConnection,found,Option.map_some,Option.bind_some,Option.any_some,
    alive,if_true,true_and]
  by_cases ignored : some peer = ignorePeer
  · simp [calls,ignored]
  · simp [calls,alive,ignored,Network.send]

theorem visit_disconnected (msg : NetMessage) (ignorePeer : Option Peer) (done rest : List Peer) {s : Iteration Peer}
    (peers : s.network.mPeers = (done ++ peer :: rest).map some) (lost : connected peer = false) :
    visit connected msg ignorePeer done.length s =
      some ⟨{s.network with mPeers := (done ++ rest).map some},s.visits ++ [(done.length,some peer)],true⟩ := by
  have kept : ((done.map some ++ none :: rest.map some).filter Option.isSome) = (done ++ rest).map some := by
    simp [List.filter_append,List.filter_map,Function.comp_def]
  simp only [visit,Network.get,validateConnection,Network.reset,Network.eraseNull]
  simp [peers,lost,kept]

theorem loop_connected (checked : Bool) (msg : NetMessage) (ignorePeer : Option Peer) (left : Nat)
    (done good rest : List Peer) {s : Iteration Peer} (peers : s.network.mPeers = (done ++ good ++ rest).map some)
    (alive : ∀ peer ∈ good, connected peer = true)
    (fresh : s.stale = false) (before : Unshifted (done ++ good ++ rest) s.visits) :
    ∃ visits, Unshifted (done ++ good ++ rest) visits ∧
      loop checked connected msg ignorePeer (good.length + left) done.length s =
        loop checked connected msg ignorePeer left (done ++ good).length
          ⟨{s.network with sent := s.network.sent ++ calls connected msg ignorePeer good},visits,false⟩ := by
  induction good generalizing done s with
  | nil => exact ⟨s.visits,before,by simp [calls,← fresh]⟩
  | cons peer good ih =>
      have here : s.network.mPeers[done.length]? = some (some peer) := by simp [peers]
      have shape : done ++ peer :: good ++ rest = (done ++ [peer]) ++ good ++ rest := by simp
      have visited := visit_connected msg ignorePeer here (alive peer (List.mem_cons_self ..))
      rw [shape] at peers before ⊢
      obtain ⟨visits,unshifted,same⟩ := ih (done ++ [peer])
        (s := ⟨{s.network with sent := s.network.sent ++ calls connected msg ignorePeer [peer]},
          s.visits ++ [(done.length,some peer)],s.stale⟩) peers
        (fun other member => alive other (List.mem_cons_of_mem _ member)) fresh
        (by simpa using unshifted_snoc done (good ++ rest) (by simpa using before))
      refine ⟨visits,unshifted,?_⟩
      rw [List.length_cons,Nat.add_right_comm,loop,visited]
      simp only [Option.bind_some,advance,fresh,Bool.and_false,Bool.false_eq_true,if_false]
      simp only [fresh,List.length_append,List.length_singleton] at same
      rw [same]
      rw [show peer :: good = [peer] ++ good from rfl,calls_append]
      simp only [List.append_assoc,List.length_append,List.length_singleton,Nat.add_assoc]

def peersOf (peers : List Peer) : Network Peer := ⟨peers.map some,[]⟩

theorem messageNeighbors_connected (checked : Bool) (msg : NetMessage) (ignorePeer : Option Peer) {peers : List Peer}
    (alive : ∀ peer ∈ peers, connected peer = true) :
    ∃ visits, Unshifted peers visits ∧ messageNeighbors checked connected (peersOf peers) msg ignorePeer =
      some ⟨⟨peers.map some,calls connected msg ignorePeer peers⟩,visits,false⟩ := by
  obtain ⟨visits,unshifted,ran⟩ := loop_connected checked msg ignorePeer 0 [] peers []
    (s := ⟨peersOf peers,[],false⟩)
    (by simp [peersOf]) alive rfl (by intro visit member; cases member)
  refine ⟨visits,by simpa using unshifted,?_⟩
  simpa [messageNeighbors,peersOf,loop] using ran

-- After the last peer the loop only compares with its stale end; else it runs past it.
theorem messageNeighbors_lost (checked : Bool) (msg : NetMessage) (ignorePeer : Option Peer) {good : List Peer}
    (rest : List Peer) (alive : ∀ peer ∈ good, connected peer = true)
    (isLost : connected lost = false) : ∃ visits, Unshifted (good ++ lost :: rest) visits ∧
      messageNeighbors checked connected (peersOf (good ++ lost :: rest)) msg ignorePeer =
        if checked = false ∧ rest = [] then
          some ⟨⟨good.map some,calls connected msg ignorePeer good⟩,visits,true⟩ else none := by
  obtain ⟨visits,unshifted,ran⟩ := loop_connected checked msg ignorePeer (rest.length + 1) [] good (lost :: rest)
    (s := ⟨peersOf (good ++ lost :: rest),[],false⟩) (by simp [peersOf]) alive rfl (by intro visit member; cases member)
  refine ⟨visits ++ [(good.length,some lost)],unshifted_snoc _ _ (by simpa using unshifted),?_⟩
  have total : (peersOf (good ++ lost :: rest)).mPeers.length = good.length + (rest.length + 1) := by
    simp [peersOf]
  rw [messageNeighbors,total]
  refine ran.trans ?_
  rw [List.nil_append,loop,visit_disconnected msg ignorePeer good rest rfl isLost]
  cases checked with
  | true => rfl
  | false =>
      simp only [Option.bind_some,advance,Bool.false_and,Bool.false_eq_true,if_false,true_and]
      cases rest with
      | nil => simp [loop,peersOf]
      | cons next rest =>
          rw [if_neg (by simp)]
          exact loop_short (by simp) (by simp)

structure Broadcast (connected : Peer → Bool) (msg : NetMessage) (ignorePeer : Option Peer) (peers : List Peer)
    (final : Iteration Peer) : Prop where
  once : ∀ peer, (final.network.sent.map Prod.fst).count peer =
    if peer ∈ peers ∧ connected peer = true ∧ some peer ≠ ignorePeer then 1 else 0
  same : ∀ call ∈ final.network.sent, call.2 = msg
  unshifted : Unshifted peers final.visits
  pruned : final.network.mPeers = (peers.filter connected).map some

def Broadcasts (checked : Bool) (connected : Peer → Bool) (msg : NetMessage) (ignorePeer : Option Peer)
    (peers : List Peer) : Prop :=
  ∃ final, messageNeighbors checked connected (peersOf peers) msg ignorePeer = some final ∧
    Broadcast connected msg ignorePeer peers final

theorem calls_once {peers : List Peer} (distinct : peers.Nodup) (peer : Peer) :
    ((calls connected msg ignorePeer peers).map Prod.fst).count peer =
      if peer ∈ peers ∧ connected peer = true ∧ some peer ≠ ignorePeer then 1 else 0 := by
  have callees : (calls connected msg ignorePeer peers).map Prod.fst =
      peers.filter fun peer => connected peer && decide (some peer ≠ ignorePeer) := by
    simp [calls,Function.comp_def]
  rw [callees,(distinct.filter _).count]
  simp

theorem calls_same {peers : List Peer} : ∀ call ∈ calls connected msg ignorePeer peers, call.2 = msg := by
  intro call member
  obtain ⟨peer,_,rfl⟩ := List.mem_map.mp member
  rfl

-- Checked iterators bear no lost peer, plain ones only one that is the last.
theorem messageNeighbors_cases (checked : Bool) (connected : Peer → Bool) (msg : NetMessage)
    (ignorePeer : Option Peer) (peers : List Peer) :
    ((∀ peer ∈ if checked then peers else peers.dropLast, connected peer = true) ∧
      ∃ visits stale, Unshifted peers visits ∧ messageNeighbors checked connected (peersOf peers) msg ignorePeer =
        some ⟨⟨(peers.filter connected).map some,calls connected msg ignorePeer peers⟩,visits,stale⟩) ∨
    ((¬ ∀ peer ∈ if checked then peers else peers.dropLast, connected peer = true) ∧
      messageNeighbors checked connected (peersOf peers) msg ignorePeer = none) := by
  rcases connected_or_split connected peers with alive | ⟨good,lost,rest,rfl,alive,isLost⟩
  · obtain ⟨visits,unshifted,ran⟩ := messageNeighbors_connected checked msg ignorePeer alive
    refine .inl ⟨?_,visits,false,unshifted,?_⟩
    · intro peer member
      split at member
      · exact alive peer member
      · exact alive peer (List.dropLast_subset _ member)
    · rw [ran,List.filter_eq_self.mpr alive]
  · obtain ⟨visits,unshifted,ran⟩ := messageNeighbors_lost checked msg ignorePeer rest alive isLost
    by_cases plain : checked = false ∧ rest = []
    · obtain ⟨rfl,rfl⟩ := plain
      have silent : calls connected msg ignorePeer (good ++ [lost]) = calls connected msg ignorePeer good := by
        simp [calls,List.filter_append,isLost]
      have kept : (good ++ [lost]).filter connected = good := by
        simp [List.filter_append,isLost,List.filter_eq_self.mpr alive]
      refine .inl ⟨by simpa using alive,visits,true,unshifted,?_⟩
      rw [ran,if_pos ⟨rfl,rfl⟩,kept,silent]
    · refine .inr ⟨fun all => absurd (all lost ?_) (by simp [isLost]),by rw [ran,if_neg plain]⟩
      cases checked with
      | true => simp
      | false =>
          obtain ⟨next,rest,rfl⟩ := List.exists_cons_of_ne_nil fun empty => plain ⟨rfl,empty⟩
          simp

theorem broadcasts_iff (distinct : peers.Nodup) : Broadcasts checked connected msg ignorePeer peers ↔
    ∀ peer ∈ if checked then peers else peers.dropLast, connected peer = true := by
  rcases messageNeighbors_cases checked connected msg ignorePeer peers with
    ⟨alive,visits,stale,unshifted,ran⟩ | ⟨lost,ran⟩
  · exact iff_of_true ⟨_,ran,calls_once distinct,calls_same,unshifted,rfl⟩ alive
  · refine iff_of_false ?_ lost
    rintro ⟨final,returned,_⟩
    rw [ran] at returned
    cases returned

theorem broadcasts_pair :
    Broadcasts false (fun peer : Nat => peer == 0) ⟨⟨0,zeros 16,zeros 7,0⟩,.empty⟩ none [0,1] :=
  (broadcasts_iff (by decide)).mpr (by decide)

-- The second peer is never visited, and the third visit reads past the end.
theorem broadcasts_fails :
    ¬ Broadcasts false (fun peer : Nat => peer != 0) ⟨⟨0,zeros 16,zeros 7,0⟩,.empty⟩ none [0,1,2] := by
  rintro ⟨final,returned,_⟩
  cases returned

-- size_t to int
def Network.connectionCount (network : Network Peer) : Int32 := Int32.ofNat network.mPeers.length

omit [DecidableEq Peer] in
-- message resets its own copy of the pointer: of a lost peer nothing is erased.
theorem message_peers (connected : Peer → Bool) (peers : List Peer) (peer : Peer) (msg : NetMessage) :
    message connected (peersOf peers) (some peer) msg =
      some ⟨peers.map some,if connected peer = true then [(peer,msg)] else []⟩ := by
  have kept : (peers.map some).filter Option.isSome = peers.map some := by simp
  cases alive : connected peer <;>
    simp [message,validateConnection,Network.get,Network.reset,Network.eraseNull,Network.send,peersOf,alive,kept]

structure Messaged (connected : Peer → Bool) (peers : List Peer) (peer : Peer) (msg : NetMessage)
    (after : Network Peer) : Prop where
  alive : connected peer = true → after.mPeers = peers.map some ∧ after.sent = [(peer,msg)]
  lost : connected peer = false → after.sent = [] ∧ some peer ∉ after.mPeers ∧
    after.mPeers = (peers.filter fun other => decide (other ≠ peer)).map some ∧
    after.connectionCount = (peersOf peers).connectionCount - 1

def Prunes (connected : Peer → Bool) (peers : List Peer) (peer : Peer) (msg : NetMessage) : Prop :=
  ∃ after, message connected (peersOf peers) (some peer) msg = some after ∧ Messaged connected peers peer msg after

theorem prunes_iff (connected : Peer → Bool) (msg : NetMessage) (member : peer ∈ peers) :
    Prunes connected peers peer msg ↔ connected peer = true := by
  have messaged := message_peers connected peers peer msg
  constructor
  · rintro ⟨after,returned,facts⟩
    cases messaged.symm.trans returned
    by_contra isLost
    have absent := (facts.lost (Bool.eq_false_iff.mpr isLost)).2.1
    exact absent (List.mem_map_of_mem member)
  · intro alive
    refine ⟨_,messaged,fun _ => ⟨rfl,if_pos alive⟩,fun isLost => ?_⟩
    exact absurd (alive.symm.trans isLost) (by decide)

theorem prunes_first : Prunes (fun peer : Nat => peer == 0) [0,1] 0 ⟨⟨0,zeros 16,zeros 7,0⟩,.empty⟩ :=
  (prunes_iff _ _ (by decide)).mpr rfl

theorem prunes_fails : ¬ Prunes (fun peer : Nat => peer == 0) [0,1] 1 ⟨⟨0,zeros 16,zeros 7,0⟩,.empty⟩ := by
  rintro ⟨after,returned,facts⟩
  cases returned
  exact absurd (facts.lost rfl).2.1 (by decide)

end Keyser.NetInterface
