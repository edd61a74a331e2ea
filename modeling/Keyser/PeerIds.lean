import Keyser.Connections
import Mathlib.Data.List.Nodup

namespace Keyser.PeerIds
open PeerInfo Connections Runs

variable {Address : Type} {makeAddress : Hex.Text → Option Address}

def Distinct (s : NetInterface Address) : Prop := (s.mPeers.map Peer.id).Nodup

-- Whether the step puts a peer into mPeers.
def Adds (makeAddress : Hex.Text → Option Address) (s : NetInterface Address) : Event Address → Prop
  | .connect endpoint dial => Connects makeAddress s endpoint dial
  | .accept (.inbound _) => True
  | _ => False

-- No peer of mPeers got its id a multiple of 65536 assignments ago when another is added.
def Spaced (makeAddress : Hex.Text → Option Address) (s : NetInterface Address) (event : Event Address) : Prop :=
  Adds makeAddress s event → ∀ peer ∈ s.mPeers, ¬ 65536 ∣ s.assigned - peer.serial

def numbered (serial : Nat) : UInt16 := UInt16.ofNat (10000 + serial)

def key (peer : Peer Address) : UInt16 × Nat := (peer.id,peer.serial)

structure Invariant (s : NetInterface Address) : Prop where
  counter : s.idCounter = numbered s.assigned
  peers : ∀ known ∈ s.mPeers.map key, known.1 = numbered known.2 ∧ known.2 < s.assigned

theorem fresh_invariant (selfEndpoint : Endpoint) : Invariant (fresh selfEndpoint : NetInterface Address) :=
  ⟨rfl,nofun⟩

theorem numbered_succ (serial : Nat) : numbered (serial + 1) = numbered serial + 1 := by
  simp [numbered,← Nat.add_assoc,UInt16.ofNat_add]

theorem numbered_eq_iff (earlier : one < two) : numbered one = numbered two ↔ 65536 ∣ two - one := by
  simp only [numbered,← UInt16.toNat_inj,UInt16.toNat_ofNat']
  omega

theorem added_distinct {s : NetInterface Address} (inv : Invariant s) (distinct : Distinct s)
    (endpoint : Address × UInt16) :
    ((s.mPeers ++ [Peer.mk s.idCounter s.assigned endpoint true]).map Peer.id).Nodup ↔
      ∀ peer ∈ s.mPeers, ¬ 65536 ∣ s.assigned - peer.serial := by
  have apart (peer : Peer Address) (member : peer ∈ s.mPeers) :
      peer.id = s.idCounter ↔ 65536 ∣ s.assigned - peer.serial := by
    obtain ⟨isId,earlier⟩ := inv.peers (key peer) (List.mem_map_of_mem member)
    change peer.id = numbered peer.serial at isId
    rw [isId,inv.counter]
    exact numbered_eq_iff earlier
  rw [List.map_append,List.nodup_append]
  constructor
  · rintro ⟨_,_,disjoint⟩ peer member collides
    exact disjoint peer.id (List.mem_map_of_mem member) s.idCounter (by simp) ((apart peer member).mpr collides)
  · intro spaced
    refine ⟨distinct,List.nodup_singleton _,?_⟩
    intro id member other new same
    obtain ⟨peer,inPeers,rfl⟩ := List.mem_map.mp member
    simp only [List.map_cons,List.map_nil,List.mem_singleton] at new
    exact spaced peer inPeers ((apart peer inPeers).mp (same.trans new))

theorem added_invariant {s : NetInterface Address} (inv : Invariant s) (endpoint : Address × UInt16) :
    ∀ known ∈ (s.mPeers ++ [Peer.mk s.idCounter s.assigned endpoint true]).map key,
      known.1 = numbered known.2 ∧ known.2 < s.assigned + 1 := by
  intro new member
  rw [List.map_append] at member
  rcases List.mem_append.mp member with old | added
  · obtain ⟨isId,earlier⟩ := inv.peers new old
    exact ⟨isId,by omega⟩
  · simp only [List.map_cons,List.map_nil,List.mem_singleton] at added
    subst added
    exact ⟨inv.counter,Nat.lt_succ_self _⟩

theorem modify_map {f : α → α} {g : α → β} (same : ∀ a, g (f a) = g a) (items : List α) (position : Nat) :
    (items.modify position f).map g = items.map g := by
  induction items generalizing position with
  | nil => simp
  | cons item rest ih => cases position <;> simp [same,ih]

theorem step_exact (s : NetInterface Address) (event : Event Address) (next : NetInterface Address)
    (inv : Invariant s) (distinct : Distinct s) (stepped : step makeAddress s event = some next) :
    Distinct next ↔ Spaced makeAddress s event := by
  cases (step_taken stepped).2 with
  | @connect endpoint dial =>
      rcases connect_cases makeAddress s endpoint dial with
        ⟨connects,remote,_,connected⟩ | ⟨connects,idCounter,assigned,operations,failed,_⟩
      · rw [connected]
        exact (added_distinct inv distinct _).trans ⟨fun spaced _ => spaced,fun spaced => spaced connects⟩
      · rw [failed]
        exact iff_of_true distinct fun adds => absurd adds connects
  | @accept accepted =>
      cases accepted with
      | failed | gone => exact iff_of_true distinct nofun
      | inbound endpoint =>
          exact (added_distinct inv distinct _).trans ⟨fun spaced _ => spaced,fun spaced => spaced trivial⟩
  | @disconnect position =>
      have same := modify_map (f := Peer.close) (g := Peer.id) (fun _ => rfl) s.mPeers position
      exact iff_of_true (show List.Nodup _ from same ▸ distinct) nofun
  | pruned => exact iff_of_true (distinct.sublist ((List.eraseIdx_sublist _ _).map _)) nofun
  | start =>
      obtain ⟨_,_,started⟩ := start_frame s
      rw [started]
      exact iff_of_true distinct nofun
  | stop | post | finish | raised | returned | kept => exact iff_of_true distinct nofun

theorem step_invariant {s next : NetInterface Address} (inv : Invariant s)
    (stepped : step makeAddress s event = some next) : Invariant next := by
  cases (step_taken stepped).2 with
  | @connect endpoint dial =>
      rcases connect_cases makeAddress s endpoint dial with
        ⟨connects,remote,_,connected⟩ | ⟨connects,idCounter,assigned,operations,failed,ids⟩
      · rw [connected]
        exact ⟨by rw [numbered_succ,inv.counter],added_invariant inv _⟩
      · rw [failed]
        rcases ids with ⟨rfl,rfl⟩ | ⟨rfl,rfl⟩
        · exact ⟨inv.counter,inv.peers⟩
        · refine ⟨by rw [numbered_succ,inv.counter],fun peer member => ?_⟩
          obtain ⟨isId,earlier⟩ := inv.peers peer member
          exact ⟨isId,Nat.lt_succ_of_lt earlier⟩
  | @accept accepted =>
      cases accepted with
      | failed => exact inv
      | gone => exact ⟨inv.counter,inv.peers⟩
      | inbound endpoint => exact ⟨(inv.counter ▸ numbered_succ s.assigned).symm,added_invariant inv _⟩
  | @disconnect position =>
      have same := modify_map (f := Peer.close) (g := key) (fun _ => rfl) s.mPeers position
      exact ⟨inv.counter,same ▸ inv.peers⟩
  | pruned =>
      exact ⟨inv.counter,fun peer member => inv.peers peer (((List.eraseIdx_sublist _ _).map key).subset member)⟩
  | start =>
      obtain ⟨_,_,started⟩ := start_frame s
      rw [started]
      exact ⟨inv.counter,inv.peers⟩
  | stop | post | finish | raised | returned | kept => exact ⟨inv.counter,inv.peers⟩

theorem distinct_iff (makeAddress : Hex.Text → Option Address) (selfEndpoint : Endpoint)
    (events : List (Event Address)) :
    Throughout (step makeAddress) Distinct (fresh selfEndpoint) events ↔
      Along (step makeAddress) (Spaced makeAddress) (fresh selfEndpoint) events :=
  throughout_iff step_exact (fun _ _ _ inv _ stepped _ => step_invariant inv stepped) (fresh_invariant selfEndpoint)
    List.nodup_nil

-- Attempts that a remote refuses spend one id each.
theorem refused_run {s : NetInterface Address} (alive : s.over = false)
    (allowed : allowConnect s.selfEndpoint endpoint = true) (reads : makeAddress endpoint.address = some address)
    (count : Nat) : run (step makeAddress) s (List.replicate count (.connect endpoint .refused)) =
      some {s with idCounter := s.idCounter + UInt16.ofNat count, assigned := s.assigned + count} := by
  induction count generalizing s with
  | zero => simp [run]
  | succ count ih =>
      have first : step makeAddress s (.connect endpoint .refused) =
          some {s with idCounter := s.idCounter + 1, assigned := s.assigned + 1} := by
        simp [step,alive,connect,allowed,reads,NetInterface.assignId]
      have ids : s.idCounter + 1 + UInt16.ofNat count = s.idCounter + UInt16.ofNat (count + 1) := by
        rw [UInt16.ofNat_add,UInt16.add_assoc,UInt16.add_comm 1]
        rfl
      rw [List.replicate_succ,run,first,Option.bind_some,
        ih (s := {s with idCounter := s.idCounter + 1, assigned := s.assigned + 1}) alive allowed]
      simp only [ids,Nat.add_assoc,Nat.add_comm 1 count]

-- Between two connections 65535 attempts fail: the counter is where it was.
theorem distinct_fails : ¬ Throughout (step loopbackOnly) Distinct (fresh unknown)
    ([.connect (loopback.endpoint 6001) (.established (loopback,6001))] ++
      List.replicate 65535 (.connect (loopback.endpoint 6002) .refused) ++
      [.connect (loopback.endpoint 6003) (.established (loopback,6003))]) := by
  intro throughout
  have ran := throughout _ _ (List.prefix_refl _) (by
    rw [run_append,run_append]
    rw [show run (step loopbackOnly) (fresh unknown)
      [.connect (loopback.endpoint 6001) (.established (loopback,6001))] = some _ from rfl]
    rw [Option.bind_some,refused_run rfl (by decide +kernel)
      (show loopbackOnly (loopback.endpoint 6002).address = some loopback by decide +kernel)]
    rfl)
  have repeated : List.Nodup [(10000 : UInt16),10000] := ran
  exact absurd repeated (by decide)

end Keyser.PeerIds
