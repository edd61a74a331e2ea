import Keyser.Connections
import Mathlib.Data.List.Infix
import Mathlib.Data.List.Nodup

namespace Keyser.PeerManagement
open PeerInfo Connections

variable {Address : Type} {makeAddress : Hex.Text → Option Address}

-- The listening nodes in the order of iteration, with what the socket answers for each.
abbrev Nodes (Address : Type) := List (Endpoint × Dial Address)

-- size_t to int
def connectionCount (s : NetInterface Address) : Int32 := Int32.ofNat s.mPeers.length

def managePeers (makeAddress : Hex.Text → Option Address) (s : NetInterface Address) :
    Nodes Address → NetInterface Address
  | [] => s
  | (endpoint,dial) :: nodes =>
    if 3 ≤ connectionCount s then s
    else managePeers makeAddress (connect makeAddress s endpoint dial).2 nodes

def manageCalls (makeAddress : Hex.Text → Option Address) (s : NetInterface Address) (calls : List (Nodes Address)) :
    NetInterface Address :=
  calls.foldl (managePeers makeAddress) s

-- The remote endpoint that the socket of an attempt has, if it is connected.
def answer (makeAddress : Hex.Text → Option Address) (selfEndpoint : Endpoint) (node : Endpoint × Dial Address) :
    Option (Address × UInt16) :=
  if allowConnect selfEndpoint node.1 = true ∧ (makeAddress node.1.address).isSome = true then node.2.remote else none

def room (s : NetInterface Address) : Nat := (3 - (connectionCount s).toInt).toNat

theorem connectionCount_toInt (s : NetInterface Address) :
    (connectionCount s).toInt = Int.bmod s.mPeers.length (2^32) := Int32.toInt_ofNat'

theorem three_le_iff (s : NetInterface Address) : 3 ≤ connectionCount s ↔ room s = 0 := by
  have three : (3 : Int32).toInt = 3 := by decide
  rw [Int32.le_iff_toInt_le,three,room]
  omega

-- A count below three has no wrap in reach.
theorem connectionCount_succ {s next : NetInterface Address} (below : ¬ 3 ≤ connectionCount s)
    (added : next.mPeers = s.mPeers ++ [peer]) :
    (connectionCount next).toInt = (connectionCount s).toInt + 1 := by
  have three : (3 : Int32).toInt = 3 := by decide
  rw [Int32.le_iff_toInt_le,three] at below
  rw [connectionCount_toInt] at below
  rw [connectionCount_toInt,connectionCount_toInt,added,List.length_append,List.length_singleton]
  simp only [Int.bmod] at below ⊢
  omega

theorem managePeers_full {s : NetInterface Address} (full : 3 ≤ connectionCount s) (nodes : Nodes Address) :
    managePeers makeAddress s nodes = s := by
  cases nodes with
  | nil => rfl
  | cons node nodes => rw [managePeers,if_pos full]

theorem managePeers_append (s : NetInterface Address) (first second : Nodes Address) :
    managePeers makeAddress s (first ++ second) =
      managePeers makeAddress (managePeers makeAddress s first) second := by
  induction first generalizing s with
  | nil => rfl
  | cons node first ih =>
      by_cases full : 3 ≤ connectionCount s
      · rw [managePeers_full full,managePeers_full full,managePeers_full full]
      · rw [List.cons_append,managePeers,if_neg full,ih,managePeers,if_neg full]

theorem manageCalls_flatten (s : NetInterface Address) (calls : List (Nodes Address)) :
    manageCalls makeAddress s calls = managePeers makeAddress s calls.flatten := by
  induction calls generalizing s with
  | nil => rfl
  | cons nodes calls ih =>
      rw [List.flatten_cons,managePeers_append,← ih]
      rfl

theorem connect_self (s : NetInterface Address) (endpoint : Endpoint) (dial : Dial Address) :
    (connect makeAddress s endpoint dial).2.selfEndpoint = s.selfEndpoint := by
  rcases connect_cases makeAddress s endpoint dial with
    ⟨connects,remote,_,connected⟩ | ⟨connects,idCounter,assigned,operations,failed,_⟩
  · rw [connected]
  · rw [failed]

-- An endpoint that answers becomes the last peer.
theorem connect_answered {s : NetInterface Address}
    (answered : answer makeAddress s.selfEndpoint (endpoint,dial) = some reached) :
    ∃ peer : Peer Address, peer.endpoint = reached ∧
      (connect makeAddress s endpoint dial).2.mPeers = s.mPeers ++ [peer] := by
  unfold answer at answered
  split at answered
  · rename_i goes
    have connects : Connects makeAddress s endpoint dial := ⟨goes.1,goes.2,Option.isSome_iff_exists.mpr ⟨_,answered⟩⟩
    obtain ⟨remote,isRemote,connected⟩ := connect_connects connects
    cases isRemote.symm.trans answered
    exact ⟨_,rfl,by rw [connected]⟩
  · cases answered

theorem connect_unanswered {s : NetInterface Address}
    (silent : answer makeAddress s.selfEndpoint (endpoint,dial) = none) :
    (connect makeAddress s endpoint dial).2.mPeers = s.mPeers := by
  rcases connect_cases makeAddress s endpoint dial with
    ⟨connects,remote,isRemote,_⟩ | ⟨connects,idCounter,assigned,operations,failed,_⟩
  · rw [answer,if_pos ⟨connects.1,connects.2.1⟩,isRemote] at silent
    cases silent
  · rw [failed]

theorem managePeers_opens (s : NetInterface Address) (nodes : Nodes Address) :
    (managePeers makeAddress s nodes).mPeers.map Peer.endpoint =
      s.mPeers.map Peer.endpoint ++ (nodes.filterMap (answer makeAddress s.selfEndpoint)).take (room s) := by
  induction nodes generalizing s with
  | nil => simp [managePeers]
  | cons node nodes ih =>
      obtain ⟨endpoint,dial⟩ := node
      rw [managePeers]
      by_cases full : 3 ≤ connectionCount s
      · rw [if_pos full,(three_le_iff s).mp full,List.take_zero,List.append_nil]
      · have free : room s ≠ 0 := fun none => full ((three_le_iff s).mpr none)
        rw [if_neg full,ih,connect_self]
        cases answered : answer makeAddress s.selfEndpoint (endpoint,dial) with
        | none =>
            have same := connect_unanswered answered
            rw [List.filterMap_cons_none answered,room,connectionCount,same]
            rfl
        | some reached =>
            obtain ⟨peer,isReached,added⟩ := connect_answered answered
            have count := connectionCount_succ full added
            have less : room (connect makeAddress s endpoint dial).2 = room s - 1 := by
              simp only [room,count]
              omega
            obtain ⟨left,isLeft⟩ := Nat.exists_eq_succ_of_ne_zero free
            rw [List.filterMap_cons_some answered,less,isLeft,added,← isReached]
            simp

theorem managePeers_bounded (s : NetInterface Address) (nodes : Nodes Address) :
    (connectionCount (managePeers makeAddress s nodes)).toInt ≤ max 3 (connectionCount s).toInt := by
  induction nodes generalizing s with
  | nil => exact Int.le_max_right _ _
  | cons node nodes ih =>
      obtain ⟨endpoint,dial⟩ := node
      rw [managePeers]
      by_cases full : 3 ≤ connectionCount s
      · rw [if_pos full]
        exact Int.le_max_right _ _
      · have three : (3 : Int32).toInt = 3 := by decide
        have later := ih (connect makeAddress s endpoint dial).2
        rw [if_neg full]
        cases answered : answer makeAddress s.selfEndpoint (endpoint,dial) with
        | none =>
            have same := connect_unanswered answered
            rwa [connectionCount,connectionCount,same] at later
        | some reached =>
            obtain ⟨peer,_,added⟩ := connect_answered answered
            have count := connectionCount_succ full added
            rw [Int32.le_iff_toInt_le,three] at full
            omega

-- The endpoints the calls reach while there is room, in their order.
def opened (makeAddress : Hex.Text → Option Address) (s : NetInterface Address) (calls : List (Nodes Address)) :
    List (Address × UInt16) :=
  (calls.flatten.filterMap (answer makeAddress s.selfEndpoint)).take (room s)

structure Kept (initial s : NetInterface Address) : Prop where
  bounded : (connectionCount s).toInt ≤ max 3 (connectionCount initial).toInt
  distinct : (s.mPeers.map Peer.endpoint).Nodup

-- Within each call, after each of its attempts.
def Managed (makeAddress : Hex.Text → Option Address) (s : NetInterface Address)
    (calls : List (Nodes Address)) : Prop :=
  ∀ earlier call nodes, earlier ++ [call] <+: calls → nodes <+: call →
    Kept s (managePeers makeAddress (manageCalls makeAddress s earlier) nodes)

theorem within_opens {s : NetInterface Address} (before : earlier ++ [call] <+: calls) (within : nodes <+: call) :
    (managePeers makeAddress (manageCalls makeAddress s earlier) nodes).mPeers.map Peer.endpoint <+:
      s.mPeers.map Peer.endpoint ++ opened makeAddress s calls := by
  have tried : earlier.flatten ++ nodes <+: calls.flatten := by
    obtain ⟨later,rfl⟩ := before
    obtain ⟨rest,rfl⟩ := within
    exact ⟨rest ++ later.flatten,by simp⟩
  rw [manageCalls_flatten,← managePeers_append,managePeers_opens]
  exact (List.prefix_append_right_inj _).mpr (List.IsPrefix.take (tried.filterMap _) _)

theorem managed_iff (makeAddress : Hex.Text → Option Address) (s : NetInterface Address) (calls : List (Nodes Address))
    (distinct : (s.mPeers.map Peer.endpoint).Nodup) : Managed makeAddress s calls ↔
      (opened makeAddress s calls).Nodup ∧
        ∀ endpoint ∈ opened makeAddress s calls, endpoint ∉ s.mPeers.map Peer.endpoint := by
  have separate : (s.mPeers.map Peer.endpoint ++ opened makeAddress s calls).Nodup ↔
      (opened makeAddress s calls).Nodup ∧
        ∀ endpoint ∈ opened makeAddress s calls, endpoint ∉ s.mPeers.map Peer.endpoint := by
    rw [List.nodup_append]
    constructor
    · rintro ⟨_,once,apart⟩
      exact ⟨once,fun endpoint new old => apart endpoint old endpoint new rfl⟩
    · rintro ⟨once,apart⟩
      exact ⟨distinct,once,fun old isOld new isNew same => apart new isNew (same ▸ isOld)⟩
  rw [← separate]
  constructor
  · intro managed
    rcases List.eq_nil_or_concat calls with rfl | ⟨earlier,call,rfl⟩
    · simpa [opened] using distinct
    · have last := (managed earlier call call (by simp) List.prefix_rfl).distinct
      rw [manageCalls_flatten,← managePeers_append,managePeers_opens] at last
      simpa [opened] using last
  · intro once earlier call nodes before within
    refine ⟨?_,once.sublist (within_opens before within).sublist⟩
    rw [manageCalls_flatten,← managePeers_append]
    exact managePeers_bounded s _

theorem managed_two : Managed loopbackOnly (fresh unknown)
    [[(loopback.endpoint 6001,.established (loopback,6001)),(loopback.endpoint 6002,.refused)],
     [(loopback.endpoint 6003,.established (loopback,6003))]] :=
  (managed_iff loopbackOnly (fresh unknown) _ List.nodup_nil).mpr (by decide +kernel)

-- The one listening node is dialled in each call.
theorem managed_fails : ¬ Managed loopbackOnly (fresh unknown)
    [[(loopback.endpoint 6001,.established (loopback,6001))],
     [(loopback.endpoint 6001,.established (loopback,6001))]] := by
  intro managed
  have kept := managed [[(loopback.endpoint 6001,.established (loopback,6001))]]
    [(loopback.endpoint 6001,.established (loopback,6001))] [(loopback.endpoint 6001,.established (loopback,6001))]
    List.prefix_rfl List.prefix_rfl
  exact absurd kept.distinct (by decide +kernel)

end Keyser.PeerManagement
