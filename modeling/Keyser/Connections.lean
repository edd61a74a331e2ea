import Keyser.PeerInfo
import Keyser.Runs

namespace Keyser.Connections
open PeerInfo

variable {Address : Type} {makeAddress : Hex.Text → Option Address}

-- `serial` counts the ids assigned before this one: history.
structure Peer (Address : Type) where
  id : UInt16
  serial : Nat
  endpoint : Address × UInt16
  isOpen : Bool
  deriving DecidableEq

def Peer.close (peer : Peer Address) : Peer Address := {peer with isOpen := false}

-- Inside io_context::run, or back from it and not joined.
inductive ContextThread where
  | running
  | returned
  deriving DecidableEq

-- The process is over when a joinable _contextThr has been assigned to (`terminated`) or an
-- exception has left a handler of the context's thread (`raised`). History: the ids `assigned`,
-- and whether the last of start, a successful connect and stop was not stop.
structure NetInterface (Address : Type) where
  selfEndpoint : Endpoint
  mPeers : List (Peer Address)
  idCounter : UInt16
  assigned : Nat
  acceptorOpen : Bool
  stopped : Bool
  accepting : Nat
  operations : Nat
  contextThr : Option ContextThread
  terminated : Bool
  raised : Bool
  serving : Bool
  deriving DecidableEq

def fresh (selfEndpoint : Endpoint) : NetInterface Address :=
  ⟨selfEndpoint,[],10000,0,true,false,0,0,none,false,false,false⟩

def NetInterface.assignId (s : NetInterface Address) : UInt16 × NetInterface Address :=
  (s.idCounter,{s with idCounter := s.idCounter + 1, assigned := s.assigned + 1})

def NetInterface.over (s : NetInterface Address) : Bool := s.terminated || s.raised

-- _contextThr = std::thread([this]() { _context.run(); });
def NetInterface.launch (s : NetInterface Address) : NetInterface Address :=
  match s.contextThr with
  | none => {s with contextThr := some .running}
  | some _ => {s with terminated := true}

def NetInterface.push (s : NetInterface Address) (id : UInt16) (serial : Nat) (endpoint : Address × UInt16) :
    NetInterface Address :=
  {s with mPeers := s.mPeers ++ [⟨id,serial,endpoint,true⟩]}

-- What the socket answers in Peer::connect: an error code, a remote that is gone again when
-- remote_endpoint is asked for it, or a connection with what remote_endpoint says of it.
inductive Dial (Address : Type) where
  | refused
  | gone
  | established (remote : Address × UInt16)
  deriving DecidableEq

def Dial.remote : Dial Address → Option (Address × UInt16)
  | .established remote => some remote
  | .refused | .gone => none

-- Where remote_endpoint throws, the read of the header has already been started.
def connect (makeAddress : Hex.Text → Option Address) (s : NetInterface Address) (endpoint : Endpoint)
    (dial : Dial Address) : Bool × NetInterface Address :=
  if !allowConnect s.selfEndpoint endpoint then (false,s)
  else match makeAddress endpoint.address with
    | none => (false,s)
    | some _ =>
      let serial := s.assigned
      let (id,s) := s.assignId
      match dial with
      | .refused => (false,s)
      | .gone => (false,{s with operations := s.operations + 1})
      | .established remote =>
        let s := {s with operations := s.operations + 1}
        let s := if s.contextThr.isSome then s else s.launch
        (true,{s.push id serial remote with serving := true})

def start (s : NetInterface Address) : Bool × NetInterface Address :=
  let s := {s with accepting := s.accepting + 1}
  (false,{s.launch with serving := true})

-- The join comes to its end: a stopped context lets its thread go.
def stop (s : NetInterface Address) : NetInterface Address :=
  {s with acceptorOpen := false, stopped := true, contextThr := none, serving := false}

-- In the handler of async_accept nothing catches what remote_endpoint throws.
inductive Accepted (Address : Type) where
  | failed
  | gone
  | inbound (endpoint : Address × UInt16)

def onAccept (s : NetInterface Address) : Accepted Address → NetInterface Address
  | .failed => s
  | .gone => {s with raised := true}
  | .inbound endpoint =>
    let serial := s.assigned
    let (id,s) := s.assignId
    {s with operations := s.operations + 1}.push id serial endpoint

-- A closed acceptor gives its handlers errors only.
def NetInterface.offers (s : NetInterface Address) : Accepted Address → Bool
  | .failed => true
  | .gone | .inbound _ => s.acceptorOpen

-- `more` operations have been started in the handler. A context that is out of work stops.
def finish (s : NetInterface Address) (more : Nat) : NetInterface Address :=
  let s := {s with operations := s.operations - 1 + more}
  {s with stopped := decide (s.accepting + s.operations = 0)}

inductive Event (Address : Type) where
  | connect (endpoint : Endpoint) (dial : Dial Address)
  | start
  | stop
  | post
  | accept (accepted : Accepted Address)
  | finish (more : Nat)
  | raised
  | returned
  | disconnect (position : Nat)
  | validate (position : Nat)

def NetInterface.runs (s : NetInterface Address) : Bool := s.contextThr = some .running && !s.stopped

def step (makeAddress : Hex.Text → Option Address) (s : NetInterface Address) (event : Event Address) :
    Option (NetInterface Address) :=
  if s.over then none
  else match event with
    | .connect endpoint dial => some (connect makeAddress s endpoint dial).2
    | .start => some (start s).2
    | .stop => some (stop s)
    | .post => some {s with operations := s.operations + 1}
    | .accept accepted =>
      if s.runs && decide (0 < s.accepting) && s.offers accepted then some (onAccept s accepted) else none
    | .finish more => if s.runs && decide (0 < s.operations) then some (finish s more) else none
    | .raised => if s.runs && decide (0 < s.operations) then some {s with raised := true} else none
    | .returned =>
      if s.contextThr = some .running ∧ s.stopped = true then some {s with contextThr := some .returned} else none
    | .disconnect position => some {s with mPeers := s.mPeers.modify position Peer.close}
    | .validate position =>
      match s.mPeers[position]? with
      | none => none
      | some peer => some (if peer.isOpen then s else {s with mPeers := s.mPeers.eraseIdx position})

inductive Taken (makeAddress : Hex.Text → Option Address) (s : NetInterface Address) :
    Event Address → NetInterface Address → Prop where
  | connect : Taken makeAddress s (.connect endpoint dial) (connect makeAddress s endpoint dial).2
  | start : Taken makeAddress s .start (start s).2
  | stop : Taken makeAddress s .stop (stop s)
  | post : Taken makeAddress s .post {s with operations := s.operations + 1}
  | accept (runs : s.runs = true) : Taken makeAddress s (.accept accepted) (onAccept s accepted)
  | finish (runs : s.runs = true) (working : 0 < s.operations) : Taken makeAddress s (.finish more) (finish s more)
  | raised (runs : s.runs = true) : Taken makeAddress s .raised {s with raised := true}
  | returned (running : s.contextThr = some .running) (stopped : s.stopped = true) :
      Taken makeAddress s .returned {s with contextThr := some .returned}
  | disconnect : Taken makeAddress s (.disconnect position)
      {s with mPeers := s.mPeers.modify position Peer.close}
  | kept (found : s.mPeers[position]? = some peer) (alive : peer.isOpen = true) :
      Taken makeAddress s (.validate position) s
  | pruned (found : s.mPeers[position]? = some peer) (lost : peer.isOpen = false) :
      Taken makeAddress s (.validate position) {s with mPeers := s.mPeers.eraseIdx position}

theorem step_taken {s next : NetInterface Address} {event : Event Address}
    (stepped : step makeAddress s event = some next) : s.over = false ∧ Taken makeAddress s event next := by
  unfold step at stepped
  split at stepped
  · cases stepped
  · rename_i alive
    refine ⟨Bool.eq_false_iff.mpr alive,?_⟩
    cases event with
    | connect endpoint dial => cases stepped; exact .connect
    | start => cases stepped; exact .start
    | stop => cases stepped; exact .stop
    | post => cases stepped; exact .post
    | accept accepted =>
        simp only at stepped
        split at stepped <;> cases stepped
        rename_i guard
        simp only [Bool.and_eq_true] at guard
        exact .accept guard.1.1
    | finish more =>
        simp only at stepped
        split at stepped <;> cases stepped
        rename_i guard
        simp only [Bool.and_eq_true,decide_eq_true_eq] at guard
        exact .finish guard.1 guard.2
    | raised =>
        simp only at stepped
        split at stepped <;> cases stepped
        rename_i guard
        simp only [Bool.and_eq_true] at guard
        exact .raised guard.1
    | returned =>
        simp only at stepped
        split at stepped <;> cases stepped
        rename_i guard
        exact .returned guard.1 guard.2
    | disconnect position => cases stepped; exact .disconnect
    | validate position =>
        simp only at stepped
        split at stepped <;> cases stepped
        rename_i peer found
        split
        · rename_i isOpen
          exact .kept found isOpen
        · rename_i isOpen
          exact .pruned found (Bool.eq_false_iff.mpr isOpen)

variable {endpoint : Endpoint} {dial : Dial Address}

theorem over_terminated {s : NetInterface Address} (alive : s.over = false) : s.terminated = false :=
  (Bool.or_eq_false_iff.mp alive).1

def Connects (makeAddress : Hex.Text → Option Address) (s : NetInterface Address) (endpoint : Endpoint)
    (dial : Dial Address) : Prop :=
  allowConnect s.selfEndpoint endpoint = true ∧ (makeAddress endpoint.address).isSome = true ∧
    dial.remote.isSome = true

instance (s : NetInterface Address) (endpoint : Endpoint) (dial : Dial Address) :
    Decidable (Connects makeAddress s endpoint dial) :=
  inferInstanceAs (Decidable (_ ∧ _ ∧ _))

theorem connect_connects {s : NetInterface Address} (connects : Connects makeAddress s endpoint dial) :
    ∃ remote, dial.remote = some remote ∧ connect makeAddress s endpoint dial =
      (true,{s with mPeers := s.mPeers ++ [⟨s.idCounter,s.assigned,remote,true⟩],
                    idCounter := s.idCounter + 1, assigned := s.assigned + 1, operations := s.operations + 1,
                    contextThr := some (s.contextThr.getD .running), serving := true}) := by
  obtain ⟨allowed,reads,answers⟩ := connects
  obtain ⟨address,isAddress⟩ := Option.isSome_iff_exists.mp reads
  cases dial with
  | refused | gone => cases answers
  | established remote =>
      refine ⟨remote,rfl,?_⟩
      obtain ⟨_,_,_,_,_,_,_,_,contextThr,_,_,_⟩ := s
      cases contextThr <;> simp only [connect,allowed,isAddress,Bool.not_true,Bool.false_eq_true,if_false] <;> rfl

theorem connect_fails {s : NetInterface Address} (fails : ¬ Connects makeAddress s endpoint dial) :
    ∃ idCounter assigned operations, connect makeAddress s endpoint dial =
      (false,{s with idCounter := idCounter, assigned := assigned, operations := operations}) ∧
      (idCounter = s.idCounter ∧ assigned = s.assigned ∨
        idCounter = s.idCounter + 1 ∧ assigned = s.assigned + 1) := by
  unfold connect
  cases allowed : allowConnect s.selfEndpoint endpoint with
  | false => exact ⟨s.idCounter,s.assigned,s.operations,rfl,.inl ⟨rfl,rfl⟩⟩
  | true =>
      cases reads : makeAddress endpoint.address with
      | none => exact ⟨s.idCounter,s.assigned,s.operations,rfl,.inl ⟨rfl,rfl⟩⟩
      | some address =>
          cases dial with
          | refused => exact ⟨s.idCounter + 1,s.assigned + 1,s.operations,rfl,.inr ⟨rfl,rfl⟩⟩
          | gone => exact ⟨s.idCounter + 1,s.assigned + 1,s.operations + 1,rfl,.inr ⟨rfl,rfl⟩⟩
          | established remote => exact absurd ⟨allowed,by rw [reads]; rfl,rfl⟩ fails

theorem connect_cases (makeAddress : Hex.Text → Option Address) (s : NetInterface Address) (endpoint : Endpoint)
    (dial : Dial Address) :
    (Connects makeAddress s endpoint dial ∧ ∃ remote, dial.remote = some remote ∧
      connect makeAddress s endpoint dial =
        (true,{s with mPeers := s.mPeers ++ [⟨s.idCounter,s.assigned,remote,true⟩],
                      idCounter := s.idCounter + 1, assigned := s.assigned + 1, operations := s.operations + 1,
                      contextThr := some (s.contextThr.getD .running), serving := true})) ∨
    (¬ Connects makeAddress s endpoint dial ∧ ∃ idCounter assigned operations,
      connect makeAddress s endpoint dial =
        (false,{s with idCounter := idCounter, assigned := assigned, operations := operations}) ∧
      (idCounter = s.idCounter ∧ assigned = s.assigned ∨
        idCounter = s.idCounter + 1 ∧ assigned = s.assigned + 1)) := by
  by_cases connects : Connects makeAddress s endpoint dial
  · exact .inl ⟨connects,connect_connects connects⟩
  · exact .inr ⟨connects,connect_fails connects⟩

theorem start_frame (s : NetInterface Address) : ∃ contextThr terminated, (start s).2 =
    {s with accepting := s.accepting + 1, contextThr := contextThr, terminated := terminated, serving := true} := by
  cases thread : s.contextThr with
  | none => exact ⟨some .running,s.terminated,by simp [start,NetInterface.launch,thread]⟩
  | some thread' => exact ⟨some thread',true,by simp [start,NetInterface.launch,thread]⟩

-- make_address as far as a run on fixed inputs asks it.
def unknown : Endpoint := ⟨"Unknown".toList,6000⟩
def loopback : Quad := ⟨127,0,0,1⟩
def loopbackOnly (text : Hex.Text) : Option Quad := if text = loopback.text then some loopback else none

end Keyser.Connections
