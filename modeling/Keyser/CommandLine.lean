import Keyser.Connections
import Keyser.NetInterface
import Keyser.Tokenizer
import Mathlib.Data.List.ReduceOption

namespace Keyser.CommandLine
open Framing Hex MainMenu Tokenizer

variable {Address : Type}

-- What a command can change: the menu, the network and the flag that the menu's loop tests.
structure Program (Address : Type) where
  menu : Menu
  network : Connections.NetInterface Address
  mShutdown : Bool
  alive : network.over = false

-- start up to its entry in the log. A thread assigned to a joinable _contextThr ends the process.
def Program.launch (s : Program Address) : Option (Program Address) :=
  let network := (Connections.start s.network).2
  if alive : network.over = false then some {s with network := network, alive := alive} else none

def Program.started (s : Program Address) : Program Address :=
  let started := "[SERVER] Started on port ".toList ++ PeerInfo.decimal s.network.selfEndpoint.port.toNat
  {s with menu := s.menu.log started}

def Program.start (s : Program Address) : Option (Program Address) := s.launch.map Program.started

theorem launch_returns (s : Program Address) : (∃ next, s.launch = some next) ↔ s.network.contextThr = none := by
  have gone : (Connections.start s.network).2.over = s.network.contextThr.isSome := by
    obtain ⟨quiet,caught⟩ := Bool.or_eq_false_iff.mp s.alive
    cases thread : s.network.contextThr <;>
      simp [Connections.start,Connections.NetInterface.launch,Connections.NetInterface.over,thread,quiet,caught]
  unfold Program.launch
  cases thread : s.network.contextThr with
  | none => exact iff_of_true ⟨_,dif_pos (by rw [gone,thread]; rfl)⟩ rfl
  | some joinable =>
      refine iff_of_false ?_ (by simp)
      rintro ⟨next,returned⟩
      rw [dif_neg (by simp [gone,thread])] at returned
      cases returned

theorem start_returns (s : Program Address) : (∃ next, s.start = some next) ↔ s.network.contextThr = none := by
  rw [← launch_returns]
  simp [Program.start]

variable {checked : Bool} {s : Program Address} {text : Text}

structure Handled (checked : Bool) (s : Program Address) (text : Text) : Prop where
  token : ¬ Blank text
  ping : (parseCmd text).head? = some "/ping".toList →
    ∀ peer ∈ if checked then s.network.mPeers else s.network.mPeers.dropLast, peer.isOpen = true
  server : (parseCmd text).head? = some "/startserver".toList → s.network.contextThr = none

theorem handled_iff (first : (parseCmd text).head? = some cmd) : Handled checked s text ↔
    (cmd = "/ping".toList → ∀ peer ∈ if checked then s.network.mPeers else s.network.mPeers.dropLast,
      peer.isOpen = true) ∧ (cmd = "/startserver".toList → s.network.contextThr = none) := by
  constructor
  · rintro ⟨_,ping,server⟩
    rw [first] at ping server
    exact ⟨fun same => ping (congrArg some same),fun same => server (congrArg some same)⟩
  · rintro ⟨ping,server⟩
    refine ⟨fun blank => by simp [parseCmd_nil_iff.mpr blank] at first,?_,?_⟩ <;> rw [first] <;> intro same
    · exact ping (Option.some.inj same)
    · exact server (Option.some.inj same)

theorem handleInput_token (menu : Menu) (nonempty : text ≠ []) (first : (parseCmd text).head? = some cmd) :
    ∃ after request, MainMenu.handleInput menu text = some (after,request) ∧
      (request = some .ping ↔ cmd = "/ping".toList) ∧ (request = some .startServer ↔ cmd = "/startserver".toList) := by
  unfold MainMenu.handleInput
  rw [if_neg (by simpa using nonempty),first,Option.map_some]
  split_ifs with help log connections ping server shutdown
  · subst help; exact ⟨_,_,rfl,by decide⟩
  · subst log; exact ⟨_,_,rfl,by decide⟩
  · subst connections; exact ⟨_,_,rfl,by decide⟩
  · subst ping; exact ⟨_,_,rfl,by decide⟩
  · subst server; exact ⟨_,_,rfl,by decide⟩
  · subst shutdown; exact ⟨_,_,rfl,by decide⟩
  · exact ⟨_,_,rfl,iff_of_false nofun ping,iff_of_false nofun server⟩
  · exact ⟨_,_,rfl,iff_of_false nofun ping,iff_of_false nofun server⟩

variable [DecidableEq Address]

-- Of the header of ping's message the size only has a value.
def Program.ping (checked : Bool) (header : NetMessageHeader) (s : Program Address) : Option (Program Address) :=
  (NetInterface.messageNeighbors checked Connections.Peer.isOpen (NetInterface.peersOf s.network.mPeers)
    ⟨{header with size := 0},.empty⟩ none).map fun final =>
      {s with network := {s.network with mPeers := final.network.mPeers.reduceOption,
                                         operations := s.network.operations + final.network.sent.length}}

def handleInput (checked : Bool) (header : NetMessageHeader) (s : Program Address) (text : Text) :
    Option (Program Address) :=
  (MainMenu.handleInput s.menu text).bind fun (menu,request) =>
    match request with
    | none => some {s with menu := menu}
    | some .ping => {s with menu := menu}.ping checked header
    | some .startServer => {s with menu := menu}.start
    | some .shutdown => some {s with menu := menu, mShutdown := true}

-- The call returns, and a line without a token is answered with an entry of the log alone.
def Answers (checked : Bool) (header : NetMessageHeader) (s : Program Address) (text : Text) : Prop :=
  ∃ next, handleInput checked header s text = some next ∧
    (parseCmd text = [] → next = {s with menu := s.menu.log "Invalid command".toList})

theorem ping_returns (checked : Bool) (header : NetMessageHeader) (s : Program Address) :
    (∃ next, s.ping checked header = some next) ↔
      ∀ peer ∈ if checked then s.network.mPeers else s.network.mPeers.dropLast, peer.isOpen = true := by
  rcases NetInterface.messageNeighbors_cases checked Connections.Peer.isOpen ⟨{header with size := 0},.empty⟩ none
    s.network.mPeers with ⟨alive,_,_,_,ran⟩ | ⟨lost,ran⟩
  · exact iff_of_true ⟨_,by unfold Program.ping; rw [ran]; rfl⟩ alive
  · refine iff_of_false ?_ lost
    rintro ⟨next,returned⟩
    unfold Program.ping at returned
    rw [ran] at returned
    cases returned

theorem handleInput_returns (checked : Bool) (header : NetMessageHeader) (s : Program Address)
    (nonempty : text ≠ []) : (∃ next, handleInput checked header s text = some next) ↔ Handled checked s text := by
  cases first : (parseCmd text).head? with
  | none =>
      have blank := parseCmd_nil_iff.mp (List.head?_eq_none_iff.mp first)
      refine iff_of_false ?_ fun handled => handled.token blank
      rintro ⟨next,returned⟩
      unfold handleInput MainMenu.handleInput at returned
      rw [if_neg (by simpa using nonempty),first] at returned
      cases returned
  | some cmd =>
      obtain ⟨menu,request,answered,isPing,isServer⟩ := handleInput_token s.menu nonempty first
      unfold handleInput
      rw [answered,Option.bind_some,handled_iff first,← isPing,← isServer]
      cases request with
      | none => exact iff_of_true ⟨_,rfl⟩ ⟨nofun,nofun⟩
      | some request =>
          cases request with
          | ping =>
              refine (ping_returns checked header {s with menu := menu}).trans ?_
              exact ⟨fun alive => ⟨fun _ => alive,nofun⟩,fun both => both.1 rfl⟩
          | startServer =>
              refine (start_returns {s with menu := menu}).trans ?_
              exact ⟨fun idle => ⟨nofun,fun _ => idle⟩,fun both => both.2 rfl⟩
          | shutdown => exact iff_of_true ⟨_,rfl⟩ ⟨nofun,nofun⟩

theorem answers_iff (checked : Bool) (header : NetMessageHeader) (s : Program Address) (nonempty : text ≠ []) :
    Answers checked header s text ↔ Handled checked s text := by
  rw [← handleInput_returns checked header s nonempty]
  constructor
  · rintro ⟨next,returned,_⟩
    exact ⟨next,returned⟩
  · rintro ⟨next,returned⟩
    have handled := (handleInput_returns checked header s nonempty).mp ⟨next,returned⟩
    exact ⟨next,returned,fun tokenless => absurd (parseCmd_nil_iff.mp tokenless) handled.token⟩

def started : Program PeerInfo.Quad := ⟨freshMenu,Connections.fresh Connections.unknown,false,rfl⟩

theorem answers_startserver : Answers true ⟨0,Memory.zeros 16,Memory.zeros 7,0⟩ started "/startserver".toList :=
  (answers_iff true _ started (by decide)).mpr
    ⟨fun blank => absurd (parseCmd_nil_iff.mpr blank) (by decide),by decide,fun _ => rfl⟩

-- One space: args.at(0) throws.
theorem answers_fails : ¬ Answers true ⟨0,Memory.zeros 16,Memory.zeros 7,0⟩ started [' '] := by
  rintro ⟨next,returned,_⟩
  cases returned

end Keyser.CommandLine
