import Keyser.CommandLine

namespace Keyser.Session
open Runs Hex Framing MainMenu Tokenizer CommandLine

variable {Address : Type}

-- The menu's thread is in its loop, or in NetInterface::start with the context's thread there
-- and the entry of the log still to come.
inductive MenuThread where
  | looping
  | starting
  deriving DecidableEq

-- The context's thread runs one handler at a time. That of async_accept is open to the menu
-- behind each of its two entries.
inductive Handler (Address : Type) where
  | idle
  | greeted (endpoint : Address × UInt16)
  | admitted
  deriving DecidableEq

def onContext : Connections.Event Address → Bool
  | .accept _ | .finish _ | .raised | .returned | .disconnect _ => true
  | _ => false

-- In a greeted connection the constructor of Peer asks for the remote endpoint again.
def Handler.lets : Handler Address → Connections.Event Address → Bool
  | .idle,_ => true
  | .greeted _,.accept .gone => true
  | .greeted _,event => !onContext event
  | .admitted,event => !onContext event

-- connect, start and stop are calls, and a connection comes in three steps; what is left is
-- the other work of the network's threads.
def elsewhere : Connections.Event Address → Bool
  | .connect _ _ | .start | .stop | .accept (.inbound _) => false
  | _ => true

-- A pass of the menu's loop has its key and the header that a message of ping would be given.
inductive Event (Address : Type) where
  | key (ch : Int) (header : NetMessageHeader)
  | started
  | greet (endpoint : Address × UInt16)
  | enlist
  | approve
  | network (event : Connections.Event Address) (threads : elsewhere event = true)

-- `left` is the break at the escape key. An exception out of handleInput or out of a handler, a
-- std::terminate and a read through an erased element are `aborted`.
inductive State (Address : Type) where
  | inside (s : Program Address) (menu : MenuThread) (handler : Handler Address)
  | left (s : Program Address)
  | aborted

def edit (mText : Text) (ch : Int) : Text :=
  if ch = keyBackspace then mText.dropLast
  else if isprint ch then mText ++ [Char.ofNat ch.toNat]
  else mText

def fresh (selfEndpoint : PeerInfo.Endpoint) : State Address :=
  .inside ⟨freshMenu,Connections.fresh selfEndpoint,false,rfl⟩ .looping .idle

def command (line : Text) : Option Text := (parseCmd line).head?

-- What a command adds to the log itself, and the mode it chooses.
def entry (cmd : Text) : Option Text :=
  if cmd ∈ ["/help".toList,"/log".toList,"/connections".toList,"/ping".toList,"/startserver".toList,
    "/shutdown".toList] then none
  else some cmd

def chosen (cmd : Text) : Option Mode :=
  if cmd = "/log".toList then some .log else if cmd = "/connections".toList then some .connections else none

def announcement (port : UInt16) : Text := "[SERVER] Started on port ".toList ++ PeerInfo.decimal port.toNat

def greeting (toText : Address → Text) (endpoint : Address × UInt16) : Text :=
  "[SERVER] New connection: ".toList ++ toText endpoint.1 ++ ':' :: PeerInfo.decimal endpoint.2.toNat

def approval (id : UInt16) : Text := '[' :: PeerInfo.decimal id.toNat ++ "] Connection Approved".toList

-- What the events alone say: the lines that have been entered and the one begun, the log, and
-- how many connections have been admitted.
structure Account where
  lines : List Text
  draft : Text
  log : List Text
  admitted : Nat
  deriving DecidableEq

def Account.commands (account : Account) : List Text := account.lines.filterMap command

-- The line /startserver stays in the window until its entry is in the log.
def Account.enter (account : Account) : Account :=
  if command account.draft = some "/startserver".toList then {account with lines := account.lines ++ [account.draft]}
  else {account with lines := account.lines ++ [account.draft], draft := [],
                     log := account.log ++ ((command account.draft).bind entry).toList}

def Account.then (toText : Address → Text) (port : UInt16) (account : Account) : Event Address → Account
  | .key ch _ => if ch = newline ∨ ch = keyEnter then account.enter else {account with draft := edit account.draft ch}
  | .started => {account with draft := [], log := account.log ++ [announcement port]}
  | .greet endpoint => {account with log := account.log ++ [greeting toText endpoint]}
  | .enlist => {account with admitted := account.admitted + 1}
  | .approve => {account with log := account.log ++ [approval (UInt16.ofNat (9999 + account.admitted))]}
  | .network _ _ => account

def account (toText : Address → Text) (port : UInt16) (events : List (Event Address)) : Account :=
  events.foldl (Account.then toText port) ⟨[],[],[],0⟩

-- The account explains all there is of the menu, and of the network what the menu decides.
structure Explains (port : UInt16) (account : Account) (s : Program Address) : Prop where
  text : s.menu.mText = account.draft
  log : s.menu.mLog = account.log
  mode : s.menu.mMode = (account.commands.filterMap chosen).getLastD .log
  shutdown : s.mShutdown = true ↔ "/shutdown".toList ∈ account.commands
  thread : s.network.contextThr = none ↔ "/startserver".toList ∉ account.commands
  port : s.network.selfEndpoint.port = port
  ids : s.network.idCounter = UInt16.ofNat (10000 + account.admitted)
  tokens : ∀ line ∈ account.lines, Blank line → line = []
  once : account.commands.count "/startserver".toList ≤ 1
  last : ∀ line ∈ account.lines.dropLast, command line ≠ some "/shutdown".toList

inductive Fatal (checked : Bool) (account : Account) (s : Program Address) : Prop where
  | blank (blank : Blank account.draft) (nonempty : account.draft ≠ [])
  | ping (asked : command account.draft = some "/ping".toList)
      (lost : ¬ ∀ peer ∈ if checked then s.network.mPeers else s.network.mPeers.dropLast, peer.isOpen = true)
  | server (asked : command account.draft = some "/startserver".toList)
      (before : "/startserver".toList ∈ account.commands)

-- An exception that leaves a handler: remote_endpoint on a connection that is gone again, at the
-- first entry or in the constructor of Peer, and a handler of a peer that raises.
inductive Throws (s : Program Address) : Handler Address → Connections.Event Address → Prop where
  | greeting (runs : s.network.runs = true) (waiting : 0 < s.network.accepting)
      (offers : s.network.acceptorOpen = true) : Throws s .idle (.accept .gone)
  | constructing (runs : s.network.runs = true) (waiting : 0 < s.network.accepting)
      (offers : s.network.acceptorOpen = true) : Throws s (.greeted endpoint) (.accept .gone)
  | reading (runs : s.network.runs = true) (working : 0 < s.network.operations) : Throws s .idle .raised

inductive Ends (checked : Bool) (account : Account) (s : Program Address) :
    MenuThread → Handler Address → Event Address → Prop where
  | line (running : s.mShutdown = false) (entered : ch = newline ∨ ch = keyEnter) (fatal : Fatal checked account s) :
      Ends checked account s .looping handler (.key ch header)
  | thrown (throws : Throws s handler event) : Ends checked account s menu handler (.network event threads)

variable {s next : Program Address} {header : NetMessageHeader} {text cmd : Text} {port : UInt16} {before : Account}
  {makeAddress : Text → Option Address} {toText : Address → Text} {handler : Handler Address}

theorem command_token (first : command text = some cmd) : cmd ≠ [] :=
  parse_tokens (by simp) cmd (List.mem_of_head? first)

theorem command_none : command text = none ↔ Blank text := by
  rw [command,List.head?_eq_none_iff,parseCmd_nil_iff]

def logged (s : Program Address) (text : Text) : Program Address := {s with menu := s.menu.log text}

def cleared (s : Program Address) : Program Address := {s with menu := {s.menu with mText := []}}

structure Effect (cmd : Text) (s next : Program Address) : Prop where
  log : next.menu.mLog = s.menu.mLog ++ (entry cmd).toList
  mode : next.menu.mMode = (chosen cmd).getD s.menu.mMode
  shutdown : next.mShutdown = true ↔ s.mShutdown = true ∨ cmd = "/shutdown".toList
  thread : next.network.contextThr = s.network.contextThr
  endpoint : next.network.selfEndpoint = s.network.selfEndpoint
  ids : next.network.idCounter = s.network.idCounter
  peers : next.network.mPeers = s.network.mPeers.filter Connections.Peer.isOpen ∨
    next.network.mPeers = s.network.mPeers

theorem account_snoc (events : List (Event Address)) (event : Event Address) :
    account toText port (events ++ [event]) = (account toText port events).then toText port event := by
  rw [account,account,List.foldl_append,List.foldl_cons,List.foldl_nil]

theorem enter_lines (before : Account) : before.enter.lines = before.lines ++ [before.draft] := by
  unfold Account.enter
  split <;> rfl

theorem commands_enter (before : Account) :
    before.enter.commands = before.commands ++ (command before.draft).toList := by
  rw [Account.commands,enter_lines,List.filterMap_append]
  cases first : command before.draft <;> simp [first,Account.commands]

theorem enter_log (before : Account) : before.enter.log = before.log ++ ((command before.draft).bind entry).toList := by
  unfold Account.enter
  split
  · rename_i server
    rw [server]
    exact (List.append_nil _).symm
  · rfl

theorem elsewhere_facts {network after : Connections.NetInterface Address} {event : Connections.Event Address}
    (threads : elsewhere event = true) (stepped : Connections.step makeAddress network event = some after) :
    after.selfEndpoint = network.selfEndpoint ∧ (after.contextThr = none ↔ network.contextThr = none) ∧
      after.idCounter = network.idCounter := by
  obtain ⟨_,taken⟩ := Connections.step_taken stepped
  cases taken with
  | connect | start | stop => cases threads
  | accept =>
      rename_i accepted _
      cases accepted with
      | inbound => cases threads
      | failed | gone => exact ⟨rfl,Iff.rfl,rfl⟩
  | returned running => exact ⟨rfl,by simp [running],rfl⟩
  | post | finish | raised | disconnect | kept | pruned => exact ⟨rfl,Iff.rfl,rfl⟩

theorem elsewhere_over {network after : Connections.NetInterface Address} {event : Connections.Event Address}
    (threads : elsewhere event = true) (stepped : Connections.step makeAddress network event = some after) :
    after.over = true ↔ event = .accept .gone ∨ event = .raised := by
  obtain ⟨alive,taken⟩ := Connections.step_taken stepped
  have goes (same : after.over = network.over) : ¬ after.over = true := by simp [same,alive]
  cases taken with
  | connect | start | stop => cases threads
  | accept =>
      rename_i accepted _
      cases accepted with
      | inbound => cases threads
      | failed => exact iff_of_false (goes rfl) (by simp)
      | gone => exact iff_of_true (by simp [Connections.onAccept,Connections.NetInterface.over]) (.inl rfl)
  | raised => exact iff_of_true (by simp [Connections.NetInterface.over]) (.inr rfl)
  | post | finish | returned | disconnect | kept | pruned => exact iff_of_false (goes rfl) (by simp)

theorem inbound_step {network after : Connections.NetInterface Address} {endpoint : Address × UInt16}
    (stepped : Connections.step makeAddress network (.accept (.inbound endpoint)) = some after) :
    network.over = false ∧ after = Connections.onAccept network (.inbound endpoint) := by
  obtain ⟨alive,taken⟩ := Connections.step_taken stepped
  cases taken
  exact ⟨alive,rfl⟩

-- The peer that mPeers.back() is in the handler of async_accept.
def Newest (s : Program Address) (id : UInt16) : Prop :=
  ∃ earlier peer, s.network.mPeers = earlier ++ [peer] ∧ peer.isOpen = true ∧ peer.id = id

theorem effect_newest (effect : Effect cmd s next) (newest : Newest s number) : Newest next number := by
  obtain ⟨earlier,peer,last,isOpen,isId⟩ := newest
  rcases effect.peers with filtered | same
  · exact ⟨earlier.filter Connections.Peer.isOpen,peer,by rw [filtered,last]; simp [isOpen],isOpen,isId⟩
  · exact ⟨earlier,peer,same.trans last,isOpen,isId⟩

-- Nobody but the context's thread closes a peer, and an open one is not erased.
theorem network_newest {network : Connections.NetInterface Address} {event : Connections.Event Address}
    (threads : elsewhere event = true) (other : onContext event = false) (newest : Newest s number)
    (stepped : Connections.step makeAddress s.network event = some network) (alive : network.over = false) :
    Newest {s with network := network, alive := alive} number := by
  obtain ⟨earlier,peer,last,isOpen,isId⟩ := newest
  obtain ⟨_,taken⟩ := Connections.step_taken stepped
  cases taken with
  | connect | start | stop => cases threads
  | accept | finish | raised | returned | disconnect => cases other
  | post | kept => exact ⟨earlier,peer,last,isOpen,isId⟩
  | pruned found lost =>
      rename_i position lostPeer
      have inside : position < earlier.length := by
        rw [last] at found
        rcases Nat.lt_or_ge position earlier.length with less | more
        · exact less
        · rw [List.getElem?_append_right more] at found
          obtain rfl := List.mem_singleton.mp (List.mem_of_getElem? found)
          rw [isOpen] at lost
          cases lost
      refine ⟨earlier.eraseIdx position,peer,?_,isOpen,isId⟩
      simp only [last]
      exact List.eraseIdx_append_of_lt_length inside [peer]

theorem edit_explains (explains : Explains port before s) (ch : Int) :
    Explains port {before with draft := edit before.draft ch}
      {s with menu := {s.menu with mText := edit s.menu.mText ch}} :=
  {explains with text := congrArg (edit · ch) explains.text}

theorem logged_explains (explains : Explains port before s) (text : Text) :
    Explains port {before with log := before.log ++ [text]} (logged s text) :=
  {explains with log := congrArg (· ++ [text]) explains.log}

theorem started_explains (explains : Explains port before s) :
    Explains port {before with draft := [], log := before.log ++ [announcement port]} (cleared s.started) := by
  refine {explains with text := rfl, log := ?_}
  have isPort := explains.port
  subst isPort
  exact congrArg (· ++ [announcement s.network.selfEndpoint.port]) explains.log

theorem network_explains (explains : Explains port before s) {network : Connections.NetInterface Address}
    {event : Connections.Event Address} (threads : elsewhere event = true)
    (stepped : Connections.step makeAddress s.network event = some network) (alive : network.over = false) :
    Explains port before {s with network := network, alive := alive} := by
  obtain ⟨endpoint,thread,ids⟩ := elsewhere_facts threads stepped
  exact {explains with
    thread := thread.trans explains.thread
    port := (congrArg _ endpoint).trans explains.port
    ids := ids.trans explains.ids}

theorem enlist_explains (explains : Explains port before s) {network : Connections.NetInterface Address}
    {endpoint : Address × UInt16}
    (stepped : Connections.step makeAddress s.network (.accept (.inbound endpoint)) = some network)
    (alive : network.over = false) :
    Explains port {before with admitted := before.admitted + 1} {s with network := network, alive := alive} := by
  obtain ⟨_,rfl⟩ := inbound_step stepped
  have counted : s.network.idCounter + 1 = UInt16.ofNat (10000 + (before.admitted + 1)) :=
    (congrArg (· + 1) explains.ids).trans (UInt16.ofNat_add _ 1).symm
  exact {explains with thread := explains.thread, port := explains.port, ids := counted}

theorem enlist_newest (explains : Explains port before s) {network : Connections.NetInterface Address}
    {endpoint : Address × UInt16}
    (stepped : Connections.step makeAddress s.network (.accept (.inbound endpoint)) = some network)
    (alive : network.over = false) :
    Newest {s with network := network, alive := alive} (UInt16.ofNat (9999 + (before.admitted + 1))) := by
  obtain ⟨_,rfl⟩ := inbound_step stepped
  refine ⟨s.network.mPeers,_,rfl,rfl,?_⟩
  rw [show 9999 + (before.admitted + 1) = 10000 + before.admitted by omega]
  exact explains.ids

-- Behind /shutdown the loop reads no key.
theorem last_snoc (explains : Explains port before s) (running : s.mShutdown = false) :
    ∀ line ∈ (before.lines ++ [before.draft]).dropLast, command line ≠ some "/shutdown".toList := by
  intro line member asked
  rw [List.dropLast_concat] at member
  have shut := explains.shutdown.mpr (List.mem_filterMap.mpr ⟨line,member,asked⟩)
  exact absurd (running.symm.trans shut) (by decide)

theorem tokens_snoc (explains : Explains port before s) (token : Blank before.draft → before.draft = []) :
    ∀ line ∈ before.lines ++ [before.draft], Blank line → line = [] := by
  intro line member
  rcases List.mem_append.mp member with early | now
  · exact explains.tokens line early
  · rw [List.mem_singleton.mp now]
    exact token

theorem empty_explains (explains : Explains port before s) (running : s.mShutdown = false) (empty : before.draft = []) :
    Explains port before.enter (cleared s) := by
  have none : command before.draft = none := by rw [empty]; rfl
  have same : before.enter.commands = before.commands := by
    rw [commands_enter,none]
    exact List.append_nil _
  have entered : before.enter = {before with lines := before.lines ++ [before.draft], draft := []} := by
    simp [Account.enter,none]
  refine ⟨?_,?_,same ▸ explains.mode,same ▸ explains.shutdown,same ▸ explains.thread,explains.port,?_,?_,
    same ▸ explains.once,?_⟩ <;> rw [entered]
  · rfl
  · exact explains.log
  · exact explains.ids
  · exact tokens_snoc explains fun _ => empty
  · exact last_snoc explains running

theorem command_explains (explains : Explains port before s) (running : s.mShutdown = false)
    (first : command before.draft = some cmd) (other : cmd ≠ "/startserver".toList) (effect : Effect cmd s next) :
    Explains port before.enter (cleared next) := by
  have added : before.enter.commands = before.commands ++ [cmd] := by
    rw [commands_enter,first,Option.toList_some]
  have absent : "/startserver".toList ∉ [cmd] := fun member => other (List.mem_singleton.mp member).symm
  have plain : command before.draft ≠ some "/startserver".toList := by simpa [first] using other
  have entered : before.enter = ⟨before.lines ++ [before.draft],[],
      before.log ++ ((command before.draft).bind entry).toList,before.admitted⟩ := if_neg plain
  refine ⟨?_,?_,?_,?_,?_,(congrArg _ effect.endpoint).trans explains.port,?_,?_,?_,?_⟩
  · rw [entered]
    rfl
  · rw [enter_log,first,Option.bind_some,← explains.log]
    exact effect.log
  · rw [added,List.filterMap_append]
    refine effect.mode.trans ?_
    rw [explains.mode]
    cases asked : chosen cmd <;> simp [asked]
  · rw [added,List.mem_append,List.mem_singleton,← explains.shutdown,eq_comm (b := cmd)]
    exact effect.shutdown
  · rw [added,List.mem_append,or_iff_left absent,← explains.thread,← effect.thread]
    rfl
  · rw [entered]
    exact effect.ids.trans explains.ids
  · rw [entered]
    refine tokens_snoc explains fun blank => ?_
    rw [command_none.mpr blank] at first
    cases first
  · rw [added,List.count_append,List.count_eq_zero.mpr absent]
    exact explains.once
  · rw [entered]
    exact last_snoc explains running

theorem launch_facts (launched : s.launch = some next) : s.network.contextThr = none ∧ next.menu = s.menu ∧
    next.mShutdown = s.mShutdown ∧ next.network.contextThr ≠ none ∧
    next.network.selfEndpoint = s.network.selfEndpoint ∧ next.network.idCounter = s.network.idCounter ∧
    next.network.mPeers = s.network.mPeers := by
  have idle := (launch_returns s).mp ⟨next,launched⟩
  unfold Program.launch at launched
  dsimp only at launched
  split at launched <;> cases launched
  refine ⟨idle,rfl,rfl,?_,?_,?_,?_⟩ <;> simp [Connections.start,Connections.NetInterface.launch,idle]

theorem launch_explains (explains : Explains port before s) (running : s.mShutdown = false)
    (first : command before.draft = some "/startserver".toList) (launched : s.launch = some next) :
    Explains port before.enter next := by
  obtain ⟨idle,menu,shutdown,thread,endpoint,ids,_⟩ := launch_facts launched
  have added : before.enter.commands = before.commands ++ ["/startserver".toList] := by
    rw [commands_enter,first,Option.toList_some]
  have entered : before.enter = {before with lines := before.lines ++ [before.draft]} := if_pos first
  refine ⟨?_,?_,?_,?_,?_,(congrArg _ endpoint).trans explains.port,?_,?_,?_,?_⟩
  · rw [entered,menu]
    exact explains.text
  · rw [entered,menu]
    exact explains.log
  · rw [added,List.filterMap_append,menu]
    exact explains.mode.trans (congrArg (List.getLastD · Mode.log) (List.append_nil _).symm)
  · rw [added,List.mem_append,or_iff_left (by decide),shutdown]
    exact explains.shutdown
  · rw [added]
    exact iff_of_false thread (by simp)
  · rw [entered]
    exact ids.trans explains.ids
  · rw [entered]
    refine tokens_snoc explains fun blank => ?_
    rw [command_none.mpr blank] at first
    cases first
  · rw [added,List.count_append,List.count_eq_zero.mpr (explains.thread.mp idle),List.count_singleton_self]
  · rw [entered]
    exact last_snoc explains running

theorem then_admitted (account : Account) (event : Event Address) (other : event ≠ .enlist) :
    (account.then toText port event).admitted = account.admitted := by
  cases event with
  | enlist => exact absurd rfl other
  | key =>
      simp only [Account.then,Account.enter]
      split
      · split <;> rfl
      · rfl
  | started | greet | approve | network => rfl

def worked (makeAddress : Text → Option Address) (s : Program Address) (event : Connections.Event Address)
    (menu : MenuThread) (handler : Handler Address) : Option (State Address) :=
  (Connections.step makeAddress s.network event).map fun network =>
    if alive : network.over = false then .inside {s with network := network, alive := alive} menu handler
    else .aborted

theorem worked_cases (stepped : worked makeAddress s event menu handler = some state) :
    ∃ network, Connections.step makeAddress s.network event = some network ∧
      ((∃ alive, state = .inside {s with network := network, alive := alive} menu handler) ∨
        network.over = true ∧ state = .aborted) := by
  obtain ⟨network,stepped,same⟩ := Option.map_eq_some_iff.mp stepped
  refine ⟨network,stepped,?_⟩
  split at same
  · rename_i alive
    exact .inl ⟨alive,same.symm⟩
  · rename_i gone
    exact .inr ⟨by simpa using gone,same.symm⟩

variable [DecidableEq Address] {checked : Bool}

-- One key in the loop, past the test for escape. On /startserver handleInput is in start.
def pressed (checked : Bool) (header : NetMessageHeader) (s : Program Address) (ch : Int) :
    Option (Program Address × MenuThread) :=
  if ch = newline ∨ ch = keyEnter then
    if command s.menu.mText = some "/startserver".toList then s.launch.map (·,.starting)
    else (CommandLine.handleInput checked header s s.menu.mText).map fun after => (cleared after,.looping)
  else some ({s with menu := {s.menu with mText := edit s.menu.mText ch}},.looping)

-- No key is read once the loop's test finds mShutdown set.
def step (checked : Bool) (makeAddress : Text → Option Address) (toText : Address → Text) :
    State Address → Event Address → Option (State Address)
  | .inside s menu handler,.key ch header =>
    if menu = .starting ∨ s.mShutdown = true then none
    else if ch = escape then some (.left s)
    else match pressed checked header s ch with
      | none => some .aborted
      | some (after,menu) => some (.inside after menu handler)
  | .inside s menu handler,.started =>
    if menu = .starting then some (.inside (cleared s.started) .looping handler) else none
  | .inside s menu handler,.greet endpoint =>
    if handler = .idle ∧ s.network.runs = true ∧ 0 < s.network.accepting ∧ s.network.acceptorOpen = true then
      some (.inside (logged s (greeting toText endpoint)) menu (.greeted endpoint))
    else none
  | .inside s menu handler,.enlist =>
    match handler with
    | .greeted endpoint => worked makeAddress s (.accept (.inbound endpoint)) menu .admitted
    | .idle | .admitted => none
  | .inside s menu handler,.approve =>
    if handler = .admitted then
      match s.network.mPeers.getLast? with
      | none => some .aborted
      | some peer => some (.inside (logged s (approval peer.id)) menu .idle)
    else none
  | .inside s menu handler,.network event _ =>
    if handler.lets event = true then worked makeAddress s event menu handler else none
  | .left _,_ | .aborted,_ => none

theorem handleInput_server (first : command text = some "/startserver".toList) :
    CommandLine.handleInput checked header s text = s.launch.map Program.started := by
  have nonempty : text ≠ [] := by
    rintro rfl
    cases first
  have head : (parseCmd text).head? = some "/startserver".toList := first
  unfold CommandLine.handleInput MainMenu.handleInput
  rw [if_neg (by simpa using nonempty),head,Option.map_some]
  rfl

theorem handleInput_effect (first : command text = some cmd) (other : cmd ≠ "/startserver".toList)
    (returned : CommandLine.handleInput checked header s text = some next) : Effect cmd s next := by
  have nonempty : text ≠ [] := by
    rintro rfl
    cases first
  have token : cmd.isEmpty = false := by simpa using command_token first
  have head : (parseCmd text).head? = some cmd := first
  unfold CommandLine.handleInput MainMenu.handleInput at returned
  rw [if_neg (by simpa using nonempty),head,Option.map_some] at returned
  split_ifs at returned with help log connections ping shutdown empty
  · subst help; cases returned; exact ⟨by simp [entry],rfl,by simp,rfl,rfl,rfl,.inr rfl⟩
  · subst log; cases returned; exact ⟨by simp [entry],rfl,by simp,rfl,rfl,rfl,.inr rfl⟩
  · subst connections; cases returned; exact ⟨by simp [entry],rfl,by simp,rfl,rfl,rfl,.inr rfl⟩
  · subst ping
    obtain ⟨final,ran,rfl⟩ := Option.map_eq_some_iff.mp returned
    refine ⟨by simp [entry],rfl,by simp,rfl,rfl,rfl,.inl ?_⟩
    rcases NetInterface.messageNeighbors_cases checked Connections.Peer.isOpen ⟨{header with size := 0},.empty⟩ none
      s.network.mPeers with ⟨_,_,_,_,survived⟩ | ⟨_,failed⟩
    · cases ran.symm.trans survived
      simp [List.reduceOption]
    · cases ran.symm.trans failed
  · subst shutdown; cases returned; exact ⟨by simp [entry],rfl,by simp,rfl,rfl,rfl,.inr rfl⟩
  · rw [token] at empty
    cases empty
  · cases returned
    refine ⟨?_,?_,(or_iff_left shutdown).symm,rfl,rfl,rfl,.inr rfl⟩
    · simp only [Menu.log,entry,List.mem_cons,help,log,connections,ping,other,shutdown,List.not_mem_nil,or_self,
        if_false,Option.toList_some]
    · simp only [Menu.log,chosen,if_neg log,if_neg connections,Option.getD_none]

theorem fatal_iff (explains : Explains port before s) (header : NetMessageHeader) :
    CommandLine.handleInput checked header s s.menu.mText = none ↔ Fatal checked before s := by
  rw [explains.text]
  by_cases empty : before.draft = []
  · rw [empty]
    refine iff_of_false (by simp [CommandLine.handleInput,MainMenu.handleInput]) ?_
    rintro (⟨_,nonempty⟩ | ⟨asked,_⟩ | ⟨asked,_⟩)
    · exact nonempty empty
    · rw [empty] at asked
      cases asked
    · rw [empty] at asked
      cases asked
  · have returns := handleInput_returns checked header s empty
    rw [Option.eq_none_iff_forall_ne_some]
    constructor
    · intro aborts
      have unhandled : ¬ Handled checked s before.draft := fun handled =>
        (returns.mpr handled).elim fun next returned => aborts next returned
      by_contra harmless
      refine unhandled ⟨fun blank => harmless (.blank blank empty),fun asked => ?_,fun asked => ?_⟩
      · by_contra lost
        exact harmless (.ping asked lost)
      · rw [explains.thread]
        exact fun twice => harmless (.server asked twice)
    · intro fatal next returned
      have handled := returns.mp ⟨next,returned⟩
      rcases fatal with ⟨blank,_⟩ | ⟨asked,lost⟩ | ⟨asked,twice⟩
      · exact handled.token blank
      · exact lost (handled.ping asked)
      · exact explains.thread.mp (handled.server asked) twice

theorem pressed_none (explains : Explains port before s) (header : NetMessageHeader) (ch : Int) :
    pressed checked header s ch = none ↔ (ch = newline ∨ ch = keyEnter) ∧ Fatal checked before s := by
  unfold pressed
  split
  · rename_i entered
    rw [← fatal_iff explains header,and_iff_right entered]
    split
    · rename_i server
      rw [handleInput_server server,Option.map_eq_none_iff,Option.map_eq_none_iff]
    · exact Option.map_eq_none_iff
  · rename_i other
    exact iff_of_false (by simp) fun both => other both.1

theorem pressed_explains (explains : Explains port (account toText port events) s) (running : s.mShutdown = false)
    (taken : pressed checked header s ch = some (next,menu)) :
    Explains port (account toText port (events ++ [.key ch header])) next := by
  rw [account_snoc,Account.then]
  unfold pressed at taken
  split at taken
  · rename_i entered
    rw [if_pos entered]
    split at taken
    · rename_i server
      obtain ⟨after,launched,same⟩ := Option.map_eq_some_iff.mp taken
      cases same
      rw [explains.text] at server
      exact launch_explains explains running server launched
    · rename_i other
      obtain ⟨after,returned,same⟩ := Option.map_eq_some_iff.mp taken
      cases same
      rw [explains.text] at returned other
      by_cases empty : (account toText port events).draft = []
      · have unchanged : after = s := by
          rw [empty] at returned
          exact (Option.some.inj returned).symm
        subst unchanged
        exact empty_explains explains running empty
      · have handled := (handleInput_returns checked header s empty).mp ⟨after,returned⟩
        obtain ⟨cmd,first⟩ : ∃ cmd, command (account toText port events).draft = some cmd :=
          Option.ne_none_iff_exists'.mp fun none => handled.token (command_none.mp none)
        have plain : cmd ≠ "/startserver".toList := by
          rintro rfl
          exact other first
        exact command_explains explains running first plain (handleInput_effect first plain returned)
  · rename_i other
    rw [if_neg other]
    cases taken
    exact edit_explains explains ch

theorem pressed_newest (newest : Newest s number) (taken : pressed checked header s ch = some (next,menu)) :
    Newest next number := by
  unfold pressed at taken
  split at taken
  · split at taken
    · obtain ⟨after,launched,same⟩ := Option.map_eq_some_iff.mp taken
      cases same
      obtain ⟨earlier,peer,last,isOpen,isId⟩ := newest
      exact ⟨earlier,peer,(launch_facts launched).2.2.2.2.2.2.trans last,isOpen,isId⟩
    · rename_i other
      obtain ⟨after,returned,same⟩ := Option.map_eq_some_iff.mp taken
      cases same
      cases first : command s.menu.mText with
      | none =>
          have empty : s.menu.mText = [] := by
            by_contra nonempty
            have handled := (handleInput_returns checked header s nonempty).mp ⟨after,returned⟩
            exact handled.token (command_none.mp first)
          rw [empty] at returned
          cases returned
          exact newest
      | some cmd =>
          rw [first] at other
          have plain : cmd ≠ "/startserver".toList := fun same => other (congrArg some same)
          have kept : Newest after number := effect_newest (handleInput_effect first plain returned) newest
          exact kept
  · cases taken
    exact newest

-- The program that a session has come to, as long as the process is there.
def State.program : State Address → Option (Program Address)
  | .inside s _ _ | .left s => some s
  | .aborted => none

def Accounted (toText : Address → Text) (port : UInt16) (events : List (Event Address)) : State Address → Prop
  | .inside s _ handler =>
    Explains port (account toText port events) s ∧ (handler = .admitted →
      Newest s (UInt16.ofNat (9999 + (account toText port events).admitted)))
  | .left s => Explains port (account toText port events) s
  | .aborted => True

omit [DecidableEq Address] in
theorem fresh_accounted (selfEndpoint : PeerInfo.Endpoint) :
    Accounted toText selfEndpoint.port [] (fresh selfEndpoint : State Address) := by
  refine ⟨⟨rfl,rfl,rfl,?_,?_,rfl,rfl,?_,?_,?_⟩,fun admitted => by cases admitted⟩ <;>
    simp [account,Account.commands,Connections.fresh]

theorem step_accounted (past : List (Event Address)) (state : State Address) (event : Event Address)
    (next : State Address)
    (accounted : Accounted toText port past state) (stepped : step checked makeAddress toText state event = some next) :
    Accounted toText port (past ++ [event]) next := by
  cases state with
  | left | aborted => cases stepped
  | inside s menu handler =>
      obtain ⟨explains,newest⟩ := accounted
      cases event with
      | key ch header =>
          simp only [step] at stepped
          split at stepped
          · cases stepped
          · rename_i goes
            split at stepped
            · rename_i leaves
              cases stepped
              subst leaves
              rw [Accounted,account_snoc]
              exact explains
            · split at stepped <;> cases stepped
              · trivial
              · rename_i after menu' taken
                refine ⟨pressed_explains explains ?_ taken,fun admitted => ?_⟩
                · simpa using fun shut => goes (.inr shut)
                · rw [account_snoc,then_admitted _ _ (by simp)]
                  exact pressed_newest (newest admitted) taken
      | started =>
          simp only [step] at stepped
          split at stepped <;> cases stepped
          rw [Accounted,account_snoc]
          exact ⟨started_explains explains,newest⟩
      | greet endpoint =>
          simp only [step] at stepped
          split at stepped <;> cases stepped
          rw [Accounted,account_snoc]
          exact ⟨logged_explains explains _,fun admitted => by cases admitted⟩
      | enlist =>
          simp only [step] at stepped
          split at stepped
          · obtain ⟨network,moved,⟨alive,rfl⟩ | ⟨gone,rfl⟩⟩ := worked_cases stepped
            · rw [Accounted,account_snoc]
              exact ⟨enlist_explains explains moved alive,fun _ => enlist_newest explains moved alive⟩
            · trivial
          · cases stepped
          · cases stepped
      | approve =>
          simp only [step] at stepped
          split at stepped
          · rename_i admitted
            obtain ⟨earlier,peer,last,_,isId⟩ := newest admitted
            rw [last,List.getLast?_concat] at stepped
            cases stepped
            rw [Accounted,account_snoc,isId]
            exact ⟨logged_explains explains _,fun admitted => by cases admitted⟩
          · cases stepped
      | network event threads =>
          simp only [step] at stepped
          split at stepped
          · rename_i lets
            obtain ⟨network,moved,⟨alive,rfl⟩ | ⟨gone,rfl⟩⟩ := worked_cases stepped
            · rw [Accounted,account_snoc]
              refine ⟨network_explains explains threads moved alive,fun admitted => ?_⟩
              subst admitted
              exact network_newest threads (by simpa [Handler.lets] using lets) (newest rfl) moved alive
            · trivial
          · cases stepped

theorem run_accounted (selfEndpoint : PeerInfo.Endpoint) (events : List (Event Address))
    (ran : run (step checked makeAddress toText) (fresh selfEndpoint) events = some state) :
    Accounted toText selfEndpoint.port events state :=
  recorded step_accounted (fresh_accounted selfEndpoint) ran

omit [DecidableEq Address] in
theorem program_explained {state : State Address} (accounted : Accounted toText port events state)
    (shown : state.program = some s) : Explains port (account toText port events) s := by
  cases state with
  | inside => cases shown; exact accounted.1
  | left => cases shown; exact accounted
  | aborted => cases shown

theorem explained (selfEndpoint : PeerInfo.Endpoint) (events : List (Event Address))
    (ran : run (step checked makeAddress toText) (fresh selfEndpoint) events = some state) :
    ∀ s, state.program = some s → Explains selfEndpoint.port (account toText selfEndpoint.port events) s := by
  intro s shown
  exact program_explained (run_accounted selfEndpoint events ran) shown

def keys (line : Text) : List (Event Address) :=
  line.map fun c => .key c.toNat ⟨0,Memory.zeros 16,Memory.zeros 7,0⟩

-- A slip of the key is taken back, and a connection's entries come in between.
def serving : List (Event PeerInfo.Quad) :=
  keys "/startservet".toList ++ [.key keyBackspace ⟨0,Memory.zeros 16,Memory.zeros 7,0⟩] ++ keys "r".toList ++
    [.key keyEnter ⟨0,Memory.zeros 16,Memory.zeros 7,0⟩,.greet (⟨10,0,0,1⟩,7000),.started] ++ keys "x".toList ++
    [.key keyEnter ⟨0,Memory.zeros 16,Memory.zeros 7,0⟩,.enlist] ++ keys "/conn".toList ++ [.approve]

theorem explained_serving : ∃ s : Program PeerInfo.Quad, s.menu.mText = "/conn".toList ∧
    s.menu.mLog = ["[SERVER] New connection: 10.0.0.1:7000".toList,"[SERVER] Started on port 6000".toList,
      "x".toList,"[10000] Connection Approved".toList] ∧
    Explains 6000 (account PeerInfo.Quad.text 6000 serving) s := by
  have ran : ∃ s, run (step true (fun _ => none) PeerInfo.Quad.text) (fresh ⟨"Unknown".toList,6000⟩) serving =
      some (.inside s .looping .idle) := ⟨_,rfl⟩
  obtain ⟨s,ran⟩ := ran
  have explains := explained ⟨"Unknown".toList,6000⟩ serving ran s rfl
  exact ⟨s,explains.text,explains.log,explains⟩

omit [DecidableEq Address] in
theorem gone_step (makeAddress : Text → Option Address) (s : Program Address) :
    (∃ network, Connections.step makeAddress s.network (.accept .gone) = some network) ↔
      s.network.runs = true ∧ 0 < s.network.accepting ∧ s.network.acceptorOpen = true := by
  simp [Connections.step,s.alive,Connections.NetInterface.offers,and_assoc]

omit [DecidableEq Address] in
theorem raised_step (makeAddress : Text → Option Address) (s : Program Address) :
    (∃ network, Connections.step makeAddress s.network .raised = some network) ↔
      s.network.runs = true ∧ 0 < s.network.operations := by
  simp [Connections.step,s.alive]

omit [DecidableEq Address] in
theorem throws_iff (makeAddress : Text → Option Address) {event : Connections.Event Address}
    (threads : elsewhere event = true) :
    Throws s handler event ↔ handler.lets event = true ∧ ∃ network,
      Connections.step makeAddress s.network event = some network ∧ network.over = true := by
  constructor
  · intro throws
    cases throws with
    | greeting runs waiting offers | constructing runs waiting offers =>
        obtain ⟨network,stepped⟩ := (gone_step makeAddress s).mpr ⟨runs,waiting,offers⟩
        exact ⟨rfl,network,stepped,(elsewhere_over threads stepped).mpr (.inl rfl)⟩
    | reading runs working =>
        obtain ⟨network,stepped⟩ := (raised_step makeAddress s).mpr ⟨runs,working⟩
        exact ⟨rfl,network,stepped,(elsewhere_over threads stepped).mpr (.inr rfl)⟩
  · rintro ⟨lets,network,stepped,gone⟩
    rcases (elsewhere_over threads stepped).mp gone with rfl | rfl
    · obtain ⟨runs,waiting,offers⟩ := (gone_step makeAddress s).mp ⟨network,stepped⟩
      cases handler with
      | idle => exact .greeting runs waiting offers
      | greeted => exact .constructing runs waiting offers
      | admitted => cases lets
    · obtain ⟨runs,working⟩ := (raised_step makeAddress s).mp ⟨network,stepped⟩
      cases handler with
      | idle => exact .reading runs working
      | greeted | admitted => cases lets

theorem aborts_iff {menu : MenuThread} (accounted : Accounted toText port events (.inside s menu handler))
    (event : Event Address) :
    step checked makeAddress toText (.inside s menu handler) event = some .aborted ↔
      Ends checked (account toText port events) s menu handler event := by
  obtain ⟨explains,newest⟩ := accounted
  cases event with
  | key ch header =>
      have leaving : ¬ (escape = newline ∨ escape = keyEnter) := by decide
      simp only [step]
      constructor
      · intro aborts
        split at aborts
        · cases aborts
        · rename_i goes
          split at aborts
          · cases aborts
          · split at aborts <;> cases aborts
            rename_i none
            obtain ⟨entered,fatal⟩ := (pressed_none explains header ch).mp none
            cases menu with
            | starting => exact absurd (.inl rfl) goes
            | looping => exact .line (by simpa using fun shut => goes (.inr shut)) entered fatal
      · rintro (⟨running,entered,fatal⟩ | _)
        have none : pressed checked header s ch = none := (pressed_none explains header ch).mpr ⟨entered,fatal⟩
        have other : ch ≠ escape := by
          rintro rfl
          exact leaving entered
        rw [if_neg (by simp [running]),if_neg other,none]
  | started =>
      refine iff_of_false (fun aborts => ?_) (by rintro ⟨⟩)
      simp only [step] at aborts
      split at aborts <;> cases aborts
  | greet endpoint =>
      refine iff_of_false (fun aborts => ?_) (by rintro ⟨⟩)
      simp only [step] at aborts
      split at aborts <;> cases aborts
  | enlist =>
      refine iff_of_false (fun aborts => ?_) (by rintro ⟨⟩)
      simp only [step] at aborts
      split at aborts
      · obtain ⟨network,moved,⟨_,same⟩ | ⟨gone,_⟩⟩ := worked_cases aborts
        · cases same
        · obtain ⟨alive,rfl⟩ := inbound_step moved
          exact absurd (alive.symm.trans gone) (by decide)
      · cases aborts
      · cases aborts
  | approve =>
      refine iff_of_false (fun aborts => ?_) (by rintro ⟨⟩)
      simp only [step] at aborts
      split at aborts
      · rename_i admitted
        obtain ⟨earlier,peer,last,_⟩ := newest admitted
        rw [last,List.getLast?_concat] at aborts
        cases aborts
      · cases aborts
  | network event threads =>
      simp only [step]
      constructor
      · intro aborts
        split at aborts
        · rename_i lets
          obtain ⟨network,moved,⟨_,same⟩ | ⟨gone,_⟩⟩ := worked_cases aborts
          · cases same
          · exact .thrown ((throws_iff makeAddress threads).mpr ⟨lets,network,moved,gone⟩)
        · cases aborts
      · rintro (_ | throws)
        obtain ⟨lets,network,moved,gone⟩ := (throws_iff makeAddress threads).mp throws
        rw [if_pos lets,worked,moved,Option.map_some,dif_neg (by simp [gone])]

-- Nothing else ends the process, as long as the behaviour is defined.
theorem aborted_iff (selfEndpoint : PeerInfo.Endpoint) (events : List (Event Address)) :
    run (step checked makeAddress toText) (fresh selfEndpoint) events = some .aborted ↔
      ∃ before event s menu handler, events = before ++ [event] ∧
        run (step checked makeAddress toText) (fresh selfEndpoint) before = some (.inside s menu handler) ∧
        Ends checked (account toText selfEndpoint.port before) s menu handler event := by
  rcases List.eq_nil_or_concat events with rfl | ⟨before,event,rfl⟩
  · refine iff_of_false (fun ended => by cases ended) ?_
    rintro ⟨before,event,s,menu,handler,split,_⟩
    exact absurd split (by simp)
  · rw [List.concat_eq_append,run_concat]
    constructor
    · intro aborted
      obtain ⟨state,ran,stepped⟩ := Option.bind_eq_some_iff.mp aborted
      cases state with
      | left | aborted => cases stepped
      | inside s menu handler =>
          exact ⟨before,event,s,menu,handler,rfl,ran,
            (aborts_iff (run_accounted selfEndpoint before ran) event).mp stepped⟩
    · rintro ⟨before',event',s,menu,handler,split,ran,ends⟩
      obtain ⟨rfl,last⟩ := List.append_inj' split rfl
      obtain rfl := List.singleton_inj.mp last
      rw [ran,Option.bind_some]
      exact (aborts_iff (run_accounted selfEndpoint before ran) _).mpr ends

end Keyser.Session
