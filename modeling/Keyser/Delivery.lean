import Keyser.Flushing
import Keyser.Relaying

namespace Keyser.Delivery
open Framing PeerReceive PeerLifetime Links LinkSteps Relaying Flushing

-- The steps that bring messages on: none is told to any peer by them.
def delivers : Links.Event → Bool
  | .act _ (.sender _ event) => flushes event
  | .act _ .popFront => true
  | .byte _ => true
  | _ => false

def useCount (s : Network) (place : End) : Nat := (s.nodes place.1).owners.useCount place.2

def running (s : Network) (place : End) : Prop := (s.nodes place.1).ended = false

-- The object of one place is another one; no peer loses an owner and no node ends.
structure Rewritten (s next : Network) (place : End) (object : Object) : Prop where
  here : next.object place = some object
  elsewhere : ∀ other, other ≠ place → next.object other = s.object other
  linked : next.other = s.other
  owned : ∀ other, useCount s other ≤ useCount next other
  lasting : ∀ other, running s other → running next other

theorem Rewritten.trans (one : Rewritten s middle place object) (two : Rewritten middle next place after) :
    Rewritten s next place after := by
  refine ⟨two.here,fun other away => ?_,two.linked.trans one.linked,?_,?_⟩
  · exact (two.elsewhere other away).trans (one.elsewhere other away)
  · exact fun other => (one.owned other).trans (two.owned other)
  · exact fun other runs => two.lasting other (one.lasting other runs)

theorem running_calm {s : Network} (runs : running s place) (found : s.object place = some object) :
    object.receiver.raised = false :=
  Bool.eq_false_iff.mpr (List.any_eq_false.mp runs object (List.mem_of_getElem? found))

theorem put_rewritten {s : Network} {place : End} {after : Node}
    (objects : after.owners.objects = (s.nodes place.1).owners.objects.set place.2 object)
    (found : (s.object place).isSome = true)
    (grows : ∀ peer, (s.nodes place.1).owners.useCount peer ≤ after.owners.useCount peer)
    (calm : object.receiver.raised = false) : Rewritten s (s.put place.1 after) place object := by
  refine ⟨put_here objects found,fun other => put_elsewhere objects,rfl,fun other => ?_,fun other runs => ?_⟩
  · simp only [useCount,Network.put,Function.update_apply]
    split
    · rename_i node
      rw [node]
      exact grows other.2
    · exact Nat.le_refl _
  · simp only [running,Network.put,Function.update_apply]
    split
    · rename_i node
      rw [running,node] at runs
      refine List.any_eq_false.mpr fun one member => ?_
      rw [objects] at member
      rcases List.mem_or_eq_of_mem_set member with old | rfl
      · exact List.any_eq_false.mp runs one old
      · exact Bool.eq_false_iff.mp calm
    · exact runs

-- A step of the writing half, taken in the network.
theorem flush_step {s : Network} (found : s.object place = some object) (owned : 0 < useCount s place)
    (runs : running s place) (kind : flushes event = true) (stepped : PeerSend.step object.sender event = some sender) :
    ∃ next after, Links.step s (.act place.1 (.sender place.2 event)) = some next ∧ Rewritten s next place after ∧
      after.sender = sender ∧ after.receiver.reading = object.receiver.reading := by
  have here : (s.nodes place.1).owners.objects[place.2]? = some object := found
  have calm := running_calm runs found
  let after : Object := ⟨sender,{object.receiver with isOpen := sender.isOpen}⟩
  let owners : Owners := {(s.nodes place.1).owners with objects := (s.nodes place.1).owners.objects.set place.2 after}
  have wrote : PeerLifetime.step (s.nodes place.1).owners (.sender place.2 event) = some owners := by
    have written : (s.nodes place.1).owners.write place.2 event = some owners := by
      simp [Owners.write,here,Object.write,stepped,owners,after]
    cases event with
    | posted | transmit | written => exact written
    | send | writeFailed | disconnect => cases kind
  have acted : (s.nodes place.1).step (.sender place.2 event) = some ⟨owners,(s.nodes place.1).popped ++ []⟩ := by
    have serving : (serves (.sender place.2 event)).all
        (fun peer => decide (0 < (s.nodes place.1).owners.useCount peer)) = true := by
      cases event with
      | posted | transmit | written => exact decide_eq_true owned
      | send | writeFailed | disconnect => cases kind
    rw [running] at runs
    simp only [Node.step,serving,runs,Bool.not_false,Bool.and_true,if_true,wrote,Option.map_some]
    rfl
  refine ⟨s.put place.1 ⟨owners,(s.nodes place.1).popped ++ []⟩,after,?_,?_,rfl,rfl⟩
  · simp only [Links.step,alone,if_true,acted,Option.map_some]
  · exact put_rewritten rfl (by rw [found]; rfl) (fun _ => Nat.le_refl _) calm

theorem flush_run {s : Network} (found : s.object place = some object) (owned : 0 < useCount s place)
    (runs : running s place) (kinds : ∀ event ∈ events, flushes event = true) (ran : Runs.run PeerSend.step object.sender events = some sender) :
    ∃ next after, Runs.run Links.step s (events.map fun event => .act place.1 (.sender place.2 event)) = some next ∧
      Rewritten s next place after ∧ after.sender = sender ∧ after.receiver.reading = object.receiver.reading := by
  induction events generalizing s object with
  | nil =>
      cases ran
      exact ⟨s,object,rfl,⟨found,fun _ _ => rfl,rfl,fun _ => Nat.le_refl _,fun _ runs => runs⟩,rfl,rfl⟩
  | cons event events ih =>
      obtain ⟨middle,stepped,went⟩ := Runs.run_cons ran
      obtain ⟨kind,kinds⟩ := List.forall_mem_cons.mp kinds
      obtain ⟨reached,between,taken,rewritten,rfl,reading⟩ := flush_step found owned runs kind stepped
      obtain ⟨next,after,rest,again,sender,still⟩ := ih rewritten.here
        (Nat.lt_of_lt_of_le owned (rewritten.owned place)) (rewritten.lasting place runs) kinds went
      exact ⟨next,after,by simp [Runs.run,taken,rest],rewritten.trans again,sender,still.trans reading⟩

theorem reads_on (reads : Reads peer bytes receiver) (reading : receiver.reading.isSome = true)
    (fits : ∀ header ∈ HostileStreams.headers (bytes ++ [value]), HostileStreams.Fits maxSize header) :
    (PeerReceive.step receiver (.byte value)).reading.isSome = true ∧
      (PeerReceive.step receiver (.byte value)).raised = false := by
  obtain ⟨header,_,follows⟩ := reads
  rw [step_reads (follows reading) value]
  have settled := HostileStreams.receive_settled (s := PeerReceive.fresh peer header) (bytes ++ [value]) rfl ⟨rfl,rfl⟩ rfl
  rcases settled with ⟨calm,still,_⟩ | ⟨_,_,unfit,member,exceeds⟩
  · exact ⟨Option.isSome_iff_ne_none.mpr still,calm⟩
  · exact absurd (fits unfit member) exceeds

-- A reader that has still bytes to come, all of frames that it can hold.
structure Reading (place source : End) (sent : List Frame) (s : Network) : Prop where
  inv : Relaying.Invariant s
  linked : s.other place = some source
  reader : ∃ object, s.object place = some object ∧ object.receiver.reading.isSome = true
  owned : 0 < useCount s place
  runs : running s place
  wire : s.wire source = sent.flatMap fun frame => frame.wire

def untaken (place source : End) (s : Network) : Nat := (s.wire source).length - s.taken place

theorem rewritten_wire {s next : Network} (rewritten : Rewritten s next place after)
    (found : s.object place = some object) (same : after.sender.wire = object.sender.wire) (other : End) :
    next.wire other = s.wire other := by
  unfold Network.wire
  by_cases here : other = place
  · rw [here,rewritten.here,found,Option.elim_some,Option.elim_some,same]
  · rw [rewritten.elsewhere other here]

-- A byte that has come in: nothing else of the network is another than before.
structure Took (s next : Network) (place : End) (after : Object) : Prop where
  inv : Relaying.Invariant next
  rewritten : Rewritten s next place after
  wires : ∀ other, next.wire other = s.wire other
  taken : next.taken = Function.update s.taken place (s.taken place + 1)
  reader : after.receiver.reading.isSome = true

theorem byte_step {s : Network} (reading : Reading place source sent s) (left : 0 < untaken place source s) :
    ∃ next after, Links.step s (.byte place) = some next ∧ Took s next place after := by
  obtain ⟨inv,linked,⟨object,found,reader⟩,owned,runs,wire⟩ := reading
  have here : (s.nodes place.1).owners.objects[place.2]? = some object := found
  have inside : s.taken place < (s.wire source).length := by
    unfold untaken at left
    omega
  let value := (s.wire source)[s.taken place]
  have there : (s.wire source)[s.taken place]? = some value := List.getElem?_eq_getElem inside
  let receiver := PeerReceive.step object.receiver (.byte value)
  let after : Object := ⟨{object.sender with isOpen := receiver.isOpen},receiver⟩
  let owners : Owners := {(s.nodes place.1).owners with
    objects := (s.nodes place.1).owners.objects.set place.2 after
    mMessagesIn := (s.nodes place.1).owners.mMessagesIn ++ receiver.pushed.drop object.receiver.pushed.length}
  have arrived : (s.nodes place.1).step (.arrive place.2 (.byte value)) =
      some ⟨owners,(s.nodes place.1).popped ++ []⟩ := by
    have serving : decide (0 < (s.nodes place.1).owners.useCount place.2) = true := decide_eq_true owned
    rw [running] at runs
    simp only [Node.step,serves,Option.all_some,serving,runs,Bool.not_false,Bool.and_true,if_true]
    simp [PeerLifetime.step,Owners.arrive,here,Object.arrive,reader,Node.takesOff,owners,after,receiver]
  have stepped : Links.step s (.byte place) = some {s.put place.1 ⟨owners,(s.nodes place.1).popped ++ []⟩ with
      taken := Function.update s.taken place (s.taken place + 1)} := by
    simp only [Links.step,linked,Option.bind_some,there,arrived,Option.map_some]
  have fits : ∀ header ∈ HostileStreams.headers (s.incoming place ++ [value]), HostileStreams.Fits maxSize header := by
    rw [incoming_next linked there,wire]
    exact Streams.headers_fit (List.take_prefix _ _)
  have on := reads_on (inv.reads place object found) reader fits
  have rewritten : Rewritten s (s.put place.1 ⟨owners,(s.nodes place.1).popped ++ []⟩) place after := by
    refine put_rewritten rfl (by rw [found]; rfl) (fun peer => ?_) on.2
    simp only [owners,Owners.useCount,List.map_append,List.count_append]
    omega
  have wires := rewritten_wire rewritten found rfl
  refine ⟨_,after,stepped,Relaying.step_invariant s _ _ inv stepped,?_,wires,rfl,?_⟩
  · exact ⟨rewritten.here,rewritten.elsewhere,rewritten.linked,rewritten.owned,rewritten.lasting⟩
  · exact on.1

theorem Took.keeps {s next : Network} (took : Took s next place after) (reading : Reading other source sent s) :
    Reading other source sent next := by
  refine ⟨took.inv,took.rewritten.linked ▸ reading.linked,?_,?_,took.rewritten.lasting other reading.runs,
    (took.wires source).trans reading.wire⟩
  · obtain ⟨object,found,reader⟩ := reading.reader
    by_cases here : other = place
    · rw [here]
      exact ⟨after,took.rewritten.here,took.reader⟩
    · exact ⟨object,(took.rewritten.elsewhere other here).trans found,reader⟩
  · exact Nat.lt_of_lt_of_le reading.owned (took.rewritten.owned other)

theorem Took.untaken {s next : Network} (took : Took s next place after) (other source : End) :
    Delivery.untaken other source next = Delivery.untaken other source s - if other = place then 1 else 0 := by
  rw [Delivery.untaken,Delivery.untaken,took.wires,took.taken,Function.update_apply]
  split
  · rename_i here
    rw [here]
    omega
  · rfl

theorem bytes_run {s : Network} {links : List (End × End)} {sent : End → List Frame}
    (reads : ∀ link ∈ links, Reading link.1 link.2 (sent link.1) s) :
    ∃ events next, (∀ event ∈ events, delivers event = true) ∧ Runs.run Links.step s events = some next ∧
      (∀ link ∈ links, Reading link.1 link.2 (sent link.1) next) ∧ ∀ link ∈ links, untaken link.1 link.2 next = 0 := by
  refine Runs.exhaust_each links ?_ reads
  intro s reads link member left
  obtain ⟨next,after,stepped,took⟩ := byte_step (reads link member) left
  refine ⟨[.byte link.1],next,by simp [delivers],by simp [Runs.run,stepped],?_,?_,fun other _ => ?_⟩
  · exact fun other listed => took.keeps (reads other listed)
  · rw [took.untaken,if_pos rfl]
    omega
  · rw [took.untaken]
    exact Nat.sub_le _ _

structure Popping (place : End) (bytes : List UInt8) (s : Network) : Prop where
  inv : Relaying.Invariant s
  runs : running s place
  incoming : s.incoming place = bytes

def waiting (place : End) (s : Network) : Nat := (s.nodes place.1).owners.mMessagesIn.length

theorem pop_step {s : Network} (inv : Relaying.Invariant s) (runs : running s place) (left : 0 < waiting place s) :
    ∃ next, Links.step s (.act place.1 .popFront) = some next ∧ Relaying.Invariant next ∧
      (∀ other, running s other → running next other) ∧
      (∀ other, next.incoming other = s.incoming other) ∧
      ∀ other, waiting other next = waiting other s - if other.1 = place.1 then 1 else 0 := by
  obtain ⟨owned,rest,queue⟩ := List.exists_cons_of_length_pos left
  let owners : Owners := {(s.nodes place.1).owners with
    mMessagesIn := rest, locals := (s.nodes place.1).owners.locals ++ [owned.remote]}
  let after : Node := ⟨owners,(s.nodes place.1).popped ++ [owned]⟩
  have acted : (s.nodes place.1).step .popFront = some after := by
    rw [running] at runs
    simp [Node.step,runs,serves,PeerLifetime.step,queue,Node.takesOff,owners,after]
  have stepped : Links.step s (.act place.1 .popFront) = some (s.put place.1 after) := by
    simp only [Links.step,alone,if_true,acted,Option.map_some]
  have objects (other : End) : (s.put place.1 after).object other = s.object other := by
    rw [put_object]
    split
    · rename_i node
      rw [Network.object,node]
    · rfl
  have wires : (s.put place.1 after).wire = s.wire := by
    funext other
    rw [Network.wire,objects,Network.wire]
  refine ⟨_,stepped,Relaying.step_invariant s _ _ inv stepped,fun other lasts => ?_,fun other => ?_,fun other => ?_⟩
  · simp only [running,Network.put,Function.update_apply]
    split
    · exact runs
    · exact lasts
  · rw [Network.incoming,Network.incoming,wires]
    rfl
  · simp only [waiting,Network.put,Function.update_apply]
    split
    · rename_i node
      rw [node,queue,List.length_cons,Nat.add_sub_cancel]
    · rfl

theorem pops_run (bytes : End → List UInt8) {s : Network} {links : List (End × End)}
    (pops : ∀ link ∈ links, Popping link.1 (bytes link.1) s) :
    ∃ events next, (∀ event ∈ events, delivers event = true) ∧ Runs.run Links.step s events = some next ∧
      (∀ link ∈ links, Popping link.1 (bytes link.1) next) ∧ ∀ link ∈ links, waiting link.1 next = 0 := by
  refine Runs.exhaust_each links ?_ pops
  intro s pops link member left
  obtain ⟨next,stepped,inv,lasting,incoming,less⟩ := pop_step (pops link member).inv (pops link member).runs left
  refine ⟨[.act link.1.1 .popFront],next,by simp [delivers,flushes],by simp [Runs.run,stepped],?_,?_,fun other _ => ?_⟩
  · exact fun other listed =>
      ⟨inv,lasting other.1 (pops other listed).runs,(incoming other.1).trans (pops other listed).incoming⟩
  · rw [less,if_pos rfl]
    omega
  · rw [less]
    exact Nat.sub_le _ _

-- What a peer has been told to send, posted or not.
def told (s : Network) (place : End) : List NetMessage :=
  (s.object place).elim [] fun object => object.sender.posted ++ object.sender.handlers

structure Live (s : Network) (place source : End) : Prop where
  writer : ∃ object, s.object source = some object ∧ object.sender.isOpen = true ∧ object.sender.failed = false
  reader : ∃ object, s.object place = some object ∧ object.receiver.reading.isSome = true
  owned : 0 < useCount s place ∧ 0 < useCount s source
  runs : running s place ∧ running s source

theorem reader_kept {s next : Network} (rewritten : Rewritten s next source after)
    (found : s.object source = some object)
    (same : after.receiver.reading = object.receiver.reading)
    (reader : ∃ object, s.object place = some object ∧ object.receiver.reading.isSome = true) :
    ∃ object, next.object place = some object ∧ object.receiver.reading.isSome = true := by
  obtain ⟨one,present,reading⟩ := reader
  by_cases here : place = source
  · subst here
    cases found.symm.trans present
    exact ⟨after,rewritten.here,by rw [same]; exact reading⟩
  · exact ⟨one,(rewritten.elsewhere place here).trans present,reading⟩

-- A link that can carry what its one end has been told.
structure Carries (s : Network) (place source : End) (sent : List Frame) : Prop where
  linked : s.other place = some source
  live : Live s place source
  framed : told s source = sent.map Frame.toNetMessage

-- A peer that has got everything it has been told on the wire, and nobody else has moved.
structure Wrote (s next : Network) (source : End) (after : Object) : Prop where
  inv : Relaying.Invariant next
  rewritten : Rewritten s next source after
  flowing : Flushing.Flowing (told s source) after.sender
  none : Flushing.unflushed after.sender = 0
  reader : ∃ object, s.object source = some object ∧ after.receiver.reading = object.receiver.reading

theorem write_run {s : Network} (inv : Relaying.Invariant s) (carries : Carries s place source sent) :
    ∃ events next after, (∀ event ∈ events, delivers event = true) ∧ Runs.run Links.step s events = some next ∧
      Wrote s next source after := by
  obtain ⟨object,found,isOpen,alive⟩ := carries.live.writer
  have framed : object.sender.posted ++ object.sender.handlers = told s source := by rw [told,found,Option.elim_some]
  obtain ⟨events,sender,kinds,flushed,flowing,none⟩ := flush ⟨inv.senders source object found,isOpen,alive,framed⟩
  obtain ⟨next,after,ran,rewritten,rfl,same⟩ := flush_run found carries.live.owned.2 carries.live.runs.2 kinds flushed
  refine ⟨_,next,after,fun event member => ?_,ran,Runs.invariant Relaying.step_invariant inv ran,rewritten,flowing,
    none,object,found,same⟩
  obtain ⟨write,listed,rfl⟩ := List.mem_map.mp member
  exact kinds write listed

theorem Wrote.keeps {s next : Network} (wrote : Wrote s next one after) (carries : Carries s place source sent) :
    Carries next place source sent := by
  obtain ⟨linked,⟨⟨object,found,isOpen,alive⟩,reader,owned,runs⟩,framed⟩ := carries
  obtain ⟨before,present,same⟩ := wrote.reader
  have counted (other : End) (owned : 0 < useCount s other) : 0 < useCount next other :=
    Nat.lt_of_lt_of_le owned (wrote.rewritten.owned other)
  refine ⟨wrote.rewritten.linked ▸ linked,⟨?_,reader_kept wrote.rewritten present same reader,
    ⟨counted place owned.1,counted source owned.2⟩,
    ⟨wrote.rewritten.lasting place runs.1,wrote.rewritten.lasting source runs.2⟩⟩,?_⟩
  · by_cases here : source = one
    · rw [here]
      exact ⟨after,wrote.rewritten.here,wrote.flowing.isOpen,wrote.flowing.alive⟩
    · exact ⟨object,(wrote.rewritten.elsewhere source here).trans found,isOpen,alive⟩
  · rw [← framed]
    by_cases here : source = one
    · rw [here,told,wrote.rewritten.here,Option.elim_some,wrote.flowing.told]
    · rw [told,told,wrote.rewritten.elsewhere source here]

def unwritten (s : Network) (source : End) : Nat :=
  (s.object source).elim 0 fun object => Flushing.unflushed object.sender

theorem Wrote.unwritten {s next : Network} (wrote : Wrote s next one after) (source : End) :
    Delivery.unwritten next source = if source = one then 0 else Delivery.unwritten s source := by
  rw [Delivery.unwritten,Delivery.unwritten]
  split
  · rename_i here
    rw [here,wrote.rewritten.here,Option.elim_some,wrote.none]
  · rename_i away
    rw [wrote.rewritten.elsewhere source away]

theorem writes_run {s : Network} {links : List (End × End)} {sent : End → List Frame} (inv : Relaying.Invariant s)
    (carry : ∀ link ∈ links, Carries s link.1 link.2 (sent link.1)) :
    ∃ events next, (∀ event ∈ events, delivers event = true) ∧ Runs.run Links.step s events = some next ∧
      (Relaying.Invariant next ∧ ∀ link ∈ links, Carries next link.1 link.2 (sent link.1)) ∧
      ∀ link ∈ links, unwritten next link.2 = 0 := by
  have start := And.intro inv carry
  refine Runs.exhaust_each links ?_ start
  rintro s ⟨inv,carry⟩ link member left
  obtain ⟨events,next,after,kinds,ran,wrote⟩ := write_run inv (carry link member)
  refine ⟨events,next,kinds,ran,⟨wrote.inv,fun other listed => wrote.keeps (carry other listed)⟩,?_,fun other _ => ?_⟩
  · rw [wrote.unwritten,if_pos rfl]
    exact left
  · rw [wrote.unwritten]
    split
    · exact Nat.zero_le _
    · exact Nat.le_refl _

theorem carries_reading {s : Network} (inv : Relaying.Invariant s) (carries : Carries s place source sent)
    (none : unwritten s source = 0) : Reading place source sent s := by
  obtain ⟨linked,⟨⟨object,found,isOpen,alive⟩,reader,owned,runs⟩,framed⟩ := carries
  rw [unwritten,found,Option.elim_some,Flushing.unflushed] at none
  rw [told,found,Option.elim_some,List.length_eq_zero_iff.mp (show object.sender.handlers.length = 0 by omega),
    List.append_nil] at framed
  refine ⟨inv,linked,reader,owned.1,runs.1,?_⟩
  rw [Network.wire,found,Option.elim_some,PeerSend.wire_complete (inv.senders source object found)
    (List.length_eq_zero_iff.mp (show object.sender.messagesOut.length = 0 by omega)),framed,List.flatMap_map]

-- All links that can carry what they have been told can do so together.
theorem links_carried (sent : End → List Frame) {s : Network} {links : List (End × End)} (inv : Relaying.Invariant s)
    (carry : ∀ link ∈ links, Carries s link.1 link.2 (sent link.1)) :
    ∃ (more : List Links.Event) (next : Network), (∀ event ∈ more, delivers event = true) ∧
      Runs.run Links.step s more = some next ∧
      ∀ link ∈ links, next.poppedFrom link.1 = deliveries .empty (sent link.1) := by
  obtain ⟨first,written,ofWrites,wrote,⟨kept,carried⟩,flushed⟩ := writes_run inv carry
  have reads (link : End × End) (member : link ∈ links) : Reading link.1 link.2 (sent link.1) written :=
    carries_reading kept (carried link member) (flushed link member)
  obtain ⟨second,taken,ofBytes,took,read,none⟩ := bytes_run reads
  have pops (link : End × End) (member : link ∈ links) :
      Popping link.1 ((sent link.1).flatMap fun frame => frame.wire) taken := by
    have reading := read link member
    have all := none link member
    unfold untaken at all
    refine ⟨reading.inv,reading.runs,?_⟩
    rw [Network.incoming,reading.linked,Option.elim_some,List.take_of_length_le (by omega),reading.wire]
  obtain ⟨third,next,ofPops,popped,popping,empty⟩ :=
    pops_run (fun place => (sent place).flatMap fun frame => frame.wire) pops
  refine ⟨first ++ second ++ third,next,?_,by simp [Runs.run_append,wrote,took,popped],fun link member => ?_⟩
  · exact List.forall_mem_append.mpr ⟨List.forall_mem_append.mpr ⟨ofWrites,ofBytes⟩,ofPops⟩
  · obtain ⟨inv,_,incoming⟩ := popping link member
    have queue : (next.nodes link.1.1).owners.mMessagesIn = [] := List.length_eq_zero_iff.mp (empty link member)
    rw [poppedFrom_drained inv link.1 (by rw [queue]; rfl),incoming,Streams.frames_all]

-- However a run has gone, what a live link has been told to carry can be brought to the pump.
theorem carried (place source : End) (sent : List Frame) (events : List Links.Event)
    (ran : Runs.run Links.step Links.fresh events = some s) (linked : s.other place = some source)
    (live : Live s place source) (framed : told s source = sent.map Frame.toNetMessage) :
    ∃ (more : List Links.Event) (next : Network), (∀ event ∈ more, delivers event = true) ∧
      Runs.run Links.step Links.fresh (events ++ more) = some next ∧
      next.poppedFrom place = deliveries .empty sent := by
  have carry : ∀ link ∈ [(place,source)], Carries s link.1 link.2 sent := by
    simpa using ⟨linked,live,framed⟩
  obtain ⟨more,next,kinds,went,popped⟩ := links_carried (fun _ => sent) (run_invariant ran) carry
  exact ⟨more,next,kinds,by rw [Runs.run_append,ran]; exact went,popped (place,source) (List.mem_singleton_self _)⟩

def pinged : Frame := ⟨PeerSend.ping,rfl⟩

-- Node 0 dials node 1 and tells it of a ping; nothing more has been done.
theorem carried_ping : ∃ (more : List Links.Event) (next : Network), (∀ event ∈ more, delivers event = true) ∧
    Runs.run Links.step Links.fresh ([.dial 0 1 PeerSend.ping.header,.accept 0 PeerSend.ping.header,
      .act 0 (.sender 0 (.send PeerSend.ping))] ++ more) = some next ∧ next.poppedFrom (1,0) = [PeerSend.ping] :=
  carried (1,0) (0,0) [pinged] _ rfl rfl ⟨⟨_,rfl,rfl,rfl⟩,⟨_,rfl,rfl⟩,by decide,rfl,rfl⟩ rfl

end Keyser.Delivery
