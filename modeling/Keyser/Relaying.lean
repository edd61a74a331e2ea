import Keyser.LinkSteps

namespace Keyser.Relaying
open Framing Links LinkSteps
open PeerReceive (OwnedMessage Arrival deliveries deliveries_iff BodylessFirst)
open PeerLifetime (Object Owners)

structure Invariant (s : Network) : Prop where
  senders : ∀ place object, s.object place = some object → PeerSend.Invariant object.sender
  reads : ∀ place object, s.object place = some object → Reads place.2 (s.incoming place) object.receiver
  pushed : ∀ place, (s.nodes place.1).pushedBy place.2 = (s.object place).elim [] (·.receiver.pushed)
  paired : ∀ place source, s.other place = some source → s.other source = some place ∧ (s.object place).isSome = true
  within : ∀ place, s.taken place ≤ ((s.other place).elim [] s.wire).length
  dialled : ∀ call ∈ s.dialled, s.other call.1 = none ∧ (s.object call.1).isSome = true
  once : (s.dialled.map Prod.fst).Nodup

theorem fresh_invariant : Invariant fresh := by
  refine ⟨?_,?_,fun place => rfl,nofun,fun place => Nat.le_refl 0,by simp [fresh],List.nodup_nil⟩
  · intro place object found
    simp [Network.object,fresh,PeerLifetime.fresh] at found
  · intro place object found
    simp [Network.object,fresh,PeerLifetime.fresh] at found

-- Every step but the arrival of a byte: nothing comes in anywhere.
structure Proceeds (s next : Network) : Prop where
  objects : ∀ place : End, Kept place.2 (s.object place) (next.object place)
  pushed : ∀ place : End, (next.nodes place.1).pushedBy place.2 = (s.nodes place.1).pushedBy place.2
  taken : next.taken = s.taken

theorem put_object (s : Network) (node : Nat) (after : Node) (place : End) : (s.put node after).object place =
    if place.1 = node then after.owners.objects[place.2]? else s.object place := by
  simp only [Network.object,Network.put,Function.update_apply]
  split <;> rfl

-- A step that sets the object of one place.
theorem put_here {s : Network} (objects : after.owners.objects = (s.nodes place.1).owners.objects.set place.2 object)
    (found : (s.object place).isSome = true) : (s.put place.1 after).object place = some object := by
  obtain ⟨before,found⟩ := Option.isSome_iff_exists.mp found
  rw [put_object,if_pos rfl,objects,List.getElem?_set_self (List.getElem?_eq_some_iff.mp found).1]

theorem put_elsewhere {s : Network}
    (objects : after.owners.objects = (s.nodes place.1).owners.objects.set place.2 object) (away : other ≠ place) :
    (s.put place.1 after).object other = s.object other := by
  rw [put_object]
  split
  · rename_i node
    rw [objects,List.getElem?_set_ne fun same => away (Prod.ext node same.symm),Network.object,node]
  · rfl

theorem put_progresses {s : Network} (progresses : Progresses (s.nodes node) after) :
    Proceeds s (s.put node after) := by
  refine ⟨fun place => ?_,fun place => ?_,rfl⟩
  · rw [put_object]
    split
    · rename_i here
      rw [Network.object,here]
      exact progresses.objects place.2
    · exact kept_refl _ _
  · simp only [Network.put,Function.update_apply]
    split
    · rename_i here
      rw [Node.pushedBy,progresses.queue,here]
      rfl
    · rfl

theorem begun_invariant (begun : Begun peer object) :
    PeerSend.Invariant object.sender ∧ object.receiver.pushed = [] := by
  obtain ⟨⟨isOpen,sender⟩,header,pushed,_⟩ := begun
  refine ⟨?_,pushed⟩
  rw [sender]
  exact PeerSend.fresh_invariant isOpen

theorem kept_isSome (kept : Kept peer object after) (found : object.isSome = true) : after.isSome = true := by
  cases kept with
  | none => exact found
  | moved | begun => rfl

theorem wire_grows {s next : Network} (inv : Invariant s) (progresses : Proceeds s next) (place : End) :
    s.wire place <+: next.wire place := by
  have kept := progresses.objects place
  unfold Network.wire
  cases found : s.object place with
  | none => exact List.nil_prefix
  | some object =>
      cases later : next.object place with
      | none => rw [found,later] at kept; cases kept
      | some after =>
          rw [found,later] at kept
          cases kept with
          | moved moved => exact (moved_sender moved (inv.senders place object found)).2.1

-- The bytes that an end has taken do not change when more are written.
theorem incoming_kept {s next : Network} (inv : Invariant s) (progresses : Proceeds s next) (place : End)
    (same : next.other place = s.other place) : next.incoming place = s.incoming place ∧
      next.taken place ≤ ((next.other place).elim [] next.wire).length := by
  have within := inv.within place
  unfold Network.incoming
  rw [same,progresses.taken]
  cases found : s.other place with
  | none =>
      rw [found] at within
      exact ⟨rfl,within⟩
  | some source =>
      rw [found] at within
      obtain ⟨more,grown⟩ := wire_grows inv progresses source
      simp only [Option.elim_some] at within ⊢
      rw [← grown,List.take_append_of_le_length within,List.length_append]
      exact ⟨rfl,by omega⟩

theorem absent_unlinked {s : Network} (inv : Invariant s) (absent : s.object place = none) : s.other place = none := by
  cases linked : s.other place with
  | none => rfl
  | some source =>
      have found := (inv.paired place source linked).2
      rw [absent] at found
      cases found

theorem unlinked_incoming {s : Network} (unlinked : s.other place = none) : s.incoming place = [] := by
  rw [Network.incoming,unlinked]
  exact List.take_nil

theorem progresses_pushed {s next : Network} (inv : Invariant s) (progresses : Proceeds s next) (place : End) :
    (next.nodes place.1).pushedBy place.2 = (next.object place).elim [] (·.receiver.pushed) := by
  have kept := progresses.objects place
  rw [progresses.pushed,inv.pushed]
  cases before : s.object place with
  | none =>
      rw [before] at kept
      cases later : next.object place with
      | none => rfl
      | some after =>
          rw [later] at kept
          cases kept with
          | begun begun => exact (begun_invariant begun).2.symm
  | some object =>
      rw [before] at kept
      cases later : next.object place with
      | none => rw [later] at kept; cases kept
      | some after =>
          rw [later] at kept
          cases kept with
          | moved moved => exact (moved_receiver moved (inv.reads place object before)).2.symm

theorem progresses_invariant {s next : Network} (inv : Invariant s) (progresses : Proceeds s next)
    (other : next.other = s.other) (dialled : next.dialled = s.dialled) : Invariant next := by
  have incoming (place : End) := incoming_kept inv progresses place (by rw [other])
  refine ⟨?_,?_,progresses_pushed inv progresses,?_,fun place => (incoming place).2,?_,by rw [dialled]; exact inv.once⟩
  · intro place after found
    have kept := progresses.objects place
    rw [found] at kept
    cases before : s.object place with
    | none =>
        rw [before] at kept
        cases kept with
        | begun begun => exact (begun_invariant begun).1
    | some object =>
        rw [before] at kept
        cases kept with
        | moved moved => exact (moved_sender moved (inv.senders place object before)).1
  · intro place after found
    have kept := progresses.objects place
    rw [found] at kept
    rw [(incoming place).1]
    cases before : s.object place with
    | none =>
        rw [before] at kept
        rw [unlinked_incoming (absent_unlinked inv before)]
        cases kept with
        | begun begun => exact begun.2
    | some object =>
        rw [before] at kept
        cases kept with
        | moved moved => exact (moved_receiver moved (inv.reads place object before)).1
  · intro place source found
    rw [other] at found ⊢
    exact ⟨(inv.paired place source found).1,kept_isSome (progresses.objects place) (inv.paired place source found).2⟩
  · intro call member
    rw [dialled] at member
    rw [other]
    exact ⟨(inv.dialled call member).1,kept_isSome (progresses.objects call.1) (inv.dialled call member).2⟩

theorem dial_invariant {s : Network} (inv : Invariant s) (call : End × Nat) (unlinked : s.other call.1 = none)
    (found : (s.object call.1).isSome = true) (new : call.1 ∉ s.dialled.map Prod.fst) :
    Invariant {s with dialled := s.dialled ++ [call]} := by
  refine ⟨inv.senders,inv.reads,inv.pushed,inv.paired,inv.within,?_,?_⟩
  · intro other member
    rcases List.mem_append.mp member with old | last
    · exact inv.dialled other old
    · rw [List.mem_singleton.mp last]
      exact ⟨unlinked,found⟩
  · have distinct : (s.dialled.map Prod.fst ++ [call.1]).Nodup := by
      rw [List.nodup_append]
      exact ⟨inv.once,List.nodup_singleton _,fun one member two last => by
        rw [List.mem_singleton.mp last]
        rintro rfl
        exact new member⟩
    simpa using distinct

def linkedTo (s : Network) (dialler accepted : End) : End → Option End :=
  Function.update (Function.update s.other dialler (some accepted)) accepted (some dialler)

theorem linkedTo_accepted {s : Network} : linkedTo s dialler accepted accepted = some dialler :=
  Function.update_self ..

theorem linkedTo_dialler {s : Network} (differ : accepted ≠ dialler) :
    linkedTo s dialler accepted dialler = some accepted := by
  rw [linkedTo,Function.update_of_ne differ.symm,Function.update_self]

theorem linkedTo_elsewhere {s : Network} (one : place ≠ accepted) (two : place ≠ dialler) :
    linkedTo s dialler accepted place = s.other place := by
  rw [linkedTo,Function.update_of_ne one,Function.update_of_ne two]

-- Two ends without a link are linked with each other, and nobody else was with them.
theorem linkedTo_paired {s : Network} (inv : Invariant s) (differ : accepted ≠ dialler)
    (unlinked : s.other accepted = none) (present : (s.object accepted).isSome = true)
    (free : s.other dialler = none) (there : (s.object dialler).isSome = true)
    (joined : linkedTo s dialler accepted place = some source) :
    linkedTo s dialler accepted source = some place ∧ (s.object place).isSome = true := by
  by_cases one : place = accepted
  · rw [one,linkedTo_accepted] at joined
    cases joined
    rw [one]
    exact ⟨linkedTo_dialler differ,present⟩
  · by_cases two : place = dialler
    · rw [two,linkedTo_dialler differ] at joined
      cases joined
      rw [two]
      exact ⟨linkedTo_accepted,there⟩
    · rw [linkedTo_elsewhere one two] at joined
      obtain ⟨back,exist⟩ := inv.paired place source joined
      rw [linkedTo_elsewhere]
      · exact ⟨back,exist⟩
      · rintro rfl
        rw [unlinked] at back
        cases back
      · rintro rfl
        rw [free] at back
        cases back

-- Neither of the two has taken a byte when they are linked.
theorem linkedTo_incoming {s : Network} (inv : Invariant s) (unlinked : s.other accepted = none)
    (free : s.other dialler = none) (place : End) :
    ((linkedTo s dialler accepted place).elim [] s.wire).take (s.taken place) = s.incoming place ∧
      s.taken place ≤ ((linkedTo s dialler accepted place).elim [] s.wire).length := by
  have taken (place : End) (free : s.other place = none) : s.taken place = 0 := by
    have within := inv.within place
    rw [free] at within
    exact Nat.le_zero.mp within
  by_cases one : place = accepted
  · rw [one,unlinked_incoming unlinked,taken accepted unlinked]
    exact ⟨rfl,Nat.zero_le _⟩
  · by_cases two : place = dialler
    · rw [two,unlinked_incoming free,taken dialler free]
      exact ⟨rfl,Nat.zero_le _⟩
    · rw [linkedTo_elsewhere one two]
      exact ⟨rfl,inv.within place⟩

theorem link_invariant {s : Network} (inv : Invariant s) (found : s.dialled[position]? = some (dialler,listener))
    (unlinked : s.other accepted = none) (present : (s.object accepted).isSome = true)
    (uncalled : accepted ∉ s.dialled.map Prod.fst) :
    Invariant {s with dialled := s.dialled.eraseIdx position, other := linkedTo s dialler accepted} := by
  have member : (dialler,listener) ∈ s.dialled := List.mem_of_getElem? found
  obtain ⟨free,there⟩ := inv.dialled _ member
  have differ : accepted ≠ dialler := by
    rintro rfl
    exact uncalled (List.mem_map_of_mem member)
  have incoming := linkedTo_incoming inv unlinked free
  refine ⟨inv.senders,?_,inv.pushed,fun _ _ => linkedTo_paired inv differ unlinked present free there,
    fun place => (incoming place).2,?_,inv.once.sublist ((List.eraseIdx_sublist _ _).map _)⟩
  · intro place object object_found
    have reads := inv.reads place object object_found
    rw [← (incoming place).1] at reads
    exact reads
  · intro call still
    obtain ⟨other,away,listed⟩ := List.mem_eraseIdx_iff_getElem?.mp still
    have calls : (s.dialled.map Prod.fst)[other]? = some call.1 := by simp [listed]
    have dials : (s.dialled.map Prod.fst)[position]? = some dialler := by simp [found]
    have one : call.1 ≠ accepted := by
      intro same
      exact uncalled (same ▸ List.mem_of_getElem? calls)
    have two : call.1 ≠ dialler := by
      intro same
      rw [same,← dials] at calls
      exact away ((List.getElem?_inj (List.getElem?_eq_some_iff.mp (calls.trans dials)).1 inv.once).mp calls)
    have before := inv.dialled call (List.mem_of_getElem? listed)
    exact ⟨(linkedTo_elsewhere one two).trans before.1,before.2⟩

-- The arrival of a byte at an end, as the node's step has it.
structure Takes (s : Network) (place : End) (value : UInt8) (after : Node) (object moved : Object) : Prop where
  found : s.object place = some object
  objects : after.owners.objects = (s.nodes place.1).owners.objects.set place.2 moved
  queue : after.popped ++ after.owners.mMessagesIn = (s.nodes place.1).popped ++ (s.nodes place.1).owners.mMessagesIn ++
    moved.receiver.pushed.drop object.receiver.pushed.length
  reads : Reads place.2 (s.incoming place ++ [value]) moved.receiver
  grows : object.receiver.pushed <+: moved.receiver.pushed
  sender : moved.sender = {object.sender with isOpen := moved.receiver.isOpen}

theorem byte_takes {s : Network} (inv : Invariant s)
    (stepped : (s.nodes place.1).step (.arrive place.2 (.byte value)) = some after) :
    ∃ object moved, Takes s place value after object moved := by
  obtain ⟨object,moved,found,arrived,objects,queue⟩ := arrive_stepped stepped
  obtain ⟨reading,receiver,sender⟩ := arrive_moves arrived
  obtain ⟨reads,grows⟩ := reads_byte (inv.reads place object found) reading value
  rw [← receiver] at reads grows
  exact ⟨object,moved,found,objects,queue,reads,grows,sender⟩

theorem Takes.here {s : Network} (takes : Takes s place value after object moved) :
    (s.put place.1 after).object place = some moved :=
  put_here takes.objects (by rw [takes.found]; rfl)

theorem Takes.elsewhere {s : Network} (takes : Takes s place value after object moved) (away : other ≠ place) :
    (s.put place.1 after).object other = s.object other :=
  put_elsewhere takes.objects away

theorem Takes.wire {s : Network} (takes : Takes s place value after object moved) :
    (s.put place.1 after).wire = s.wire := by
  funext other
  unfold Network.wire
  by_cases same : other = place
  · rw [same,takes.here,takes.found]
    simp [takes.sender]
  · rw [takes.elsewhere same]

theorem Takes.present {s : Network} (takes : Takes s place value after object moved)
    (exist : (s.object other).isSome = true) : ((s.put place.1 after).object other).isSome = true := by
  by_cases same : other = place
  · rw [same,takes.here]
    rfl
  · rw [takes.elsewhere same]
    exact exist

-- What has been pushed is the peer's of the place, and no other peer's.
theorem Takes.pushed {s : Network} (takes : Takes s place value after object moved) (inv : Invariant s) (other : End) :
    (Function.update s.nodes place.1 after other.1).pushedBy other.2 =
      ((s.put place.1 after).object other).elim [] (·.receiver.pushed) := by
  have remote := reads_remote takes.reads
  obtain ⟨more,grown⟩ := takes.grows
  by_cases node : other.1 = place.1
  · have pushed : after.pushedBy other.2 =
        (s.nodes other.1).pushedBy other.2 ++ more.filter fun owned => decide (owned.remote = other.2) := by
      rw [Node.pushedBy,takes.queue,List.filter_append,node,← grown,List.drop_left]
      rfl
    have mine (owned : OwnedMessage Nat) (member : owned ∈ more) : owned.remote = place.2 :=
      remote owned (grown ▸ List.mem_append_right _ member)
    rw [Function.update_apply,if_pos node,pushed,inv.pushed]
    by_cases same : other = place
    · rw [same,takes.found,takes.here,Option.elim_some,Option.elim_some,List.filter_eq_self.mpr,grown]
      exact fun owned member => decide_eq_true (mine owned member)
    · rw [takes.elsewhere same,List.filter_eq_nil_iff.mpr,List.append_nil]
      intro owned member claims
      exact same (Prod.ext node ((of_decide_eq_true claims).symm.trans (mine owned member)))
  · rw [Function.update_of_ne node,inv.pushed,takes.elsewhere fun same => node (by rw [same])]

-- One byte more has come in.
theorem incoming_next {s : Network} (linked : s.other place = some source)
    (there : (s.wire source)[s.taken place]? = some value) :
    s.incoming place ++ [value] = (s.wire source).take (s.taken place + 1) := by
  rw [Network.incoming,linked,Option.elim_some,List.take_add_one,there]
  rfl

theorem byte_invariant {s : Network} (inv : Invariant s) (linked : s.other place = some source)
    (there : (s.wire source)[s.taken place]? = some value)
    (stepped : (s.nodes place.1).step (.arrive place.2 (.byte value)) = some after) :
    Invariant {s.put place.1 after with taken := Function.update s.taken place (s.taken place + 1)} := by
  obtain ⟨object,moved,takes⟩ := byte_takes inv stepped
  refine ⟨?_,?_,takes.pushed inv,?_,?_,?_,inv.once⟩
  · intro other one present
    by_cases same : other = place
    · rw [same] at present
      cases takes.here.symm.trans present
      rw [takes.sender]
      exact PeerSend.invariant_frame (inv.senders place object takes.found) _ _
    · exact inv.senders other one ((takes.elsewhere same).symm.trans present)
  · intro other one present
    show Reads other.2 (((s.other other).elim [] (s.put place.1 after).wire).take
      (Function.update s.taken place (s.taken place + 1) other)) one.receiver
    rw [takes.wire]
    by_cases same : other = place
    · rw [same] at present ⊢
      cases takes.here.symm.trans present
      rw [Function.update_self,linked,Option.elim_some,← incoming_next linked there]
      exact takes.reads
    · rw [Function.update_of_ne same]
      exact inv.reads other one ((takes.elsewhere same).symm.trans present)
  · intro other far joined
    obtain ⟨back,exist⟩ := inv.paired other far joined
    exact ⟨back,takes.present exist⟩
  · intro other
    show Function.update s.taken place (s.taken place + 1) other ≤
      ((s.other other).elim [] (s.put place.1 after).wire).length
    rw [takes.wire]
    by_cases same : other = place
    · rw [same,Function.update_self,linked]
      exact (List.getElem?_eq_some_iff.mp there).1
    · rw [Function.update_of_ne same]
      exact inv.within other
  · intro call member
    obtain ⟨free,exist⟩ := inv.dialled call member
    exact ⟨free,takes.present exist⟩

-- The place of an object that is made has not been there before.
theorem made_place {s : Network} (inv : Invariant s) (node : Nat)
    (objects : after.owners.objects = (s.nodes node).owners.objects ++ [object]) :
    s.other (node,(s.nodes node).owners.objects.length) = none ∧
      (node,(s.nodes node).owners.objects.length) ∉ s.dialled.map Prod.fst ∧
      ((s.put node after).object (node,(s.nodes node).owners.objects.length)).isSome = true := by
  have absent : s.object (node,(s.nodes node).owners.objects.length) = none :=
    List.getElem?_eq_none (Nat.le_refl _)
  refine ⟨absent_unlinked inv absent,?_,?_⟩
  · intro listed
    obtain ⟨call,member,isPlace⟩ := List.mem_map.mp listed
    have exist := (inv.dialled call member).2
    rw [isPlace,absent] at exist
    cases exist
  · rw [put_object,if_pos rfl,objects,List.getElem?_concat_length]
    rfl

theorem step_invariant (s : Network) (event : Event) (next : Network) (inv : Invariant s)
    (stepped : step s event = some next) : Invariant next := by
  cases event with
  | act node event =>
      simp only [step] at stepped
      split at stepped
      · rename_i own
        obtain ⟨after,acted,rfl⟩ := Option.map_eq_some_iff.mp stepped
        refine progresses_invariant inv (put_progresses (step_progresses acted ?_)) rfl rfl
        rintro peer value rfl
        cases own
      · cases stepped
  | byte place =>
      simp only [step] at stepped
      obtain ⟨source,linked,taken⟩ := Option.bind_eq_some_iff.mp stepped
      obtain ⟨value,there,arrived⟩ := Option.bind_eq_some_iff.mp taken
      obtain ⟨after,acted,rfl⟩ := Option.map_eq_some_iff.mp arrived
      exact byte_invariant inv linked there acted
  | dial node listener header =>
      simp only [step] at stepped
      obtain ⟨after,acted,rfl⟩ := Option.map_eq_some_iff.mp stepped
      have progressed := progresses_invariant inv (put_progresses (step_progresses acted fun _ _ same => by cases same)) rfl rfl
      obtain ⟨unlinked,uncalled,found⟩ := made_place inv node
        (congrArg Owners.objects (Option.some.inj (node_stepped acted).1)).symm
      exact dial_invariant progressed (_,listener) unlinked found uncalled
  | accept position header =>
      simp only [step] at stepped
      obtain ⟨⟨dialler,listener⟩,found,accepted⟩ := Option.bind_eq_some_iff.mp stepped
      obtain ⟨after,acted,rfl⟩ := Option.map_eq_some_iff.mp accepted
      have progressed := progresses_invariant inv (put_progresses (step_progresses acted fun _ _ same => by cases same)) rfl rfl
      obtain ⟨unlinked,uncalled,present⟩ := made_place inv listener
        (congrArg Owners.objects (Option.some.inj (node_stepped acted).1)).symm
      exact link_invariant progressed found unlinked present uncalled

theorem run_invariant (ran : Runs.run step fresh events = some s) : Invariant s :=
  Runs.invariant step_invariant fresh_invariant ran

theorem incoming_posted {s : Network} (inv : Invariant s) (linked : s.other place = some source) :
    s.incoming place <+: (s.posted source).flatMap NetMessage.wire := by
  rw [Network.incoming,linked,Option.elim_some,Network.wire,Network.posted]
  cases found : s.object source with
  | none => exact (List.take_prefix _ _).trans List.nil_prefix
  | some object => exact (List.take_prefix _ _).trans (PeerSend.wire_posted (inv.senders source object found))

theorem pushedBy_incoming {s : Network} (inv : Invariant s) (place : End) :
    ((s.nodes place.1).pushedBy place.2).map OwnedMessage.msg =
      deliveries .empty (Streams.frames (s.incoming place)) := by
  rw [inv.pushed]
  cases found : s.object place with
  | none =>
      rw [unlinked_incoming (absent_unlinked inv found),Streams.frames_short (by simp)]
      rfl
  | some object =>
      obtain ⟨header,pushed,_⟩ := inv.reads place object found
      rw [Option.elim_some,pushed,Streams.fresh_stream place.2 header _,List.map_map]
      exact List.map_id' _

theorem poppedFrom_incoming {s : Network} (inv : Invariant s) (place : End) :
    s.poppedFrom place <+: deliveries .empty (Streams.frames (s.incoming place)) := by
  rw [← pushedBy_incoming inv place,Node.pushedBy,List.filter_append,List.map_append]
  exact List.prefix_append _ _

theorem poppedFrom_drained {s : Network} (inv : Invariant s) (place : End)
    (drained : (s.nodes place.1).owners.mMessagesIn.filter (fun owned => decide (owned.remote = place.2)) = []) :
    s.poppedFrom place = deliveries .empty (Streams.frames (s.incoming place)) := by
  rw [← pushedBy_incoming inv place,Node.pushedBy,List.filter_append,drained,List.append_nil]
  rfl

-- Nothing of the peer's messages is left to be written, taken or popped.
structure Settled (s : Network) (place source : End) : Prop where
  written : ∃ object, s.object source = some object ∧ object.sender.messagesOut = []
  taken : s.taken place = (s.wire source).length
  drained : (s.nodes place.1).owners.mMessagesIn.filter (fun owned => decide (owned.remote = place.2)) = []

theorem settled_incoming {s : Network} (inv : Invariant s) (linked : s.other place = some source)
    (settled : Settled s place source) : s.incoming place = (s.posted source).flatMap NetMessage.wire := by
  obtain ⟨object,found,empty⟩ := settled.written
  rw [Network.incoming,linked,Option.elim_some,settled.taken,List.take_length,Network.wire,Network.posted,found]
  exact PeerSend.wire_complete (inv.senders source object found) empty

-- What a pump takes is what the peer at the other end has posted, from the first message on.
structure Relays (s : Network) (place source : End) : Prop where
  parsed : s.poppedFrom place <+: deliveries .empty (Streams.frames ((s.posted source).flatMap NetMessage.wire))
  framed : ∀ sent : List Frame, s.posted source = sent.map Frame.toNetMessage →
    s.poppedFrom place <+: deliveries .empty sent
  exact : ∀ sent : List Frame, s.posted source = sent.map Frame.toNetMessage → BodylessFirst sent →
    s.poppedFrom place <+: s.posted source
  complete : Settled s place source →
    s.poppedFrom place = deliveries .empty (Streams.frames ((s.posted source).flatMap NetMessage.wire))

theorem frames_posted {sent : List Frame} (framed : posted = sent.map Frame.toNetMessage) :
    Streams.frames (posted.flatMap NetMessage.wire) = sent := by
  rw [framed,List.flatMap_map]
  exact Streams.frames_all sent

theorem link_relays {s : Network} (inv : Invariant s) (linked : s.other place = some source) :
    Relays s place source := by
  have parsed := (poppedFrom_incoming inv place).trans
    (Streams.deliveries_extend .empty (Streams.frames_extend (incoming_posted inv linked)))
  refine ⟨parsed,fun sent framed => ?_,fun sent framed first => ?_,fun settled => ?_⟩
  · rwa [frames_posted framed] at parsed
  · rw [frames_posted framed,(deliveries_iff .empty sent).mpr ⟨first,fun _ _ _ => rfl⟩,← framed] at parsed
    exact parsed
  · rw [poppedFrom_drained inv place settled.drained,settled_incoming inv linked settled]

structure Relayed (s : Network) : Prop where
  paired : ∀ place source, s.other place = some source → s.other source = some place
  linked : ∀ place source, s.other place = some source → Relays s place source
  stranger : ∀ place, s.other place = none → s.poppedFrom place = []

theorem relayed (events : List Event) (ran : Runs.run step fresh events = some s) : Relayed s := by
  have inv := run_invariant ran
  refine ⟨fun place source linked => (inv.paired place source linked).1,fun _ _ => link_relays inv,?_⟩
  intro place unlinked
  have taken := poppedFrom_incoming inv place
  rw [unlinked_incoming unlinked,Streams.frames_short (by simp)] at taken
  exact List.prefix_nil.mp taken

-- Node 0 dials node 1 and pings it.
theorem relayed_ping : ∃ s, Relayed s ∧ s.poppedFrom (1,0) = [PeerSend.ping] :=
  ⟨_,relayed ([.dial 0 1 PeerSend.ping.header,.accept 0 PeerSend.ping.header,
      .act 0 (.sender 0 (.send PeerSend.ping)),.act 0 (.sender 0 (.posted 0)),.act 0 (.sender 0 (.transmit 0 32))] ++
    List.replicate 32 (.byte (1,0)) ++ [.act 1 .popFront]) rfl,rfl⟩

end Keyser.Relaying
