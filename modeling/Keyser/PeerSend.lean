import Keyser.Framing
import Keyser.Runs

namespace Keyser.PeerSend
open Framing Memory

-- `serial` is the place of the message in the order of posting.
structure WriteOp where
  part : Part
  serial : Nat
  unsent : List UInt8
  deriving DecidableEq

-- `handlers` wait in the io_context. The last three fields are history.
structure Sender where
  isOpen : Bool
  handlers : List NetMessage
  messagesOut : List NetMessage
  writing : List WriteOp
  wire : List UInt8
  emptyFront : Bool
  posted : List NetMessage
  popped : Nat
  failed : Bool
  deriving DecidableEq

def fresh (isOpen : Bool) : Sender := ⟨isOpen,[],[],[],[],false,[],0,false⟩

-- front() and popFront() on an empty deque are undefined: `emptyFront` records one.
def Sender.writePart (s : Sender) (part : Part) (buffer : NetMessage → List UInt8) : Sender :=
  match s.messagesOut with
  | [] => {s with emptyFront := true}
  | msg :: _ => {s with writing := s.writing ++ [⟨part,s.popped,buffer msg⟩]}

def Sender.writeHeader (s : Sender) : Sender := s.writePart .header (·.header.bytes)

def Sender.writeBody (s : Sender) : Sender := s.writePart .body (·.body.bytes)

def Sender.popFront (s : Sender) : Sender :=
  match s.messagesOut with
  | [] => {s with emptyFront := true}
  | _ :: rest => {s with messagesOut := rest, popped := s.popped + 1}

-- The tail both write handlers share: drop the message and go on to the next.
def Sender.writeNext (s : Sender) : Sender :=
  let s := s.popFront
  if s.messagesOut.isEmpty then s else s.writeHeader

def Sender.onHeaderWritten (s : Sender) : Sender :=
  match s.messagesOut with
  | [] => {s with emptyFront := true}
  | msg :: _ => if 0 < msg.body.size then s.writeBody else s.writeNext

def Sender.onBodyWritten (s : Sender) : Sender := s.writeNext

def Sender.onWritten (s : Sender) : Part → Sender
  | .header => s.onHeaderWritten
  | .body => s.onBodyWritten

def Sender.disconnect (s : Sender) : Sender := {s with isOpen := false}

-- The lambda that send posts: the queue is inspected before the push.
def Sender.onPosted (s : Sender) (msg : NetMessage) : Sender :=
  let writingMessage := !s.messagesOut.isEmpty
  let s := {s with messagesOut := s.messagesOut ++ [msg], posted := s.posted ++ [msg]}
  if writingMessage then s else s.writeHeader

inductive Event where
  | send (msg : NetMessage)
  | posted (handler : Nat)
  | transmit (op count : Nat)
  | written (op : Nat)
  | writeFailed (op : Nat)
  | disconnect

-- Handlers run one at a time and in any order. The socket takes some of the bytes at a
-- time, and a write ends once all are taken or fails at any moment.
def step (s : Sender) : Event → Option Sender
  | .send msg => some {s with handlers := s.handlers ++ [msg]}
  | .posted handler =>
    match s.handlers[handler]? with
    | none => none
    | some msg => some ({s with handlers := s.handlers.eraseIdx handler}.onPosted msg)
  | .transmit op count =>
    match s.writing[op]? with
    | none => none
    | some write =>
      if s.isOpen then
        some {s with wire := s.wire ++ write.unsent.take count,
                     writing := s.writing.set op {write with unsent := write.unsent.drop count}}
      else none
  | .written op =>
    match s.writing[op]? with
    | none => none
    | some write =>
      if write.unsent = [] then some ({s with writing := s.writing.eraseIdx op}.onWritten write.part) else none
  | .writeFailed op =>
    match s.writing[op]? with
    | none => none
    | some _ => some {s with writing := s.writing.eraseIdx op, failed := true}.disconnect
  | .disconnect => some s.disconnect

def Sender.sent (s : Sender) : List UInt8 := (s.posted.take s.popped).flatMap NetMessage.wire

def upTo (msg : NetMessage) : Part → List UInt8
  | .header => msg.header.bytes
  | .body => msg.wire

theorem upTo_wire (msg : NetMessage) (part : Part) : upTo msg part <+: msg.wire := by
  cases part with
  | header => exact List.prefix_append _ _
  | body => exact List.prefix_refl _

inductive Phase (s : Sender) : Prop where
  | idle (quiet : s.writing = []) (empty : s.messagesOut = []) (wire : s.wire = s.sent)
  | writing (op : WriteOp) (msg : NetMessage) (rest : List NetMessage) (single : s.writing = [op])
      (front : s.messagesOut = msg :: rest) (own : op.serial = s.popped)
      (left : op.unsent <:+ upTo msg op.part) (wire : s.wire ++ op.unsent = s.sent ++ upTo msg op.part)
  | stuck (msg : NetMessage) (rest : List NetMessage) (quiet : s.writing = []) (failed : s.failed = true)
      (front : s.messagesOut = msg :: rest) (wire : s.wire <+: s.sent ++ msg.wire)

structure Invariant (s : Sender) : Prop where
  queue : s.messagesOut = s.posted.drop s.popped
  bounded : s.popped ≤ s.posted.length
  defined : s.emptyFront = false
  phase : Phase s

theorem fresh_invariant (isOpen : Bool) : Invariant (fresh isOpen) :=
  ⟨rfl,Nat.le_refl _,rfl,.idle rfl rfl rfl⟩

theorem front_posted {s : Sender} (queue : s.messagesOut = s.posted.drop s.popped)
    (front : s.messagesOut = msg :: rest) :
    s.popped < s.posted.length ∧ s.posted[s.popped]? = some msg ∧ rest = s.posted.drop (s.popped + 1) := by
  have split := queue.symm.trans front
  have short : s.popped < s.posted.length := by
    by_contra long
    rw [List.drop_of_length_le (by omega)] at split
    cases split
  rw [List.drop_eq_getElem_cons short] at split
  obtain ⟨here,later⟩ := List.cons.inj split
  exact ⟨short,by rw [List.getElem?_eq_getElem short,here],later.symm⟩

theorem sent_succ {s : Sender} (queue : s.messagesOut = s.posted.drop s.popped)
    (front : s.messagesOut = msg :: rest) :
    (s.posted.take (s.popped + 1)).flatMap NetMessage.wire = s.sent ++ msg.wire := by
  obtain ⟨short,here,_⟩ := front_posted queue front
  rw [List.take_add_one,here]
  simp [Sender.sent]

theorem invariant_frame {s : Sender} (inv : Invariant s) (isOpen : Bool) (handlers : List NetMessage) :
    Invariant {s with isOpen := isOpen, handlers := handlers} := by
  refine ⟨inv.queue,inv.bounded,inv.defined,?_⟩
  cases inv.phase with
  | idle quiet empty wire => exact .idle quiet empty wire
  | writing op msg rest single front own left wire => exact .writing op msg rest single front own left wire
  | stuck msg rest quiet failed front wire => exact .stuck msg rest quiet failed front wire

theorem onPosted_invariant {s : Sender} (inv : Invariant s) (msg : NetMessage) : Invariant (s.onPosted msg) := by
  have queue : s.messagesOut ++ [msg] = (s.posted ++ [msg]).drop s.popped := by
    rw [List.drop_append_of_le_length inv.bounded,inv.queue]
  have bounded : s.popped ≤ (s.posted ++ [msg]).length := by
    rw [List.length_append]
    exact Nat.le_add_right_of_le inv.bounded
  have sent : ((s.posted ++ [msg]).take s.popped).flatMap NetMessage.wire = s.sent := by
    rw [List.take_append_of_le_length inv.bounded,Sender.sent]
  cases inv.phase with
  | idle quiet empty wire =>
      simp only [Sender.onPosted,empty,List.isEmpty_nil,Bool.not_true,Bool.false_eq_true,if_false,
        List.nil_append,Sender.writeHeader,Sender.writePart] at queue ⊢
      refine ⟨queue,bounded,inv.defined,.writing _ msg [] (by rw [quiet]; rfl) rfl rfl (List.suffix_refl _) ?_⟩
      rw [Sender.sent,sent,wire]
      rfl
  | writing op front rest single queued own left wire =>
      simp only [Sender.onPosted,queued,List.isEmpty_cons,Bool.not_false,if_true] at queue ⊢
      refine ⟨queue,bounded,inv.defined,.writing op front (rest ++ [msg]) single rfl own left ?_⟩
      rw [Sender.sent,sent]
      exact wire
  | stuck front rest quiet failed queued wire =>
      simp only [Sender.onPosted,queued,List.isEmpty_cons,Bool.not_false,if_true] at queue ⊢
      refine ⟨queue,bounded,inv.defined,.stuck front (rest ++ [msg]) quiet failed rfl ?_⟩
      rw [Sender.sent,sent]
      exact wire

-- The front message is through: it leaves, and the next header is started.
theorem writeNext_invariant {s : Sender} (queue : s.messagesOut = s.posted.drop s.popped)
    (defined : s.emptyFront = false) (quiet : s.writing = []) (front : s.messagesOut = msg :: rest)
    (wire : s.wire = s.sent ++ msg.wire) : Invariant s.writeNext := by
  obtain ⟨short,_,later⟩ := front_posted queue front
  have through : s.wire = (s.posted.take (s.popped + 1)).flatMap NetMessage.wire :=
    wire.trans (sent_succ queue front).symm
  simp only [Sender.writeNext,Sender.popFront,front]
  cases rest with
  | nil => exact ⟨later,short,defined,.idle quiet rfl through⟩
  | cons next rest =>
      simp only [List.isEmpty_cons,Bool.false_eq_true,if_false,Sender.writeHeader,Sender.writePart]
      refine ⟨later,short,defined,.writing _ next rest (by rw [quiet]; rfl) rfl rfl (List.suffix_refl _) ?_⟩
      rw [through]
      rfl

theorem onWritten_invariant {s : Sender} (part : Part) (queue : s.messagesOut = s.posted.drop s.popped)
    (bounded : s.popped ≤ s.posted.length) (defined : s.emptyFront = false) (quiet : s.writing = [])
    (front : s.messagesOut = msg :: rest) (wire : s.wire = s.sent ++ upTo msg part) :
    Invariant (s.onWritten part) := by
  cases part with
  | body => exact writeNext_invariant queue defined quiet front wire
  | header =>
      simp only [Sender.onWritten,Sender.onHeaderWritten,front]
      by_cases bodied : 0 < msg.body.size
      · simp only [bodied,if_true,Sender.writeBody,Sender.writePart,front]
        refine ⟨front.symm.trans queue,bounded,defined,.writing _ msg rest (by rw [quiet]; rfl) rfl rfl
          (List.suffix_append _ _) ?_⟩
        rw [wire]
        exact List.append_assoc _ _ _
      · simp only [bodied,if_false]
        have bodyless : msg.body.bytes = [] := by
          simpa [ByteVector.size,List.length_pos_iff] using bodied
        refine writeNext_invariant queue defined quiet front ?_
        rw [wire,NetMessage.wire,bodyless,List.append_nil]
        rfl

-- Only the one write in flight can be named by an event.
theorem writing_cases {s : Sender} (inv : Invariant s) (found : s.writing[index]? = some op) :
    index = 0 ∧ s.writing = [op] ∧ ∃ msg rest, s.messagesOut = msg :: rest ∧ op.serial = s.popped ∧
      op.unsent <:+ upTo msg op.part ∧ s.wire ++ op.unsent = s.sent ++ upTo msg op.part := by
  cases inv.phase with
  | idle quiet empty wire => simp [quiet] at found
  | stuck msg rest quiet failed front wire => simp [quiet] at found
  | writing only msg rest single front own left wire =>
      rw [single] at found
      cases index with
      | zero => cases found; exact ⟨rfl,single,msg,rest,front,own,left,wire⟩
      | succ index => cases found

-- The steps by their events, with what the source has checked on the way.
inductive Taken (s : Sender) : Event → Sender → Prop where
  | send : Taken s (.send msg) {s with handlers := s.handlers ++ [msg]}
  | posted (found : s.handlers[handler]? = some msg) :
      Taken s (.posted handler) ({s with handlers := s.handlers.eraseIdx handler}.onPosted msg)
  | transmit (found : s.writing[op]? = some write) (isOpen : s.isOpen = true) :
      Taken s (.transmit op count)
        {s with wire := s.wire ++ write.unsent.take count,
                writing := s.writing.set op {write with unsent := write.unsent.drop count}}
  | written (found : s.writing[op]? = some write) (allSent : write.unsent = []) :
      Taken s (.written op) ({s with writing := s.writing.eraseIdx op}.onWritten write.part)
  | writeFailed (found : s.writing[op]? = some write) :
      Taken s (.writeFailed op) {s with writing := s.writing.eraseIdx op, failed := true}.disconnect
  | disconnect : Taken s .disconnect s.disconnect

theorem step_taken {s next : Sender} (stepped : step s event = some next) : Taken s event next := by
  cases event with
  | send msg => cases stepped; exact .send
  | disconnect => cases stepped; exact .disconnect
  | posted handler =>
      simp only [step] at stepped
      split at stepped <;> cases stepped
      rename_i found
      exact .posted found
  | transmit op count =>
      simp only [step] at stepped
      split at stepped
      · cases stepped
      · rename_i found
        split at stepped <;> cases stepped
        rename_i isOpen
        exact .transmit found isOpen
  | written op =>
      simp only [step] at stepped
      split at stepped
      · cases stepped
      · rename_i found
        split at stepped <;> cases stepped
        rename_i allSent
        exact .written found allSent
  | writeFailed op =>
      simp only [step] at stepped
      split at stepped <;> cases stepped
      rename_i found
      exact .writeFailed found

theorem step_invariant (s : Sender) (event : Event) (next : Sender) (inv : Invariant s)
    (stepped : step s event = some next) : Invariant next := by
  cases step_taken stepped with
  | send => exact invariant_frame inv s.isOpen _
  | disconnect => exact invariant_frame inv false s.handlers
  | posted found => exact onPosted_invariant (invariant_frame inv s.isOpen _) _
  | @transmit index op count found _ =>
      obtain ⟨rfl,single,msg,rest,front,own,left,wire⟩ := writing_cases inv found
      refine ⟨inv.queue,inv.bounded,inv.defined,.writing {op with unsent := op.unsent.drop count} msg rest
        (by rw [single]; rfl) front own ((List.drop_suffix _ _).trans left) ?_⟩
      rw [List.append_assoc,List.take_append_drop]
      exact wire
  | written found allSent =>
      obtain ⟨rfl,single,msg,rest,front,own,left,wire⟩ := writing_cases inv found
      rw [allSent,List.append_nil] at wire
      exact onWritten_invariant _ inv.queue inv.bounded inv.defined (by rw [single]; rfl) front wire
  | @writeFailed index op found =>
      obtain ⟨rfl,single,msg,rest,front,own,left,wire⟩ := writing_cases inv found
      refine ⟨inv.queue,inv.bounded,inv.defined,.stuck msg rest (by rw [single]; rfl) rfl front ?_⟩
      have part : s.wire <+: s.sent ++ upTo msg op.part := ⟨op.unsent,wire⟩
      exact part.trans (List.prefix_append_right_inj _ |>.mpr (upTo_wire msg op.part))

theorem run_invariant (ran : Runs.run step (fresh isOpen) events = some s) : Invariant s :=
  Runs.invariant step_invariant (fresh_invariant isOpen) ran

theorem sent_posted {s : Sender} (queue : s.messagesOut = s.posted.drop s.popped)
    (front : s.messagesOut = msg :: rest) (wire : bytes <+: s.sent ++ msg.wire) :
    bytes <+: s.posted.flatMap NetMessage.wire := by
  rw [← sent_succ queue front] at wire
  refine wire.trans ⟨(s.posted.drop (s.popped + 1)).flatMap NetMessage.wire,?_⟩
  rw [← List.flatMap_append,List.take_append_drop]

theorem wire_posted {s : Sender} (inv : Invariant s) : s.wire <+: s.posted.flatMap NetMessage.wire := by
  cases inv.phase with
  | idle quiet empty wire =>
      rw [wire,Sender.sent]
      exact ⟨(s.posted.drop s.popped).flatMap NetMessage.wire,by rw [← List.flatMap_append,List.take_append_drop]⟩
  | writing op msg rest single front own left wire =>
      have started : s.wire <+: s.sent ++ upTo msg op.part := ⟨op.unsent,wire⟩
      exact sent_posted inv.queue front
        (started.trans (List.prefix_append_right_inj _ |>.mpr (upTo_wire msg op.part)))
  | stuck msg rest quiet failed front wire => exact sent_posted inv.queue front wire

theorem wire_complete {s : Sender} (inv : Invariant s) (empty : s.messagesOut = []) :
    s.wire = s.posted.flatMap NetMessage.wire := by
  have through := inv.queue.symm.trans empty
  cases inv.phase with
  | idle quiet _ wire => rw [wire,Sender.sent,List.take_of_length_le (List.drop_eq_nil_iff.mp through)]
  | writing op msg rest single front own left wire => rw [empty] at front; cases front
  | stuck msg rest quiet failed front wire => rw [empty] at front; cases front

-- Only the end of a write pops: every other event leaves a front message there.
theorem step_front {s next : Sender} (busy : s.messagesOut ≠ [])
    (other : ∀ op, event ≠ .written op) (stepped : step s event = some next) :
    next.popped = s.popped ∧ next.messagesOut.head? = s.messagesOut.head? := by
  cases step_taken stepped with
  | written => exact absurd rfl (other _)
  | posted =>
      obtain ⟨msg,rest,front⟩ := List.exists_cons_of_ne_nil busy
      simp [Sender.onPosted,front]
  | send | disconnect | transmit | writeFailed => exact ⟨rfl,rfl⟩

-- A handler works on the queue and the writes, and on nothing else.
structure Undisturbed (s next : Sender) : Prop where
  isOpen : next.isOpen = s.isOpen
  handlers : next.handlers = s.handlers
  wire : next.wire = s.wire
  posted : next.posted = s.posted
  failed : next.failed = s.failed

theorem Undisturbed.trans (one : Undisturbed s middle) (two : Undisturbed middle next) : Undisturbed s next :=
  ⟨two.isOpen.trans one.isOpen,two.handlers.trans one.handlers,two.wire.trans one.wire,
    two.posted.trans one.posted,two.failed.trans one.failed⟩

theorem writePart_undisturbed (s : Sender) (part : Part) (buffer : NetMessage → List UInt8) :
    Undisturbed s (s.writePart part buffer) := by
  unfold Sender.writePart
  split <;> exact ⟨rfl,rfl,rfl,rfl,rfl⟩

theorem writeNext_undisturbed (s : Sender) : Undisturbed s s.writeNext := by
  have popped : Undisturbed s s.popFront := by
    unfold Sender.popFront
    split <;> exact ⟨rfl,rfl,rfl,rfl,rfl⟩
  simp only [Sender.writeNext]
  split
  · exact popped
  · exact popped.trans (writePart_undisturbed _ .header _)

theorem onWritten_undisturbed (s : Sender) (part : Part) : Undisturbed s (s.onWritten part) := by
  cases part with
  | body => exact writeNext_undisturbed s
  | header =>
      simp only [Sender.onWritten,Sender.onHeaderWritten]
      split
      · exact ⟨rfl,rfl,rfl,rfl,rfl⟩
      · split
        · exact writePart_undisturbed s .body _
        · exact writeNext_undisturbed s

theorem onPosted_undisturbed (s : Sender) (msg : NetMessage) :
    Undisturbed {s with posted := s.posted ++ [msg]} (s.onPosted msg) := by
  simp only [Sender.onPosted]
  split
  · exact ⟨rfl,rfl,rfl,rfl,rfl⟩
  · have written := writePart_undisturbed
      {s with messagesOut := s.messagesOut ++ [msg], posted := s.posted ++ [msg]} .header (·.header.bytes)
    exact ⟨written.isOpen,written.handlers,written.wire,written.posted,written.failed⟩

-- What has been posted and what is on the wire only grows.
theorem step_grows {s next : Sender} (stepped : step s event = some next) :
    s.wire <+: next.wire ∧ s.posted <+: next.posted := by
  cases step_taken stepped with
  | send | disconnect | writeFailed => exact ⟨List.prefix_refl _,List.prefix_refl _⟩
  | transmit => exact ⟨List.prefix_append _ _,List.prefix_refl _⟩
  | @posted handler msg found =>
      have posted := onPosted_undisturbed {s with handlers := s.handlers.eraseIdx handler} msg
      rw [posted.wire,posted.posted]
      exact ⟨List.prefix_refl _,List.prefix_append _ _⟩
  | @written op write found _ =>
      have written := onWritten_undisturbed {s with writing := s.writing.eraseIdx op} write.part
      rw [written.wire,written.posted]
      exact ⟨List.prefix_refl _,List.prefix_refl _⟩

structure Serialised (s : Sender) : Prop where
  defined : s.emptyFront = false
  single : s.writing.length ≤ 1
  front : ∀ op ∈ s.writing, op.serial = s.popped ∧ ∃ msg,
    s.messagesOut.head? = some msg ∧ s.posted[op.serial]? = some msg ∧ op.unsent <:+ upTo msg op.part
  kept : s.writing ≠ [] → ∀ event next, step s event = some next → (∀ op, event ≠ .written op) →
    next.popped = s.popped ∧ next.messagesOut.head? = s.messagesOut.head?
  ordered : s.wire <+: s.posted.flatMap NetMessage.wire
  complete : s.messagesOut = [] → s.wire = s.posted.flatMap NetMessage.wire
  flowing : s.isOpen = true → s.failed = false → s.writing = [] → s.messagesOut = []

theorem serialised (isOpen : Bool) (events : List Event) (ran : Runs.run step (fresh isOpen) events = some s) :
    Serialised s := by
  have inv := run_invariant ran
  cases inv.phase with
  | idle quiet empty wire =>
      have whole : s.wire = s.posted.flatMap NetMessage.wire := by
        have through := inv.queue.symm.trans empty
        rw [wire,Sender.sent,List.take_of_length_le (List.drop_eq_nil_iff.mp through)]
      refine ⟨inv.defined,by simp [quiet],by simp [quiet],fun busy => absurd quiet busy,?_,
        fun _ => whole,fun _ _ _ => empty⟩
      exact whole ▸ List.prefix_refl _
  | writing op msg rest single front own left wire =>
      obtain ⟨_,here,_⟩ := front_posted inv.queue front
      have busy : s.messagesOut ≠ [] := by simp [front]
      have started : s.wire <+: s.sent ++ upTo msg op.part := ⟨op.unsent,wire⟩
      refine ⟨inv.defined,by simp [single],?_,fun _ _ _ stepped other => step_front busy other stepped,?_,
        fun empty => absurd empty busy,fun _ _ quiet => by simp [single] at quiet⟩
      · intro one member
        rw [single,List.mem_singleton] at member
        subst member
        exact ⟨own,msg,by rw [front]; rfl,own ▸ here,left⟩
      · exact sent_posted inv.queue front
          (started.trans (List.prefix_append_right_inj _ |>.mpr (upTo_wire msg op.part)))
  | stuck msg rest quiet failed front wire =>
      refine ⟨inv.defined,by simp [quiet],by simp [quiet],fun busy => absurd quiet busy,
        sent_posted inv.queue front wire,fun empty => by simp [front] at empty,fun _ alive => by simp [failed] at alive⟩

def hello : NetMessage := ⟨⟨0,zeros 16,zeros 7,1⟩,⟨[7],by decide⟩⟩
def ping : NetMessage := ⟨⟨0,zeros 16,zeros 7,0⟩,.empty⟩

-- The second message is posted while the header of the first is on its way.
theorem serialised_pair : ∃ s, Serialised s ∧ s.wire = hello.wire ∧ s.messagesOut = [ping] :=
  ⟨_,serialised true
    [.send hello,.send ping,.posted 0,.transmit 0 20,.posted 0,.transmit 0 12,.written 0,
      .transmit 0 1,.written 0] rfl,by decide,by decide⟩

end Keyser.PeerSend
