import Keyser.Framing

namespace Keyser.PeerReceive
open Memory Framing

variable {Peer : Type*}

structure OwnedMessage (Peer : Type*) where
  remote : Peer
  msg : NetMessage
  deriving DecidableEq

-- `reading` is the buffer of the outstanding async_read and `filled` what it has so far;
-- `pushed` is what this peer put on _messagesIn. An exception out of a handler sets `raised`;
-- `allocatable` is the largest size that resize has memory for.
structure Receiver (Peer : Type*) where
  peer : Peer
  isOpen : Bool
  msgTemporaryIn : NetMessage
  reading : Option Part
  filled : List UInt8
  pushed : List (OwnedMessage Peer)
  raised : Bool
  allocatable : Nat

def Receiver.disconnect (s : Receiver Peer) : Receiver Peer := {s with isOpen := false}

def Receiver.readHeader (s : Receiver Peer) : Receiver Peer := {s with reading := some .header, filled := []}

def Receiver.readBody (s : Receiver Peer) : Receiver Peer := {s with reading := some .body, filled := []}

def Receiver.addToIncomingMessageQueue (s : Receiver Peer) : Receiver Peer :=
  let owned : OwnedMessage Peer := ⟨s.peer,s.msgTemporaryIn⟩
  {s with pushed := s.pushed ++ [owned]}.readHeader

-- readHeader's handler
def Receiver.onHeader (s : Receiver Peer) : Receiver Peer :=
  if 0 < s.msgTemporaryIn.header.size.toNat then
    match s.msgTemporaryIn.body.resize s.allocatable s.msgTemporaryIn.header.size.toNat with
    | none => {s with raised := true}
    | some body => {s with msgTemporaryIn := {s.msgTemporaryIn with body := body}}.readBody
  else s.addToIncomingMessageQueue

def Receiver.wanted (s : Receiver Peer) : Part → Nat
  | .header => 32
  | .body => s.msgTemporaryIn.body.size

def Receiver.complete (s : Receiver Peer) :
    (part : Part) → (filled : List UInt8) → filled.length = s.wanted part → Receiver Peer
  | .header,filled,full =>
    {s with msgTemporaryIn := {s.msgTemporaryIn with header := .ofBytes ⟨filled,full⟩},
            reading := none, filled := []}.onHeader
  | .body,filled,full =>
    {s with msgTemporaryIn := {s.msgTemporaryIn with
              body := ⟨filled,Nat.le_trans (Nat.le_of_eq full) s.msgTemporaryIn.body.bounded⟩},
            reading := none, filled := []}.addToIncomingMessageQueue

inductive Arrival where
  | byte (value : UInt8)
  | failure

-- With no read outstanding the peer does not look at the stream.
def step (s : Receiver Peer) : Arrival → Receiver Peer
  | .failure =>
    match s.reading with
    | none => s
    | some _ => {s with reading := none}.disconnect
  | .byte value =>
    match s.reading with
    | none => s
    | some part =>
      if full : (s.filled ++ [value]).length = s.wanted part then s.complete part (s.filled ++ [value]) full
      else {s with filled := s.filled ++ [value]}

def receive (s : Receiver Peer) (stream : List UInt8) : Receiver Peer :=
  (stream.map Arrival.byte).foldl step s

-- The constructor leaves the header of _msgTemporaryIn without values. There is memory for
-- every size.
def fresh (peer : Peer) (header : NetMessageHeader) : Receiver Peer :=
  ⟨peer,true,⟨header,.empty⟩,some .header,[],[],false,maxSize⟩

theorem onHeader_allocatable (s : Receiver Peer) : s.onHeader.allocatable = s.allocatable := by
  unfold Receiver.onHeader
  split
  · split <;> rfl
  · rfl

theorem step_allocatable (s : Receiver Peer) (arrival : Arrival) : (step s arrival).allocatable = s.allocatable := by
  cases arrival with
  | failure => cases reading : s.reading <;> simp [step,reading,Receiver.disconnect]
  | byte value =>
      cases reading : s.reading with
      | none => simp [step,reading]
      | some part =>
          simp only [step,reading]
          split
          · cases part with
            | header => exact onHeader_allocatable _
            | body => rfl
          · rfl

theorem receive_allocatable (s : Receiver Peer) (stream : List UInt8) :
    (receive s stream).allocatable = s.allocatable := by
  induction stream generalizing s with
  | nil => rfl
  | cons byte rest ih => exact (ih (step s (.byte byte))).trans (step_allocatable s _)

theorem receive_append (s : Receiver Peer) (first second : List UInt8) :
    receive s (first ++ second) = receive (receive s first) second := by
  simp [receive]

-- After a failed read nothing is delivered any more.
theorem failure_silent (s : Receiver Peer) (arrivals : List Arrival) :
    (arrivals.foldl step (step s .failure)).pushed = s.pushed := by
  have idle : (step s .failure).reading = none ∧ (step s .failure).pushed = s.pushed := by
    cases reading : s.reading <;> simp [step,reading,Receiver.disconnect]
  obtain ⟨none,same⟩ := idle
  rw [← same]
  generalize step s .failure = stopped at none
  induction arrivals with
  | nil => rfl
  | cons arrival rest ih =>
      have stays : step stopped arrival = stopped := by cases arrival <;> simp [step,none]
      rw [List.foldl_cons,stays]
      exact ih

theorem receive_part {s : Receiver Peer} (reading : s.reading = some part)
    (short : (s.filled ++ bytes).length < s.wanted part) :
    receive s bytes = {s with filled := s.filled ++ bytes} := by
  induction bytes generalizing s with
  | nil => simp [receive]
  | cons byte rest ih =>
      have notFull : (s.filled ++ [byte]).length ≠ s.wanted part := by
        simp only [List.length_append,List.length_cons,List.length_nil] at short ⊢
        omega
      have taken : step s (.byte byte) = {s with filled := s.filled ++ [byte]} := by
        simp only [step,reading]
        exact dif_neg notFull
      have later := ih (s := {s with filled := s.filled ++ [byte]}) reading
        (by cases part <;> simpa [Receiver.wanted] using short)
      simpa [receive,taken] using later

theorem receive_full {s : Receiver Peer} (part : Part) (reading : s.reading = some part) (nonempty : bytes ≠ [])
    (full : (s.filled ++ bytes).length = s.wanted part) :
    receive s bytes = s.complete part (s.filled ++ bytes) full := by
  obtain ⟨front,last,rfl⟩ := (List.eq_nil_or_concat' bytes).resolve_left nonempty
  have short : (s.filled ++ front).length < s.wanted part := by
    rw [← full]
    simp
  have lastFull : ((s.filled ++ front) ++ [last]).length = s.wanted part := by
    rw [List.append_assoc]
    exact full
  rw [receive_append,receive_part reading short]
  cases part <;> simp only [receive,List.map_cons,List.map_nil,List.foldl_cons,List.foldl_nil,step,reading]
  all_goals
    rw [dif_pos (by simpa [Receiver.wanted] using lastFull)]
    simp only [Receiver.complete,List.append_assoc]

def Ready (s : Receiver Peer) : Prop := s.reading = some .header ∧ s.filled = []

-- A frame without a body takes the path that leaves the buffer as it is.
def delivered (body : ByteVector) (frame : Frame) : NetMessage :=
  ⟨frame.header,if frame.body.bytes = [] then body else frame.body⟩

-- A header's 32 bytes come in, and its handler runs.
theorem receive_header {s : Receiver Peer} (ready : Ready s) (full : bytes.length = 32) : receive s bytes =
    {s with msgTemporaryIn := {s.msgTemporaryIn with header := .ofBytes ⟨bytes,full⟩},
            reading := none, filled := []}.onHeader := by
  obtain ⟨reading,empty⟩ := ready
  have whole : (s.filled ++ bytes).length = s.wanted .header := by simpa [empty,Receiver.wanted] using full
  rw [receive_full .header reading (List.ne_nil_of_length_pos (by omega)) whole]
  simp only [Receiver.complete,empty,List.nil_append]

theorem receive_frame {s : Receiver Peer} (ready : Ready s) (roomy : s.allocatable = maxSize) (frame : Frame) :
    Ready (receive s frame.wire) ∧ (receive s frame.wire).peer = s.peer ∧
      (receive s frame.wire).msgTemporaryIn = delivered s.msgTemporaryIn.body frame ∧
      (receive s frame.wire).pushed = s.pushed ++ [⟨s.peer,delivered s.msgTemporaryIn.body frame⟩] := by
  rw [NetMessage.wire,receive_append,receive_header ready (bytes_length frame.header),ofBytes_bytes]
  by_cases bodyless : frame.body.bytes = []
  · have zero : ¬ 0 < frame.header.size.toNat := by simp [frame.sized,ByteVector.size,bodyless]
    simp [Receiver.onHeader,zero,bodyless,receive,delivered,Receiver.addToIncomingMessageQueue,
      Receiver.readHeader,Ready]
  · have positive : 0 < frame.header.size.toNat := by
      rw [frame.sized]
      exact List.length_pos_iff.mpr bodyless
    have fits : frame.header.size.toNat ≤ maxSize ∧ frame.header.size.toNat ≤ s.allocatable := by
      rw [roomy,frame.sized]
      exact ⟨frame.body.bounded,frame.body.bounded⟩
    obtain ⟨resized,resize,size⟩ := s.msgTemporaryIn.body.resize_size fits
    simp only [Receiver.onHeader,positive,if_true,resize]
    have full : frame.body.bytes.length = resized.size := size.symm ▸ frame.sized.symm
    rw [receive_full .body rfl bodyless (by exact full)]
    simp [Receiver.complete,Receiver.readBody,Receiver.addToIncomingMessageQueue,Receiver.readHeader,
      Ready,delivered,bodyless]

def deliveries : ByteVector → List Frame → List NetMessage
  | _,[] => []
  | body,frame :: rest => delivered body frame :: deliveries (delivered body frame).body rest

theorem receive_frames {s : Receiver Peer} (ready : Ready s) (roomy : s.allocatable = maxSize) (frames : List Frame) :
    (receive s (frames.flatMap fun frame => frame.wire)).pushed =
      s.pushed ++ (deliveries s.msgTemporaryIn.body frames).map (⟨s.peer,·⟩) := by
  induction frames generalizing s with
  | nil => simp [receive,deliveries]
  | cons frame rest ih =>
      obtain ⟨stillReady,peer,held,pushed⟩ := receive_frame ready roomy frame
      have stillRoomy := (receive_allocatable s frame.wire).trans roomy
      rw [List.flatMap_cons,receive_append,ih stillReady stillRoomy,held,peer,pushed,deliveries]
      simp

def BodylessFirst (frames : List Frame) : Prop :=
  frames.Pairwise fun earlier later => later.body.bytes = [] → earlier.body.bytes = []

theorem delivered_iff (body : ByteVector) (frame : Frame) :
    delivered body frame = frame.toNetMessage ↔ (frame.body.bytes = [] → body.bytes = []) := by
  by_cases bodyless : frame.body.bytes = []
  · simp only [delivered,bodyless,if_true,true_implies]
    constructor
    · intro same
      rw [← bodyless,← same]
    · intro empty
      rw [ByteVector.eq_of_bytes (empty.trans bodyless.symm)]
  · simp [delivered,bodyless]

theorem deliveries_iff (body : ByteVector) (frames : List Frame) :
    deliveries body frames = frames.map Frame.toNetMessage ↔
      BodylessFirst frames ∧ ∀ frame ∈ frames, frame.body.bytes = [] → body.bytes = [] := by
  induction frames generalizing body with
  | nil => simp [deliveries,BodylessFirst]
  | cons frame rest ih =>
      simp only [deliveries,List.map_cons,List.cons.injEq,ih,BodylessFirst,List.pairwise_cons,
        List.forall_mem_cons]
      constructor
      · rintro ⟨here,later,fromHere⟩
        rw [here] at fromHere
        have fresh := (delivered_iff body frame).mp here
        exact ⟨⟨fromHere,later⟩,fresh,fun next member bodyless => fresh (fromHere next member bodyless)⟩
      · rintro ⟨⟨fromHere,later⟩,fresh,_⟩
        have here := (delivered_iff body frame).mpr fresh
        rw [here]
        exact ⟨rfl,later,fromHere⟩

structure Delivers (peer : Peer) (header : NetMessageHeader) (frames : List Frame) : Prop where
  exactly : (receive (fresh peer header) (frames.flatMap fun frame => frame.wire)).pushed =
    frames.map fun frame => ⟨peer,frame.toNetMessage⟩
  sized : ∀ owned ∈ (receive (fresh peer header) (frames.flatMap fun frame => frame.wire)).pushed,
    owned.msg.body.size = owned.msg.header.size.toNat

theorem delivers_iff (peer : Peer) (header : NetMessageHeader) (frames : List Frame) :
    Delivers peer header frames ↔ BodylessFirst frames := by
  have start := deliveries_iff ByteVector.empty frames
  have pushed : (receive (fresh peer header) (frames.flatMap fun frame => frame.wire)).pushed =
      (deliveries ByteVector.empty frames).map (⟨peer,·⟩) :=
    receive_frames (s := fresh peer header) ⟨rfl,rfl⟩ rfl frames
  constructor
  · intro delivers
    have same := delivers.exactly
    rw [pushed] at same
    have messages := congrArg (List.map OwnedMessage.msg) same
    simp only [List.map_map,Function.comp_def,List.map_id'] at messages
    exact (start.mp messages).1
  · intro first
    have messages := start.mpr ⟨first,fun _ _ _ => rfl⟩
    have same : (receive (fresh peer header) (frames.flatMap fun frame => frame.wire)).pushed =
        frames.map fun frame => ⟨peer,frame.toNetMessage⟩ := by
      rw [pushed,messages,List.map_map]
      rfl
    refine ⟨same,?_⟩
    rw [same]
    intro owned member
    obtain ⟨frame,_,rfl⟩ := List.mem_map.mp member
    exact frame.sized.symm

def oneByte : Frame := ⟨⟨⟨0,zeros 16,zeros 7,1⟩,⟨[42],by decide⟩⟩,rfl⟩
def noByte : Frame := ⟨⟨⟨0,zeros 16,zeros 7,0⟩,.empty⟩,rfl⟩

-- The second message carries the byte of the first under a size of zero.
theorem delivers_fails : ¬ Delivers () ⟨0,zeros 16,zeros 7,0⟩ [oneByte,noByte] := by
  intro delivers
  have stale := delivers.sized ⟨(),⟨noByte.header,oneByte.body⟩⟩ (by
    rw [receive_frames ⟨rfl,rfl⟩ rfl]
    decide)
  exact absurd stale (by decide)

end Keyser.PeerReceive
