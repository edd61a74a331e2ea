import Keyser.PeerReceive

namespace Keyser.HostileStreams
open Memory Framing PeerReceive

variable {Peer : Type*} {allocatable : Nat}

-- The headers the read loop comes to in a stream: the first 32 bytes, and again behind
-- every complete body.
def headers (stream : List UInt8) : List NetMessageHeader :=
  if long : 32 ≤ stream.length then
    let header := NetMessageHeader.ofBytes ⟨stream.take 32,by simp [long]⟩
    header :: headers (stream.drop (32 + header.size.toNat))
  else []
termination_by stream.length
decreasing_by simp only [List.length_drop]; omega

def Fits (allocatable : Nat) (header : NetMessageHeader) : Prop :=
  header.size.toNat ≤ maxSize ∧ header.size.toNat ≤ allocatable

theorem headers_short (short : stream.length < 32) : headers stream = [] := by
  rw [headers,dif_neg (by omega)]

theorem headers_frame (front : List UInt8) (full : front.length = 32) (rest : List UInt8) :
    headers (front ++ rest) = NetMessageHeader.ofBytes ⟨front,full⟩ ::
      headers (rest.drop (NetMessageHeader.ofBytes ⟨front,full⟩).size.toNat) := by
  have long : 32 ≤ (front ++ rest).length := by
    rw [List.length_append]
    omega
  have head : (front ++ rest).take 32 = front := by rw [← full,List.take_left]
  rw [headers,dif_pos long]
  simp only [head]
  rw [List.drop_append,List.drop_of_length_le (by omega),List.nil_append,full,Nat.add_sub_cancel_left]

-- With no read outstanding the peer is deaf.
theorem step_deaf {s : Receiver Peer} (deaf : s.reading = none) (arrival : Arrival) : step s arrival = s := by
  cases arrival <;> simp [step,deaf]

theorem receive_deaf {s : Receiver Peer} (deaf : s.reading = none) (bytes : List UInt8) : receive s bytes = s := by
  induction bytes with
  | nil => rfl
  | cons byte rest ih => simpa [receive,step_deaf deaf] using ih

-- What the read loop makes of a stream: it goes on reading past headers that fit, and the
-- first one that does not raises.
def Settled (allocatable : Nat) (s : Receiver Peer) (met : List NetMessageHeader) : Prop :=
  (s.raised = false ∧ s.reading ≠ none ∧ ∀ header ∈ met, Fits allocatable header) ∨
    (s.raised = true ∧ s.reading = none ∧ ∃ header ∈ met, ¬ Fits allocatable header)

theorem settled_cons {s : Receiver Peer} (fits : Fits allocatable header) (settled : Settled allocatable s met) :
    Settled allocatable s (header :: met) := by
  rcases settled with ⟨calm,reading,all⟩ | ⟨raised,deaf,other,member,exceeds⟩
  · exact .inl ⟨calm,reading,List.forall_mem_cons.mpr ⟨fits,all⟩⟩
  · exact .inr ⟨raised,deaf,other,List.mem_cons_of_mem _ member,exceeds⟩

theorem body_settled {s : Receiver Peer} (room : s.allocatable = allocatable) (calm : s.raised = false)
    (reading : s.reading = some .body) (empty : s.filled = []) (positive : 0 < s.msgTemporaryIn.body.size)
    (rest : List UInt8)
    (later : ∀ next : Receiver Peer, next.allocatable = allocatable → Ready next → next.raised = false →
      Settled allocatable (receive next (rest.drop s.msgTemporaryIn.body.size))
        (headers (rest.drop s.msgTemporaryIn.body.size))) :
    Settled allocatable (receive s rest) (headers (rest.drop s.msgTemporaryIn.body.size)) := by
  by_cases short : rest.length < s.msgTemporaryIn.body.size
  · rw [receive_part reading (by simpa [empty,Receiver.wanted] using short),List.drop_of_length_le (by omega),
      headers_short (by simp)]
    exact .inl ⟨calm,by simp [reading],by simp⟩
  · have full : (s.filled ++ rest.take s.msgTemporaryIn.body.size).length = s.wanted .body := by
      simp only [empty,List.nil_append,List.length_take,Receiver.wanted]
      omega
    have some : rest.take s.msgTemporaryIn.body.size ≠ [] := by
      intro none
      simp only [none,empty,List.append_nil,List.length_nil,Receiver.wanted] at full
      omega
    have split : receive s rest = receive (s.complete .body (s.filled ++ rest.take s.msgTemporaryIn.body.size) full)
        (rest.drop s.msgTemporaryIn.body.size) := by
      rw [← receive_full .body reading some full,← receive_append,List.take_append_drop]
    rw [split]
    exact later _ room ⟨rfl,rfl⟩ calm

theorem receive_settled (stream : List UInt8) {s : Receiver Peer} (room : s.allocatable = allocatable)
    (ready : Ready s) (calm : s.raised = false) :
    Settled allocatable (receive s stream) (headers stream) := by
  induction size : stream.length using Nat.strong_induction_on generalizing stream s with
  | _ total ih =>
    by_cases short : stream.length < 32
    · obtain ⟨reading,empty⟩ := ready
      rw [receive_part reading (by simpa [empty,Receiver.wanted] using short),headers_short short]
      exact .inl ⟨calm,by simp [reading],by simp⟩
    · obtain ⟨front,rest,rfl,full⟩ : ∃ front rest, stream = front ++ rest ∧ front.length = 32 :=
        ⟨stream.take 32,stream.drop 32,(List.take_append_drop 32 stream).symm,by simp; omega⟩
      rw [receive_append,receive_header ready full,headers_frame front full]
      generalize NetMessageHeader.ofBytes ⟨front,full⟩ = header
      rw [List.length_append] at size
      by_cases sized : 0 < header.size.toNat
      · subst room
        by_cases fits : Fits s.allocatable header
        · obtain ⟨resized,resize,resizedSize⟩ := s.msgTemporaryIn.body.resize_size fits
          simp only [Receiver.onHeader,sized,if_true,resize]
          refine settled_cons fits ?_
          have bodied := @body_settled _ _
            {s with msgTemporaryIn := ⟨header,resized⟩, reading := some .body, filled := []} rfl calm rfl rfl
            (by simpa [resizedSize] using sized) rest
          simp only [resizedSize] at bodied
          exact bodied fun next room ready calm => ih _ (by rw [List.length_drop]; omega) _ room ready calm rfl
        · have raises : s.msgTemporaryIn.body.resize s.allocatable header.size.toNat = none := dif_neg fits
          simp only [Receiver.onHeader,sized,if_true,raises]
          rw [receive_deaf rfl]
          exact .inr ⟨rfl,rfl,header,List.mem_cons_self ..,fits⟩
      · have zero : header.size.toNat = 0 := by omega
        simp only [Receiver.onHeader,zero,Nat.lt_irrefl,if_false,List.drop_zero]
        refine settled_cons (by simp [Fits,zero]) (ih _ ?_ rest room ⟨rfl,rfl⟩ calm rfl)
        omega

-- A remote peer sends bytes, and then may end the stream.
def arrivals (stream : List UInt8) (ended : Bool) : List Arrival :=
  stream.map .byte ++ if ended then [.failure] else []

-- The peer waits for more or is disconnected, and no exception has left a handler.
def Survives (s : Receiver Peer) : Prop := s.raised = false ∧ (s.reading ≠ none ∨ s.isOpen = false)

def start (allocatable : Nat) (peer : Peer) (header : NetMessageHeader) : Receiver Peer :=
  {fresh peer header with allocatable := allocatable}

def Robust (allocatable : Nat) (peer : Peer) (header : NetMessageHeader) (stream : List UInt8) (ended : Bool) : Prop :=
  ∀ early, early <+: arrivals stream ended → Survives (early.foldl step (start allocatable peer header))

theorem start_settled (allocatable : Nat) (peer : Peer) (header : NetMessageHeader) (stream : List UInt8) :
    Settled allocatable (receive (start allocatable peer header) stream) (headers stream) :=
  receive_settled stream rfl ⟨rfl,rfl⟩ rfl

-- What has been raised stays raised, so the whole stream speaks for all its prefixes.
theorem listening_early (peer : Peer) (header : NetMessageHeader) (all : ∀ met ∈ headers stream, Fits allocatable met)
    (early : bytes <+: stream) : (receive (start allocatable peer header) bytes).raised = false ∧
      (receive (start allocatable peer header) bytes).reading ≠ none := by
  obtain ⟨rest,rfl⟩ := early
  rcases start_settled allocatable peer header bytes with ⟨calm,reading,_⟩ | ⟨raised,deaf,_⟩
  · exact ⟨calm,reading⟩
  · have stays : receive (start allocatable peer header) (bytes ++ rest) =
        receive (start allocatable peer header) bytes := by
      rw [receive_append,receive_deaf deaf]
    rcases start_settled allocatable peer header (bytes ++ rest) with ⟨calm,_⟩ | ⟨_,_,met,member,exceeds⟩
    · rw [stays] at calm
      exact absurd (raised.symm.trans calm) (by decide)
    · exact absurd (all met member) exceeds

theorem robust_iff (allocatable : Nat) (peer : Peer) (header : NetMessageHeader) (stream : List UInt8) (ended : Bool) :
    Robust allocatable peer header stream ended ↔ ∀ met ∈ headers stream, Fits allocatable met := by
  constructor
  · intro robust
    rcases start_settled allocatable peer header stream with ⟨_,_,all⟩ | ⟨raised,_⟩
    · exact all
    · have survives := robust (stream.map .byte) (List.prefix_append _ _)
      exact absurd (raised.symm.trans survives.1) (by decide)
  · intro all early before
    have heard : ∀ early, early <+: stream.map Arrival.byte →
        Survives (early.foldl step (start allocatable peer header)) := by
      intro early before
      obtain ⟨bytes,within,rfl⟩ := List.prefix_map_iff.mp before
      obtain ⟨calm,reading⟩ := listening_early peer header all within
      exact ⟨calm,.inl reading⟩
    cases ended with
    | false => exact heard early (by simpa [arrivals] using before)
    | true =>
        rcases List.prefix_concat_iff.mp before with rfl | early
        · obtain ⟨calm,reading⟩ := listening_early peer header all (List.prefix_refl stream)
          obtain ⟨part,reads⟩ := Option.ne_none_iff_exists'.mp reading
          rw [List.foldl_append]
          change Survives (step (receive (start allocatable peer header) stream) .failure)
          simp only [step,reads]
          exact ⟨calm,.inr rfl⟩
        · exact heard _ early

-- A header whose size field is 2^63, with memory for all that a vector can hold.
theorem robust_fails :
    ¬ Robust maxSize () ⟨0,zeros 16,zeros 7,0⟩ (List.replicate 31 0 ++ [128]) false := by
  intro robust
  exact absurd (robust _ (List.prefix_refl _)).1 (by decide)

end Keyser.HostileStreams
