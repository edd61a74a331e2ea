import Keyser.HostileStreams

namespace Keyser.Streams
open Memory Framing PeerReceive HostileStreams

variable {Peer : Type*}

theorem header_long {stream : List UInt8} (long : 32 ≤ stream.length) : (stream.take 32).length = 32 := by
  simp [long]

theorem body_long {rest : List UInt8} (whole : size ≤ rest.length ∧ size ≤ maxSize) :
    (rest.take size).length = size := by
  simp [whole.1]

-- The complete frames at the front of a stream, up to the first header that does not fit.
def frames (stream : List UInt8) : List Frame :=
  if long : 32 ≤ stream.length then
    let header := NetMessageHeader.ofBytes ⟨stream.take 32,header_long long⟩
    if whole : header.size.toNat ≤ (stream.drop 32).length ∧ header.size.toNat ≤ maxSize then
      ⟨⟨header,⟨(stream.drop 32).take header.size.toNat,(body_long whole).le.trans whole.2⟩⟩,(body_long whole).symm⟩ ::
        frames (stream.drop (32 + header.size.toNat))
    else []
  else []
termination_by stream.length
decreasing_by
  rw [List.length_drop]
  omega

-- All there is of a body, or all that can be read of it.
def Cut (header : NetMessageHeader) (rest : List UInt8) : Prop :=
  rest.length < header.size.toNat ∨ maxSize < header.size.toNat

theorem frame_ext {one two : Frame} (header : one.header = two.header) (body : one.body.bytes = two.body.bytes) :
    one = two := by
  obtain ⟨⟨_,_⟩,_⟩ := one
  obtain ⟨⟨_,_⟩,_⟩ := two
  cases header
  cases ByteVector.eq_of_bytes body
  rfl

-- A stream begins with a frame, or it is a part of one.
theorem stream_cases (stream : List UInt8) :
    stream.length < 32 ∨ (∃ (header : NetMessageHeader) (rest : List UInt8), stream = header.bytes ++ rest ∧
      Cut header rest) ∨ ∃ (frame : Frame) (rest : List UInt8), stream = frame.wire ++ rest := by
  by_cases short : stream.length < 32
  · exact .inl short
  · have full : (stream.take 32).length = 32 := by simp; omega
    have head : (NetMessageHeader.ofBytes ⟨stream.take 32,full⟩).bytes = stream.take 32 := bytes_ofBytes _
    have split : stream = (NetMessageHeader.ofBytes ⟨stream.take 32,full⟩).bytes ++ stream.drop 32 := by
      rw [head,List.take_append_drop]
    clear head
    generalize NetMessageHeader.ofBytes ⟨stream.take 32,full⟩ = header at split
    generalize stream.drop 32 = rest at split
    by_cases cut : Cut header rest
    · exact .inr (.inl ⟨header,rest,split,cut⟩)
    · unfold Cut at cut
      have whole : (rest.take header.size.toNat).length = header.size.toNat := by simp; omega
      refine .inr (.inr ⟨⟨⟨header,⟨rest.take header.size.toNat,by omega⟩⟩,whole.symm⟩,rest.drop header.size.toNat,?_⟩)
      rw [NetMessage.wire,List.append_assoc,List.take_append_drop]
      exact split

theorem frames_short (short : stream.length < 32) : frames stream = [] := by
  rw [frames,dif_neg (by omega)]

theorem bytes_take (header : NetMessageHeader) (rest : List UInt8) : (header.bytes ++ rest).take 32 = header.bytes := by
  rw [← bytes_length header,List.take_left]

theorem bytes_drop (header : NetMessageHeader) (rest : List UInt8) : (header.bytes ++ rest).drop 32 = rest := by
  rw [← bytes_length header,List.drop_left]

theorem frames_cut (cut : Cut header rest) : frames (header.bytes ++ rest) = [] := by
  unfold Cut at cut
  rw [frames,dif_pos (by simp)]
  simp only [bytes_take,bytes_drop,ofBytes_bytes]
  rw [dif_neg (by omega)]

theorem frames_frame (frame : Frame) (rest : List UInt8) : frames (frame.wire ++ rest) = frame :: frames rest := by
  have size := frame.sized
  have fits := frame.body.bounded
  rw [ByteVector.size] at size
  have behind : (frame.header.bytes ++ (frame.body.bytes ++ rest)).drop (32 + frame.header.size.toNat) = rest := by
    rw [← List.drop_drop,bytes_drop,size,List.drop_left]
  rw [NetMessage.wire,List.append_assoc,frames,dif_pos (by simp)]
  simp only [bytes_take,bytes_drop,ofBytes_bytes]
  rw [dif_pos (by simp; omega),behind]
  exact congrArg (· :: frames rest) (frame_ext rfl ((congrArg (List.take · _) size).trans List.take_left))

-- No frame is read in two ways.
theorem frames_wire (sent : List Frame) (rest : List UInt8) :
    frames (sent.flatMap (fun frame => frame.wire) ++ rest) = sent ++ frames rest := by
  induction sent with
  | nil => rfl
  | cons frame sent ih => rw [List.flatMap_cons,List.append_assoc,frames_frame,ih,List.cons_append]

theorem frames_all (sent : List Frame) : frames (sent.flatMap fun frame => frame.wire) = sent := by
  have read := frames_wire sent []
  have none : frames [] = [] := frames_short (by simp)
  rwa [List.append_nil,none,List.append_nil] at read

theorem wire_positive (frame : Frame) : 0 < frame.wire.length := by
  rw [NetMessage.wire,List.length_append,bytes_length]
  omega

theorem frames_extend (before : early <+: stream) : frames early <+: frames stream := by
  induction size : early.length using Nat.strong_induction_on generalizing early stream with
  | _ total ih =>
    rcases stream_cases early with short | ⟨header,rest,rfl,cut⟩ | ⟨frame,rest,rfl⟩
    · rw [frames_short short]
      exact List.nil_prefix
    · rw [frames_cut cut]
      exact List.nil_prefix
    · obtain ⟨later,rfl⟩ := before
      rw [List.append_assoc,frames_frame,frames_frame]
      have positive := wire_positive frame
      rw [List.length_append] at size
      exact List.cons_prefix_cons.mpr ⟨rfl,ih rest.length (by omega) (List.prefix_append _ _) rfl⟩

theorem receive_cut {s : Receiver Peer} (ready : Ready s) (roomy : s.allocatable = maxSize) (cut : Cut header rest) :
    (receive s (header.bytes ++ rest)).pushed = s.pushed := by
  unfold Cut at cut
  rw [receive_append,receive_header ready (bytes_length header),ofBytes_bytes]
  have sized : 0 < header.size.toNat := by omega
  by_cases fits : header.size.toNat ≤ maxSize
  · obtain ⟨resized,resize,size⟩ := s.msgTemporaryIn.body.resize_size (And.intro fits (roomy ▸ fits))
    simp only [Receiver.onHeader,sized,if_true,resize]
    rw [receive_part rfl (by simp [Receiver.readBody,Receiver.wanted,size]; omega)]
    rfl
  · have raises : s.msgTemporaryIn.body.resize s.allocatable header.size.toNat = none :=
      dif_neg fun both => fits both.1
    simp only [Receiver.onHeader,sized,if_true,raises]
    rw [receive_deaf rfl]

-- Whatever the bytes are, the read loop pushes the frames they begin with.
theorem receive_stream (stream : List UInt8) {s : Receiver Peer} (ready : Ready s) (roomy : s.allocatable = maxSize) :
    (receive s stream).pushed = s.pushed ++ (deliveries s.msgTemporaryIn.body (frames stream)).map (⟨s.peer,·⟩) := by
  induction size : stream.length using Nat.strong_induction_on generalizing stream s with
  | _ total ih =>
    rcases stream_cases stream with short | ⟨header,rest,rfl,cut⟩ | ⟨frame,rest,rfl⟩
    · obtain ⟨reading,empty⟩ := ready
      rw [frames_short short,receive_part reading (by simpa [empty,Receiver.wanted] using short)]
      simp [deliveries]
    · rw [frames_cut cut,receive_cut ready roomy cut]
      simp [deliveries]
    · obtain ⟨stillReady,peer,held,pushed⟩ := receive_frame ready roomy frame
      have stillRoomy := (receive_allocatable s frame.wire).trans roomy
      have positive := wire_positive frame
      rw [List.length_append] at size
      rw [receive_append,ih rest.length (by omega) rest stillReady stillRoomy rfl,held,peer,pushed,frames_frame,
        deliveries]
      simp

theorem frames_begin (stream : List UInt8) :
    ∃ rest, stream = (frames stream).flatMap (fun frame => frame.wire) ++ rest ∧ frames rest = [] := by
  induction size : stream.length using Nat.strong_induction_on generalizing stream with
  | _ total ih =>
    rcases stream_cases stream with short | ⟨header,rest,rfl,cut⟩ | ⟨frame,rest,rfl⟩
    · exact ⟨stream,by simp [frames_short short],frames_short short⟩
    · exact ⟨header.bytes ++ rest,by simp [frames_cut cut],frames_cut cut⟩
    · have positive := wire_positive frame
      rw [List.length_append] at size
      obtain ⟨left,split,none⟩ := ih rest.length (by omega) rest rfl
      refine ⟨left,?_,none⟩
      rw [frames_frame,List.flatMap_cons,List.append_assoc,← split]

-- What is pushed of a stream: the longest sequence of frames that it begins with.
structure Parses (peer : Peer) (header : NetMessageHeader) (stream : List UInt8) : Prop where
  begins : ∃ rest, stream = (frames stream).flatMap (fun frame => frame.wire) ++ rest ∧ frames rest = []
  longest : ∀ (sent : List Frame) (rest : List UInt8), stream = sent.flatMap (fun frame => frame.wire) ++ rest →
    sent <+: frames stream
  pushed : (receive (fresh peer header) stream).pushed = (deliveries .empty (frames stream)).map (⟨peer,·⟩)

theorem fresh_stream (peer : Peer) (header : NetMessageHeader) (stream : List UInt8) :
    (receive (fresh peer header) stream).pushed = (deliveries .empty (frames stream)).map (⟨peer,·⟩) := by
  simpa [fresh] using receive_stream stream (s := fresh peer header) ⟨rfl,rfl⟩ rfl

theorem parses (peer : Peer) (header : NetMessageHeader) (stream : List UInt8) : Parses peer header stream := by
  refine ⟨frames_begin stream,?_,fresh_stream peer header stream⟩
  rintro sent rest rfl
  rw [frames_wire]
  exact List.prefix_append _ _

theorem headers_fit {sent : List Frame} (before : stream <+: sent.flatMap fun frame => frame.wire) :
    ∀ header ∈ headers stream, Fits maxSize header := by
  induction sent generalizing stream with
  | nil =>
      rw [List.prefix_nil.mp before,headers_short (by simp)]
      exact nofun
  | cons frame sent ih =>
      by_cases short : stream.length < 32
      · rw [headers_short short]
        exact nofun
      · have sized := frame.sized
        have fits := frame.body.bounded
        rw [List.flatMap_cons,NetMessage.wire,List.append_assoc] at before
        obtain ⟨rest,rfl⟩ : frame.header.bytes <+: stream :=
          List.prefix_of_prefix_length_le (List.prefix_append _ _) before (by simp; omega)
        obtain ⟨more,split⟩ := (List.prefix_append_right_inj _).mp before
        have behind : rest.drop frame.body.bytes.length <+: sent.flatMap fun frame => frame.wire :=
          ⟨more.drop (frame.body.bytes.length - rest.length),by rw [← List.drop_append,split,List.drop_left]⟩
        rw [headers_frame frame.header.bytes (bytes_length frame.header) rest]
        have head : NetMessageHeader.ofBytes ⟨frame.header.bytes,bytes_length frame.header⟩ = frame.header :=
          ofBytes_bytes frame.header
        rw [head,sized]
        intro header member
        rcases List.mem_cons.mp member with rfl | later
        · rw [Fits,sized]
          exact ⟨fits,fits⟩
        · exact ih behind header later

theorem deliveries_extend (body : ByteVector) (before : early <+: sent) :
    deliveries body early <+: deliveries body sent := by
  induction early generalizing body sent with
  | nil => exact List.nil_prefix
  | cons frame early ih =>
      obtain ⟨later,rfl⟩ := before
      exact List.cons_prefix_cons.mpr ⟨rfl,ih _ (List.prefix_append _ _)⟩

theorem pushed_extend (peer : Peer) (header : NetMessageHeader) (before : early <+: stream) :
    (receive (fresh peer header) early).pushed <+: (receive (fresh peer header) stream).pushed := by
  rw [fresh_stream peer header early,fresh_stream peer header stream]
  exact (deliveries_extend .empty (frames_extend before)).map _

end Keyser.Streams
