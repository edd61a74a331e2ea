import Keyser.Memory
import Mathlib.Data.List.Basic

namespace Keyser.Framing
open Memory

-- std::vector<unsigned char>::max_size()
def maxSize : Nat := 2^63 - 1

structure ByteVector where
  bytes : List UInt8
  bounded : bytes.length ≤ maxSize
  deriving DecidableEq

def ByteVector.empty : ByteVector := ⟨[],by decide⟩

def ByteVector.size (vector : ByteVector) : Nat := vector.bytes.length

-- `none` is the length_error of a size over max_size(), or the bad_alloc of one over what
-- there is memory for.
def ByteVector.resize (allocatable : Nat) (vector : ByteVector) (count : Nat) : Option ByteVector :=
  if fits : count ≤ maxSize ∧ count ≤ allocatable then
    some ⟨vector.bytes.take count ++ List.replicate (count - vector.bytes.length) 0,by simp; omega⟩
  else none

theorem ByteVector.eq_of_bytes {left right : ByteVector} (same : left.bytes = right.bytes) : left = right := by
  cases left
  cases right
  cases same
  rfl

theorem ByteVector.resize_size (vector : ByteVector) (fits : count ≤ maxSize ∧ count ≤ allocatable) :
    ∃ resized, vector.resize allocatable count = some resized ∧ resized.size = count := by
  refine ⟨_,dif_pos fits,?_⟩
  simp only [size,List.length_append,List.length_take,List.length_replicate]
  omega

-- The struct crosses the wire as it is laid out, padding included.
structure NetMessageHeader where
  magic : UInt8
  command : Bytes 16
  padding : Bytes 7
  size : UInt64
  deriving DecidableEq

def NetMessageHeader.bytes (header : NetMessageHeader) : List UInt8 :=
  header.magic :: (header.command.toList ++ header.padding.toList ++ word header.size)

def NetMessageHeader.ofBytes (raw : Bytes 32) : NetMessageHeader :=
  { magic := raw.head
    command := ⟨(raw.toList.drop 1).take 16,by simp⟩
    padding := ⟨(raw.toList.drop 17).take 7,by simp⟩
    size := readWord (raw.toList.drop 24) }

@[simp] theorem bytes_length (header : NetMessageHeader) : header.bytes.length = 32 := by
  simp [NetMessageHeader.bytes]

theorem ofBytes_bytes (header : NetMessageHeader) :
    NetMessageHeader.ofBytes ⟨header.bytes,bytes_length header⟩ = header := by
  obtain ⟨magic,⟨command,sixteen⟩,⟨padding,seven⟩,size⟩ := header
  have front : (command ++ (padding ++ word size)).take 16 = command := by
    rw [List.take_append_of_le_length (by omega),← sixteen,List.take_length]
  have skip : (command ++ (padding ++ word size)).drop 16 = padding ++ word size := by
    rw [← sixteen,List.drop_left]
  have middle : (padding ++ word size).take 7 = padding := by
    rw [List.take_append_of_le_length (by omega),← seven,List.take_length]
  have back : (command ++ (padding ++ word size)).drop 23 = word size := by
    rw [← List.append_assoc,List.drop_left' (by simp [sixteen,seven])]
  simp [NetMessageHeader.ofBytes,NetMessageHeader.bytes,List.Vector.toList,List.Vector.head,
    front,skip,middle,back,readWord_word]

-- Any 32 bytes are a header.
theorem bytes_ofBytes (raw : Bytes 32) : (NetMessageHeader.ofBytes raw).bytes = raw.toList := by
  obtain ⟨bytes,full⟩ := raw
  obtain ⟨magic,rest,rfl⟩ := List.exists_cons_of_length_eq_add_one full
  have eight : (rest.drop 23).length = 8 := by
    rw [List.length_cons] at full
    rw [List.length_drop]
    omega
  have size : word (readWord (rest.drop 23)) = rest.drop 23 := word_readWord _ eight
  have split : rest.take 16 ++ ((rest.drop 16).take 7 ++ (rest.drop 16).drop 7) = rest := by
    rw [List.take_append_drop,List.take_append_drop]
  rw [List.drop_drop] at split
  simpa [NetMessageHeader.bytes,NetMessageHeader.ofBytes,List.Vector.toList,List.Vector.head,size] using split

structure NetMessage where
  header : NetMessageHeader
  body : ByteVector
  deriving DecidableEq

def NetMessage.wire (msg : NetMessage) : List UInt8 := msg.header.bytes ++ msg.body.bytes

structure Frame extends NetMessage where
  sized : header.size.toNat = body.size

inductive Part where
  | header
  | body
  deriving DecidableEq

end Keyser.Framing
