import Mathlib.Data.Vector.Basic
import Mathlib.Data.List.Basic
import Mathlib.Tactic.Common

namespace Keyser.Memory

-- std::array<uint8_t,n> and char[n]: the length is part of the value.
abbrev Bytes (n : Nat) := List.Vector UInt8 n

def zeros (n : Nat) : Bytes n := List.Vector.replicate n 0

def littleEndian : Nat → Nat → List UInt8
  | 0,_ => []
  | width+1,value => UInt8.ofNat value :: littleEndian width (value / 256)

def fromLittleEndian : List UInt8 → Nat
  | [] => 0
  | byte :: rest => byte.toNat + 256*fromLittleEndian rest

@[simp] theorem littleEndian_length : (littleEndian width value).length = width := by
  induction width generalizing value with
  | zero => rfl
  | succ width ih => simp [littleEndian,ih]

theorem fromLittleEndian_littleEndian (small : value < 256^width) :
    fromLittleEndian (littleEndian width value) = value := by
  induction width generalizing value with
  | zero => simp only [Nat.pow_zero] at small; simp only [littleEndian,fromLittleEndian]; omega
  | succ width ih =>
      have rest : value / 256 < 256^width := by
        rw [Nat.pow_succ] at small
        exact Nat.div_lt_of_lt_mul (by omega)
      simp only [littleEndian,fromLittleEndian,ih rest,UInt8.toNat_ofNat']
      omega

theorem fromLittleEndian_small (bytes : List UInt8) : fromLittleEndian bytes < 256^bytes.length := by
  induction bytes with
  | nil => exact Nat.one_pos
  | cons byte rest ih =>
      have small := byte.toNat_lt
      simp only [fromLittleEndian,List.length_cons,Nat.pow_succ]
      omega

theorem littleEndian_fromLittleEndian (bytes : List UInt8) :
    littleEndian bytes.length (fromLittleEndian bytes) = bytes := by
  induction bytes with
  | nil => rfl
  | cons byte rest ih =>
      have small := byte.toNat_lt
      have low : UInt8.ofNat (byte.toNat + 256*fromLittleEndian rest) = byte := by
        rw [← UInt8.toNat_inj,UInt8.toNat_ofNat']
        omega
      have high : (byte.toNat + 256*fromLittleEndian rest) / 256 = fromLittleEndian rest := by omega
      rw [List.length_cons,littleEndian,fromLittleEndian,low,high,ih]

-- uint64_t, size_t and time_t
def word (value : UInt64) : List UInt8 := littleEndian 8 value.toNat

def readWord (bytes : List UInt8) : UInt64 := UInt64.ofNat (fromLittleEndian bytes)

@[simp] theorem word_length : (word value).length = 8 := littleEndian_length

theorem readWord_word (value : UInt64) : readWord (word value) = value := by
  have small : value.toNat < 256^8 := value.toNat_lt
  simp [readWord,word,fromLittleEndian_littleEndian small]

theorem word_readWord (bytes : List UInt8) (eight : bytes.length = 8) : word (readWord bytes) = bytes := by
  have small : fromLittleEndian bytes < 2^64 := by
    have bound := fromLittleEndian_small bytes
    rw [eight] at bound
    exact bound
  have exact := littleEndian_fromLittleEndian bytes
  rw [eight] at exact
  rw [word,readWord,UInt64.toNat_ofNat',Nat.mod_eq_of_lt small,exact]

theorem word_injective (same : word left = word right) : left = right := by
  rw [← readWord_word left,same,readWord_word]

-- A stack array starts without values, and reading a cell without one has no result.
abbrev Region := List (Option UInt8)

def uninitialised (size : Nat) : Region := List.replicate size none

def memcpy (buf : Region) (offset : Nat) (source : List UInt8) : Region :=
  buf.take offset ++ source.map some ++ buf.drop (offset + source.length)

def load (buf : Region) (size : Nat) : Option (List UInt8) := (buf.take size).mapM id

def written (size : Nat) (content : List UInt8) : Region :=
  content.map some ++ uninitialised (size - content.length)

theorem uninitialised_written (size : Nat) : uninitialised size = written size [] := by
  simp [written]

-- The rule for a row of copies: each starts where the last one ended.
theorem memcpy_written (at_end : content.length = offset) (fits : offset + source.length ≤ size) :
    memcpy (written size content) offset source = written size (content ++ source) := by
  have front : (content.map some ++ uninitialised (size - content.length)).take offset = content.map some := by
    rw [List.take_append_of_le_length (by simp [at_end])]
    simp [at_end]
  have back : (content.map some ++ uninitialised (size - content.length)).drop (offset + source.length) =
      uninitialised (size - (content ++ source).length) := by
    rw [List.drop_append,List.drop_of_length_le (by simp [at_end])]
    simp only [List.nil_append,uninitialised,List.drop_replicate,List.length_map,List.length_append]
    congr 1
    omega
  simp only [memcpy,written,front,back,List.map_append]

-- One memcpy: where it starts and what it copies.
abbrev Copy := Nat × List UInt8

def copyAll (buf : Region) (copies : List Copy) : Region :=
  copies.foldl (fun buf copy => memcpy buf copy.1 copy.2) buf

def Copy.covers (copy : Copy) (i : Nat) : Bool := copy.1 ≤ i && i < copy.1 + copy.2.length

-- Each copy starts where the last one ended, and the last ends at `stop`.
def Tiles : (start : Nat) → List Copy → (stop : Nat) → Prop
  | start,[],stop => start = stop
  | start,copy :: rest,stop => copy.1 = start ∧ Tiles (start + copy.2.length) rest stop

theorem Tiles.le (tiles : Tiles start copies stop) : start ≤ stop := by
  induction copies generalizing start with
  | nil => exact Nat.le_of_eq tiles
  | cons copy rest ih => exact Nat.le_trans (Nat.le_add_right ..) (ih tiles.2)

theorem Tiles.covered (tiles : Tiles start copies stop) (i : Nat) :
    copies.countP (·.covers i) = if start ≤ i ∧ i < stop then 1 else 0 := by
  induction copies generalizing start with
  | nil =>
      unfold Tiles at tiles
      have outside : ¬ (start ≤ i ∧ i < stop) := by omega
      rw [List.countP_nil,if_neg outside]
  | cons copy rest ih =>
      obtain ⟨here,later⟩ := tiles
      have longer := later.le
      rw [List.countP_cons,ih later]
      by_cases inside : copy.covers i = true
      · have range := inside
        unfold Copy.covers at range
        simp only [Bool.and_eq_true,decide_eq_true_eq] at range
        have before : ¬ (start + copy.2.length ≤ i ∧ i < stop) := by omega
        have whole : start ≤ i ∧ i < stop := by omega
        rw [if_pos inside,if_neg before,if_pos whole]
      · have range := inside
        unfold Copy.covers at range
        simp only [Bool.and_eq_true,decide_eq_true_eq] at range
        have same : (start + copy.2.length ≤ i ∧ i < stop) ↔ start ≤ i ∧ i < stop := by omega
        rw [if_neg inside,Nat.add_zero]
        simp only [same]

theorem Tiles.copyAll_written (tiles : Tiles start copies stop) (at_start : content.length = start)
    (fits : stop ≤ size) :
    copyAll (written size content) copies = written size (content ++ copies.flatMap Prod.snd) := by
  induction copies generalizing start content with
  | nil => simp [copyAll]
  | cons copy rest ih =>
      obtain ⟨here,later⟩ := tiles
      have room : copy.1 + copy.2.length ≤ size := Nat.le_trans (here ▸ later.le) fits
      have longer : (content ++ copy.2).length = start + copy.2.length := by
        rw [List.length_append,at_start]
      have onward := ih later longer
      unfold copyAll at onward ⊢
      rw [List.foldl_cons,memcpy_written (at_start.trans here.symm) room,onward,List.append_assoc]
      rfl

theorem load_written (full : content.length = size) : load (written size content) size = some content := by
  have whole : (written size content).take size = content.map some := by
    simp [written,full,uninitialised]
  rw [load,whole]
  clear full whole
  induction content with
  | nil => rfl
  | cons byte rest ih => simp [ih]

end Keyser.Memory
