import Keyser.Memory
import Mathlib.Data.Int.Basic

namespace Keyser.AesCipher
open Memory

-- What OpenSSL documents of AES-256-CBC with padding: the context keeps an open block, the
-- update writes the full ones, and the final call the last one. No call fails on such input.
structure Evp (Ctx : Type) where
  encryptInit : (key : Bytes 32) → (iv : Bytes 16) → Ctx
  encryptUpdate : Ctx → List UInt8 → Option (List UInt8 × Ctx)
  encryptFinal : Ctx → Option (List UInt8)
  decryptInit : (key : Bytes 32) → (iv : Bytes 16) → Ctx
  decryptUpdate : Ctx → List UInt8 → Option (List UInt8 × Ctx)
  decryptFinal : Ctx → Option (List UInt8)
  encrypts : ∀ key iv plain, ∃ front ctx back, encryptUpdate (encryptInit key iv) plain = some (front,ctx) ∧
    encryptFinal ctx = some back ∧ front.length = plain.length / 16*16 ∧ back.length = 16
  decrypts : ∀ key iv plain front ctx back, encryptUpdate (encryptInit key iv) plain = some (front,ctx) →
    encryptFinal ctx = some back → ∃ first held last,
      decryptUpdate (decryptInit key iv) (front ++ back) = some (first,held) ∧
      decryptFinal held = some last ∧ first ++ last = plain

-- RAND_bytes fills both; the password of the other constructor is not read.
structure AESCipher where
  _key : Bytes 32
  _iv : Bytes 16

def INT_MAX : Int := 2^31 - 1

-- A size_t passed for an int.
def toInt (size : Nat) : Int := (size : Int).bmod (2^32)

-- += on int: an overflow is undefined.
def addInt (a b : Int) : Option Int := if a + b ≤ INT_MAX then some (a + b) else none

def strlen : List UInt8 → Nat
  | [] => 0
  | byte :: rest => if byte = 0 then 0 else strlen rest + 1

-- The bytes an EVP call takes; a negative length is its failure.
def input (bytes : List UInt8) (inl : Int) : Option (List UInt8) :=
  if inl < 0 then none else some (bytes.take inl.toNat)

variable {Ctx : Type}

-- The bytes written to the buffer, and the length returned. data() ends in a null.
def encrypt (evp : Evp Ctx) (cipher : AESCipher) (plainText : List UInt8) : Option (List UInt8 × Int) := do
  let ctx := evp.encryptInit cipher._key cipher._iv
  let plaintext ← input plainText (toInt (strlen (plainText ++ [0])))
  let (front,ctx) ← evp.encryptUpdate ctx plaintext
  let ciphertext_len : Int := front.length
  let back ← evp.encryptFinal ctx
  let ciphertext_len ← addInt ciphertext_len back.length
  return (front ++ back,ciphertext_len)

def decrypt (evp : Evp Ctx) (cipher : AESCipher) (ciphertext : List UInt8) (ciphertext_len : Int) :
    Option (List UInt8 × Int) := do
  let ctx := evp.decryptInit cipher._key cipher._iv
  let ciphertext ← input ciphertext ciphertext_len
  let (front,ctx) ← evp.decryptUpdate ctx ciphertext
  let plaintext_len : Int := front.length
  let back ← evp.decryptFinal ctx
  let plaintext_len ← addInt plaintext_len back.length
  return (front ++ back,plaintext_len)

def RoundTrip (evp : Evp Ctx) (cipher : AESCipher) (plainText : List UInt8) : Prop :=
  ∃ ciphertext L, encrypt evp cipher plainText = some (ciphertext,L) ∧ L = ciphertext.length ∧
    decrypt evp cipher ciphertext L = some (plainText,(plainText.length : Int))

theorem strlen_le (bytes : List UInt8) : strlen (bytes ++ [0]) ≤ bytes.length := by
  induction bytes with
  | nil => exact Nat.le_refl _
  | cons byte rest ih =>
      rw [List.cons_append,strlen,List.length_cons]
      split <;> omega

theorem strlen_whole (bytes : List UInt8) : strlen (bytes ++ [0]) = bytes.length ↔ 0 ∉ bytes := by
  induction bytes with
  | nil => simp [strlen]
  | cons byte rest ih =>
      rw [List.cons_append,strlen,List.length_cons,List.mem_cons,not_or,← ih]
      by_cases null : byte = 0
      · rw [if_pos null]
        exact iff_of_false (by omega) fun both => both.1 null.symm
      · rw [if_neg null]
        constructor
        · intro same
          exact ⟨fun zero => null zero.symm,by omega⟩
        · intro both
          omega

theorem toInt_le (size : Nat) : toInt size ≤ size := by
  unfold toInt
  rw [Int.bmod_def]
  split <;> omega

theorem toInt_small (small : size < 2^31) : toInt size = size := by
  unfold toInt
  rw [Int.bmod_def]
  split <;> omega

theorem input_length (bytes : List UInt8) : input bytes bytes.length = some bytes := by
  unfold input
  rw [if_neg (by omega),Int.toNat_natCast,List.take_length]

theorem input_whole (read : input bytes inl = some bytes) : (bytes.length : Int) ≤ inl := by
  unfold input at read
  split at read
  · cases read
  · have length := congrArg List.length (Option.some.inj read)
    rw [List.length_take] at length
    omega

theorem addInt_total (total : a + b = c) : addInt a b = if c ≤ INT_MAX then some c else none := by
  unfold addInt
  rw [total]

-- One call of encrypt on the bytes it reads, and the decryption of what it wrote.
theorem encrypt_input (evp : Evp Ctx) (cipher : AESCipher)
    (read : input plainText (toInt (strlen (plainText ++ [0]))) = some plaintext) :
    ∃ ciphertext : List UInt8,
      encrypt evp cipher plainText =
        (if plaintext.length < 2^31 - 16 then some (ciphertext,(ciphertext.length : Int)) else none) ∧
      (plaintext.length < 2^31 - 16 →
        decrypt evp cipher ciphertext ciphertext.length = some (plaintext,(plaintext.length : Int))) := by
  obtain ⟨front,ctx,back,updated,finished,sizeFront,sizeBack⟩ := evp.encrypts cipher._key cipher._iv plaintext
  obtain ⟨first,held,last,opened,closed,whole⟩ :=
    evp.decrypts cipher._key cipher._iv plaintext front ctx back updated finished
  refine ⟨front ++ back,?_,?_⟩
  · have total : (front.length : Int) + back.length = (front ++ back).length := by
      rw [List.length_append,Int.natCast_add]
    have size : (front ++ back).length = plaintext.length / 16*16 + 16 := by
      rw [List.length_append,sizeFront,sizeBack]
    have room : ((front ++ back).length : Int) ≤ INT_MAX ↔ plaintext.length < 2^31 - 16 := by
      unfold INT_MAX
      omega
    unfold encrypt
    simp only [read,updated,finished,Option.bind_eq_bind,Option.bind_some,addInt_total total,room]
    split <;> rfl
  · intro fits
    have total : (first.length : Int) + last.length = plaintext.length := by
      rw [← whole,List.length_append,Int.natCast_add]
    have room : (plaintext.length : Int) ≤ INT_MAX := by
      unfold INT_MAX
      omega
    unfold decrypt
    simp only [input_length,opened,closed,Option.bind_eq_bind,Option.bind_some,addInt_total total,room,if_true,whole]
    rfl

theorem roundTrip_iff (evp : Evp Ctx) (cipher : AESCipher) (plainText : List UInt8) :
    RoundTrip evp cipher plainText ↔ 0 ∉ plainText ∧ plainText.length < 2^31 - 16 := by
  constructor
  · rintro ⟨ciphertext,L,encrypted,rfl,decrypted⟩
    cases read : input plainText (toInt (strlen (plainText ++ [0]))) with
    | none =>
        unfold encrypt at encrypted
        simp [read] at encrypted
    | some plaintext =>
        obtain ⟨written,outcome,back⟩ := encrypt_input evp cipher read
        rw [outcome] at encrypted
        split at encrypted
        · rename_i fits
          cases encrypted
          rw [back fits] at decrypted
          cases decrypted
          have whole := input_whole read
          have cut := toInt_le (strlen (plainText ++ [0]))
          have short := strlen_le plainText
          exact ⟨(strlen_whole plainText).mp (by omega),fits⟩
        · cases encrypted
  · rintro ⟨nulls,fits⟩
    have read : input plainText (toInt (strlen (plainText ++ [0]))) = some plainText := by
      rw [(strlen_whole plainText).mpr nulls,toInt_small (by omega),input_length]
    obtain ⟨ciphertext,encrypted,decrypted⟩ := encrypt_input evp cipher read
    rw [if_pos fits] at encrypted
    exact ⟨ciphertext,_,encrypted,rfl,decrypted fits⟩

-- The cipher with the key and the iv of zeros, on the one block encrypted below; its values
-- on other blocks are not used.
def plainBlock : List UInt8 := 97 :: List.replicate 15 15

def cipherBlock : List UInt8 := [180,165,233,138,246,129,10,131,189,245,43,20,174,130,44,55]

def sampleBlock (bytes : List UInt8) : List UInt8 :=
  if bytes = plainBlock then cipherBlock else if bytes = cipherBlock then plainBlock else bytes

def pad (rest : List UInt8) : List UInt8 :=
  rest ++ List.replicate (16 - rest.length) (UInt8.ofNat (16 - rest.length))

def unpad (bytes : List UInt8) : List UInt8 := bytes.take (16 - (bytes.getD 15 0).toNat)

theorem sampleBlock_inverse (bytes : List UInt8) : sampleBlock (sampleBlock bytes) = bytes := by
  have other : cipherBlock ≠ plainBlock := by decide
  unfold sampleBlock
  by_cases plain : bytes = plainBlock
  · rw [if_pos plain,if_neg other,if_pos rfl,plain]
  · rw [if_neg plain]
    by_cases cipher : bytes = cipherBlock
    · rw [if_pos cipher,if_pos rfl,cipher]
    · rw [if_neg cipher,if_neg plain,if_neg cipher]

theorem sampleBlock_length (size : bytes.length = 16) : (sampleBlock bytes).length = 16 := by
  unfold sampleBlock
  split
  · rfl
  · split
    · rfl
    · exact size

theorem pad_length (short : rest.length < 16) : (pad rest).length = 16 := by
  rw [pad,List.length_append,List.length_replicate]
  omega

theorem unpad_pad (short : rest.length < 16) : unpad (pad rest) = rest := by
  have last : (pad rest).getD 15 0 = UInt8.ofNat (16 - rest.length) := by
    rw [pad,List.getD_eq_getElem?_getD,List.getElem?_append_right (by omega),List.getElem?_replicate,
      if_pos (by omega),Option.getD_some]
  have count : 16 - (UInt8.ofNat (16 - rest.length)).toNat = rest.length := by
    rw [UInt8.toNat_ofNat']
    omega
  rw [unpad,last,count,pad,List.take_left]

theorem open_block (plain : List UInt8) : (plain.drop (plain.length / 16*16)).length < 16 := by
  rw [List.length_drop]
  omega

def sampleEvp : Evp (List UInt8) where
  encryptInit _ _ := []
  encryptUpdate ctx bytes :=
    let bytes := ctx ++ bytes
    some (bytes.take (bytes.length / 16*16),bytes.drop (bytes.length / 16*16))
  encryptFinal ctx := some (sampleBlock (pad ctx))
  decryptInit _ _ := []
  decryptUpdate ctx bytes :=
    let bytes := ctx ++ bytes
    some (bytes.take (bytes.length - 16),bytes.drop (bytes.length - 16))
  decryptFinal ctx := some (unpad (sampleBlock ctx))
  encrypts key iv plain := by
    refine ⟨_,_,_,rfl,rfl,?_,sampleBlock_length (pad_length (open_block plain))⟩
    rw [List.nil_append,List.length_take]
    omega
  decrypts key iv plain front ctx back updated finished := by
    cases updated
    cases finished
    have size := sampleBlock_length (pad_length (open_block plain))
    refine ⟨_,_,_,rfl,rfl,?_⟩
    simp only [List.nil_append,List.length_append,size,Nat.add_sub_cancel,List.take_left,List.drop_left,
      sampleBlock_inverse,unpad_pad (open_block plain),List.take_append_drop]

def zeroCipher : AESCipher := ⟨zeros 32,zeros 16⟩

-- "a", a null, "b": only the "a" comes back.
theorem roundTrip_fails : ¬ RoundTrip sampleEvp zeroCipher [97,0,98] := by
  have written : encrypt sampleEvp zeroCipher [97,0,98] = some (cipherBlock,16) := by decide
  have read : decrypt sampleEvp zeroCipher cipherBlock 16 = some ([97],1) := by decide
  rintro ⟨ciphertext,L,encrypted,length,decrypted⟩
  rw [written] at encrypted
  cases encrypted
  rw [read] at decrypted
  cases decrypted

end Keyser.AesCipher
