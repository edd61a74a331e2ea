import Keyser.Memory

namespace Keyser.Primitives
open Memory

-- SHA256_DIGEST_LENGTH bytes
abbrev Digest := Bytes 32

def KEYSER_VERSION : UInt64 := 1

-- Transaction.hpp is absent: hashTransaction tells the order and the widths of the fields.
structure Transaction where
  mVersion : UInt64 := 0
  mTimestamp : Int64 := 0
  mLocktime : UInt64 := 0
  mGas : UInt64 := 0
  mRecipient : Bytes 64 := zeros 64
  mSender : Bytes 64 := zeros 64
  mAmount : UInt64 := 0
  deriving DecidableEq

structure BlockHeader where
  index : UInt64 := 0
  version : UInt64 := 0
  prevHash : Digest := zeros 32
  merkleRoot : Digest := zeros 32
  time : UInt64 := 0
  nonce : UInt64 := 0
  deriving DecidableEq

structure Block extends BlockHeader where
  transactions : List Transaction := []
  deriving DecidableEq

-- OpenSSL's SHA256 with the digest as a parameter; `none` is the null it returns on failure.
def SHA256 (sha256 : List UInt8 → Option Digest) (buf : Region) (size : Nat) : Option Digest :=
  (load buf size).bind sha256

def headerBufsize : Nat := 4*8 + 64*1

def headerBuffer (header : BlockHeader) : Region :=
  let buf := uninitialised headerBufsize
  let offset := 0
  let buf := memcpy buf offset (word header.index)
  let offset := offset + 8
  let buf := memcpy buf offset (word header.version)
  let offset := offset + 8
  let buf := memcpy buf offset header.prevHash.toList
  let offset := offset + 32
  let buf := memcpy buf offset header.merkleRoot.toList
  let offset := offset + 32
  let buf := memcpy buf offset (word header.time)
  let offset := offset + 8
  memcpy buf offset (word header.nonce)

def hashHeader (sha256 : List UInt8 → Option Digest) (header : BlockHeader) : Except String Digest :=
  match SHA256 sha256 (headerBuffer header) headerBufsize with
  | none => .error "Failed to hash block"
  | some hash => .ok hash

def transactionBufsize : Nat := 4*8 + 8 + 128*1

def transactionBuffer (tx : Transaction) : Region :=
  let buf := uninitialised transactionBufsize
  let offset := 0
  let buf := memcpy buf offset (word tx.mVersion)
  let offset := offset + 8
  let buf := memcpy buf offset (word tx.mTimestamp.toUInt64)
  let offset := offset + 8
  let buf := memcpy buf offset (word tx.mLocktime)
  let offset := offset + 8
  let buf := memcpy buf offset (word tx.mGas)
  let offset := offset + 8
  let buf := memcpy buf offset tx.mRecipient.toList
  let offset := offset + 64
  let buf := memcpy buf offset tx.mSender.toList
  let offset := offset + 64
  memcpy buf offset (word tx.mAmount)

def hashTransaction (sha256 : List UInt8 → Option Digest) (tx : Transaction) : Except String Digest :=
  match SHA256 sha256 (transactionBuffer tx) transactionBufsize with
  | none => .error "Failed to hash transaction"
  | some hash => .ok hash

-- The memcpy of newBlock has the caller's array as source and destination.
def newBlock (index time : UInt64) (prevHash : Digest) (reward : Transaction) : Block × Digest :=
  let block : Block := {}
  let block := {block with index := index}
  let block := {block with version := KEYSER_VERSION}
  let prevHash := prevHash
  let block := {block with time := time}
  let block := {block with nonce := 0}
  let block := {block with transactions := block.transactions ++ [reward]}
  (block,prevHash)

def getHeader (block : Block) : BlockHeader :=
  let header : BlockHeader := {}
  let header := {header with index := block.index}
  let header := {header with version := block.version}
  let header := {header with prevHash := block.prevHash}
  let header := {header with merkleRoot := block.merkleRoot}
  let header := {header with time := block.time}
  {header with nonce := block.nonce}

-- `buf` and `offset` are never assigned; `hash` lives for one iteration.
def calcMerkleRoot (sha256 : List UInt8 → Option Digest) (buf : Region)
    (transactions : List Transaction) : Except String Digest := do
  let offset := 0
  transactions.forM fun tx => do
    let _hash ← hashTransaction sha256 tx
  match SHA256 sha256 buf offset with
  | none => .error "Failed to calc merkleRoot"
  | some merkleRoot => .ok merkleRoot

def headerBytes (header : BlockHeader) : List UInt8 :=
  word header.index ++ word header.version ++ header.prevHash.toList ++ header.merkleRoot.toList ++
    word header.time ++ word header.nonce

def transactionBytes (tx : Transaction) : List UInt8 :=
  word tx.mVersion ++ word tx.mTimestamp.toUInt64 ++ word tx.mLocktime ++ word tx.mGas ++
    tx.mRecipient.toList ++ tx.mSender.toList ++ word tx.mAmount

@[simp] theorem headerBytes_length : (headerBytes header).length = headerBufsize := by
  simp [headerBytes,headerBufsize]

@[simp] theorem transactionBytes_length : (transactionBytes tx).length = transactionBufsize := by
  simp [transactionBytes,transactionBufsize]

def headerCopies (header : BlockHeader) : List Copy :=
  [(0,word header.index),(8,word header.version),(16,header.prevHash.toList),
    (48,header.merkleRoot.toList),(80,word header.time),(88,word header.nonce)]

def transactionCopies (tx : Transaction) : List Copy :=
  [(0,word tx.mVersion),(8,word tx.mTimestamp.toUInt64),(16,word tx.mLocktime),(24,word tx.mGas),
    (32,tx.mRecipient.toList),(96,tx.mSender.toList),(160,word tx.mAmount)]

theorem headerBuffer_copies (header : BlockHeader) :
    headerBuffer header = copyAll (uninitialised headerBufsize) (headerCopies header) := rfl

theorem transactionBuffer_copies (tx : Transaction) :
    transactionBuffer tx = copyAll (uninitialised transactionBufsize) (transactionCopies tx) := rfl

theorem headerCopies_tile (header : BlockHeader) : Tiles 0 (headerCopies header) headerBufsize := by
  simp [headerCopies,Tiles,headerBufsize]

theorem transactionCopies_tile (tx : Transaction) : Tiles 0 (transactionCopies tx) transactionBufsize := by
  simp [transactionCopies,Tiles,transactionBufsize]

theorem headerBuffer_written (header : BlockHeader) :
    headerBuffer header = written headerBufsize (headerBytes header) := by
  rw [headerBuffer_copies,uninitialised_written,
    (headerCopies_tile header).copyAll_written rfl (Nat.le_refl _)]
  simp [headerCopies,headerBytes]

theorem transactionBuffer_written (tx : Transaction) :
    transactionBuffer tx = written transactionBufsize (transactionBytes tx) := by
  rw [transactionBuffer_copies,uninitialised_written,
    (transactionCopies_tile tx).copyAll_written rfl (Nat.le_refl _)]
  simp [transactionCopies,transactionBytes]

theorem hashHeader_bytes (header : BlockHeader) :
    hashHeader sha256 header =
      match sha256 (headerBytes header) with
      | none => .error "Failed to hash block"
      | some hash => .ok hash := by
  simp [hashHeader,SHA256,headerBuffer_written,load_written]

theorem hashTransaction_bytes (tx : Transaction) :
    hashTransaction sha256 tx =
      match sha256 (transactionBytes tx) with
      | none => .error "Failed to hash transaction"
      | some hash => .ok hash := by
  simp [hashTransaction,SHA256,transactionBuffer_written,load_written]

-- The null return is a failure of the provider, not of the message.
def Succeeds (sha256 : List UInt8 → Option Digest) : Prop := ∀ bytes, ∃ hash, sha256 bytes = some hash

theorem hashHeader_ok (succeeds : Succeeds sha256) (header : BlockHeader) :
    ∃ hash, sha256 (headerBytes header) = some hash ∧ hashHeader sha256 header = .ok hash := by
  obtain ⟨hash,found⟩ := succeeds (headerBytes header)
  exact ⟨hash,found,by rw [hashHeader_bytes,found]⟩

theorem hashTransaction_ok (succeeds : Succeeds sha256) (tx : Transaction) :
    ∃ hash, sha256 (transactionBytes tx) = some hash ∧ hashTransaction sha256 tx = .ok hash := by
  obtain ⟨hash,found⟩ := succeeds (transactionBytes tx)
  exact ⟨hash,found,by rw [hashTransaction_bytes,found]⟩

theorem headerBytes_injective (same : headerBytes left = headerBytes right) : left = right := by
  obtain ⟨same,nonce⟩ := List.append_inj' same (by simp)
  obtain ⟨same,time⟩ := List.append_inj' same (by simp)
  obtain ⟨same,merkleRoot⟩ := List.append_inj' same (by simp)
  obtain ⟨same,prevHash⟩ := List.append_inj' same (by simp)
  obtain ⟨index,version⟩ := List.append_inj' same (by simp)
  cases left
  cases right
  simp only [BlockHeader.mk.injEq]
  exact ⟨word_injective index,word_injective version,Subtype.ext prevHash,Subtype.ext merkleRoot,
    word_injective time,word_injective nonce⟩

theorem transactionBytes_injective (same : transactionBytes left = transactionBytes right) : left = right := by
  obtain ⟨same,mAmount⟩ := List.append_inj' same (by simp)
  obtain ⟨same,mSender⟩ := List.append_inj' same (by simp)
  obtain ⟨same,mRecipient⟩ := List.append_inj' same (by simp)
  obtain ⟨same,mGas⟩ := List.append_inj' same (by simp)
  obtain ⟨same,mLocktime⟩ := List.append_inj' same (by simp)
  obtain ⟨mVersion,mTimestamp⟩ := List.append_inj' same (by simp)
  have time := congrArg UInt64.toInt64 (word_injective mTimestamp)
  cases left
  cases right
  simp only [Transaction.mk.injEq]
  exact ⟨word_injective mVersion,by simpa using time,word_injective mLocktime,word_injective mGas,
    Subtype.ext mRecipient,Subtype.ext mSender,word_injective mAmount⟩

theorem headerBuffer_injective (same : headerBuffer left = headerBuffer right) : left = right := by
  rw [headerBuffer_written,headerBuffer_written] at same
  have loaded := congrArg (load · headerBufsize) same
  simp only [load_written headerBytes_length] at loaded
  exact headerBytes_injective (Option.some.inj loaded)

theorem transactionBuffer_injective (same : transactionBuffer left = transactionBuffer right) : left = right := by
  rw [transactionBuffer_written,transactionBuffer_written] at same
  have loaded := congrArg (load · transactionBufsize) same
  simp only [load_written transactionBytes_length] at loaded
  exact transactionBytes_injective (Option.some.inj loaded)

theorem tiles_once (tiles : Tiles 0 copies bufsize) (i : Nat) :
    copies.countP (·.covers i) = if i < bufsize then 1 else 0 := by
  rw [tiles.covered]
  simp only [Nat.zero_le,true_and]

-- Every byte of buf in one copy, none outside it, and no two records with one buffer.
theorem preimages_determined :
    (∀ header, headerBuffer header = copyAll (uninitialised headerBufsize) (headerCopies header) ∧
      ∀ i, (headerCopies header).countP (·.covers i) = if i < headerBufsize then 1 else 0) ∧
    (∀ left right, headerBuffer left = headerBuffer right → left = right) ∧
    (∀ tx, transactionBuffer tx = copyAll (uninitialised transactionBufsize) (transactionCopies tx) ∧
      ∀ i, (transactionCopies tx).countP (·.covers i) = if i < transactionBufsize then 1 else 0) ∧
    (∀ left right, transactionBuffer left = transactionBuffer right → left = right) := by
  refine ⟨?_,fun left right => headerBuffer_injective,?_,fun left right => transactionBuffer_injective⟩
  · intro header
    exact ⟨headerBuffer_copies header,tiles_once (headerCopies_tile header)⟩
  · intro tx
    exact ⟨transactionBuffer_copies tx,tiles_once (transactionCopies_tile tx)⟩

end Keyser.Primitives
