import Keyser.Primitives
import Mathlib.Data.Set.Function
import Mathlib.Data.List.Chain

namespace Keyser.BlockCommitments
open Memory Primitives

variable {sha256 : List UInt8 → Option Digest}

theorem injOn_list {f : α → β} {items : List α} :
    Set.InjOn f {item | item ∈ items} ↔ ∀ one ∈ items, ∀ two ∈ items, f one = f two → one = two := by
  simp only [Set.InjOn,Set.mem_ofPred_eq]

theorem hashAll_ok (succeeds : Succeeds sha256) (transactions : List Transaction) :
    (transactions.forM fun tx => do let _hash ← hashTransaction sha256 tx) = .ok () := by
  induction transactions with
  | nil => rfl
  | cons tx rest ih =>
      obtain ⟨hash,_,hashed⟩ := hashTransaction_ok succeeds tx
      rw [List.forM,hashed]
      exact ih

-- Whatever the list and wherever `buf` points, the root is the digest of no bytes.
theorem calcMerkleRoot_ok (succeeds : Succeeds sha256) :
    ∃ root, sha256 [] = some root ∧
      ∀ buf transactions, calcMerkleRoot sha256 buf transactions = .ok root := by
  obtain ⟨root,found⟩ := succeeds []
  refine ⟨root,found,?_⟩
  intro buf transactions
  have read : SHA256 sha256 buf 0 = some root := by simpa [SHA256,load] using found
  rw [calcMerkleRoot,hashAll_ok succeeds]
  simp only [read,bind,Except.bind]

def BindsBody (sha256 : List UInt8 → Option Digest) (oneBuf twoBuf : Region) (one two : List Transaction) : Prop :=
  ∀ root, calcMerkleRoot sha256 oneBuf one = .ok root → calcMerkleRoot sha256 twoBuf two = .ok root → one = two

theorem bindsBody_iff (succeeds : Succeeds sha256) (oneBuf twoBuf : Region) (one two : List Transaction) :
    BindsBody sha256 oneBuf twoBuf one two ↔ one = two := by
  obtain ⟨root,_,written⟩ := calcMerkleRoot_ok succeeds
  constructor
  · intro binds
    exact binds root (written oneBuf one) (written twoBuf two)
  · intro same _ _ _
    exact same

-- SHA-256 on the messages of the inputs below; its values elsewhere are not used.
def sampleDigests : List (List UInt8 × Digest) := [
  (headerBytes { index := 1, version := 1, time := 10 },
    ⟨[131,141,114,26,160,18,202,241,112,245,48,216,212,47,180,178,234,66,35,65,83,242,216,166,
      188,206,25,255,58,111,178,246],rfl⟩),
  (headerBytes { index := 7, version := 1, time := 10 },
    ⟨[75,244,139,14,11,19,95,54,228,105,57,201,222,152,98,147,143,76,66,157,176,241,190,1,
      79,89,161,151,207,180,106,80],rfl⟩),
  (headerBytes { index := 2, version := 1, time := 20 },
    ⟨[98,138,205,15,119,138,158,194,90,0,143,174,49,69,121,141,2,166,253,9,228,44,239,189,
      152,95,208,187,140,25,225,41],rfl⟩),
  (transactionBytes {},
    ⟨[227,194,175,53,209,223,197,0,225,111,130,106,7,28,195,17,191,85,0,58,61,231,125,231,
      234,51,118,198,182,250,40,87],rfl⟩),
  (transactionBytes { mAmount := 100 },
    ⟨[220,114,103,151,135,73,82,69,26,132,31,78,89,143,92,121,118,147,3,81,51,162,238,37,
      64,35,11,16,59,131,229,124],rfl⟩),
  ([],
    ⟨[227,176,196,66,152,252,28,20,154,251,244,200,153,111,185,36,39,174,65,228,100,155,147,76,
      164,149,153,27,120,82,184,85],rfl⟩)]

def sampleSha256 (bytes : List UInt8) : Option Digest := some ((sampleDigests.lookup bytes).getD (zeros 32))

theorem sampleSha256_succeeds : Succeeds sampleSha256 := fun _ => ⟨_,rfl⟩

theorem sampleTransactions_distinct :
    Set.InjOn (hashTransaction sampleSha256) {tx | tx ∈ [{},{ mAmount := 100 }]} := by
  exact injOn_list.mpr (by simp only [hashTransaction_bytes]; decide +kernel)

theorem bindsBody_self : BindsBody sampleSha256 [] [] [{},{ mAmount := 100 }] [{},{ mAmount := 100 }] :=
  (bindsBody_iff sampleSha256_succeeds _ _ _ _).mpr rfl

theorem bindsBody_fails :
    Set.InjOn sampleSha256 {bytes | bytes ∈ [[],transactionBytes {},transactionBytes { mAmount := 100 }]} ∧
    Set.InjOn (hashTransaction sampleSha256) {tx | tx ∈ [{},{ mAmount := 100 }]} ∧
    ¬ BindsBody sampleSha256 [] [] [{}] [{ mAmount := 100 }] := by
  refine ⟨injOn_list.mpr (by decide +kernel),sampleTransactions_distinct,?_⟩
  intro binds
  obtain ⟨root,_,written⟩ := calcMerkleRoot_ok sampleSha256_succeeds
  exact absurd (binds root (written _ _) (written _ _)) (by decide)

structure Mined where
  index : UInt64
  time : UInt64
  reward : Transaction
  deriving DecidableEq

-- Repeated newBlock, each with the hash that hashHeader(getHeader(·)) wrote before it.
def build (sha256 : List UInt8 → Option Digest) : Digest → List Mined → Except String (List Block × Digest)
  | prevHash,[] => .ok ([],prevHash)
  | prevHash,mined :: rest => do
    let (block,_) := newBlock mined.index mined.time prevHash mined.reward
    let hash ← hashHeader sha256 (getHeader block)
    let (later,tip) ← build sha256 hash rest
    return (block :: later,tip)

def Mined.block (mined : Mined) : Block :=
  { index := mined.index, version := KEYSER_VERSION, time := mined.time, transactions := [mined.reward] }

def Mined.header (mined : Mined) : BlockHeader :=
  { index := mined.index, version := KEYSER_VERSION, time := mined.time }

theorem newBlock_block (mined : Mined) (prevHash : Digest) :
    newBlock mined.index mined.time prevHash mined.reward = (mined.block,prevHash) := rfl

theorem getHeader_block (mined : Mined) : getHeader mined.block = mined.header := rfl

theorem block_injective : Function.Injective Mined.block := by
  intro left right same
  cases left
  cases right
  simpa [Mined.block,and_assoc] using same

theorem header_eq_iff {left right : Mined} :
    left.header = right.header ↔ left.index = right.index ∧ left.time = right.time := by
  simp [Mined.header]

theorem build_ok (succeeds : Succeeds sha256) (prevHash : Digest) (chain : List Mined) :
    ∃ tip, build sha256 prevHash chain = .ok (chain.map Mined.block,tip) ∧
      ∀ mined ∈ chain.getLast?, sha256 (headerBytes mined.header) = some tip := by
  induction chain generalizing prevHash with
  | nil => exact ⟨prevHash,rfl,by simp⟩
  | cons mined rest ih =>
      obtain ⟨hash,found,written⟩ := hashHeader_ok succeeds mined.header
      obtain ⟨tip,built,last⟩ := ih hash
      refine ⟨tip,?_,?_⟩
      · simp only [build,newBlock_block,getHeader_block,written,bind,Except.bind,built]
        rfl
      · cases rest with
        | nil =>
            cases built
            simpa using found
        | cons next rest => simpa using last

def Binding (sha256 : List UInt8 → Option Digest) (leftGenesis rightGenesis : Digest)
    (left right : List Mined) : Prop :=
  ∀ leftBlocks rightBlocks tip,
    build sha256 leftGenesis left = .ok (leftBlocks,tip) →
    build sha256 rightGenesis right = .ok (rightBlocks,tip) → leftBlocks = rightBlocks

def Linked (sha256 : List UInt8 → Option Digest) (genesis : Digest) (chain : List Mined) : Prop :=
  ∀ blocks tip, build sha256 genesis chain = .ok (blocks,tip) →
    blocks.IsChain (fun block next => hashHeader sha256 (getHeader block) = .ok next.prevHash)

-- Asked against every block that newBlock can make, in whichever chain.
def Commits (block : Block) : Prop :=
  ∀ index time prevHash reward,
    (newBlock index time prevHash reward).1.merkleRoot = block.merkleRoot →
    (newBlock index time prevHash reward).1.transactions = block.transactions

def Committed (sha256 : List UInt8 → Option Digest) (genesis : Digest) (chain : List Mined) : Prop :=
  ∀ blocks tip, build sha256 genesis chain = .ok (blocks,tip) → ∀ block ∈ blocks, Commits block

structure TamperEvident (sha256 : List UInt8 → Option Digest) (leftGenesis rightGenesis : Digest)
    (left right : List Mined) : Prop where
  binding : Binding sha256 leftGenesis rightGenesis left right
  leftLinked : Linked sha256 leftGenesis left
  rightLinked : Linked sha256 rightGenesis right
  leftCommitted : Committed sha256 leftGenesis left
  rightCommitted : Committed sha256 rightGenesis right

def TipsApart (left right : List Mined) : Prop :=
  ∀ one ∈ left.getLast?, ∀ two ∈ right.getLast?, one.index = two.index → one.time = two.time → left = right

def ZeroLinks (sha256 : List UInt8 → Option Digest) (chain : List Mined) : Prop :=
  ∀ mined ∈ chain.dropLast, sha256 (headerBytes mined.header) = some (zeros 32)

-- Freedom from collisions is asked of these: no function into 32 bytes has it everywhere.
def hashedHeaders (left right : List Mined) : Set (List UInt8) :=
  {bytes | bytes ∈ (left ++ right).map (headerBytes ∘ Mined.header)}

theorem isChain_source {P : α → Prop} {items : List α} :
    items.IsChain (fun source _ => P source) ↔ ∀ item ∈ items.dropLast, P item := by
  induction items with
  | nil => simp
  | cons first rest ih =>
      cases rest with
      | nil => simp
      | cons second rest => rw [List.isChain_cons_cons,ih]; simp

theorem linked_iff (succeeds : Succeeds sha256) (genesis : Digest) (chain : List Mined) :
    Linked sha256 genesis chain ↔ ZeroLinks sha256 chain := by
  have step (mined next : Mined) :
      hashHeader sha256 (getHeader mined.block) = .ok next.block.prevHash ↔
        sha256 (headerBytes mined.header) = some (zeros 32) := by
    obtain ⟨hash,found,written⟩ := hashHeader_ok succeeds mined.header
    rw [getHeader_block,written,found]
    simp [Mined.block]
  have blocks : (chain.map Mined.block).IsChain
      (fun block next => hashHeader sha256 (getHeader block) = .ok next.prevHash) ↔ ZeroLinks sha256 chain := by
    rw [List.isChain_map]
    simp only [step]
    exact isChain_source
  obtain ⟨tip,built,_⟩ := build_ok succeeds genesis chain
  constructor
  · intro linked
    exact blocks.mp (linked _ _ built)
  · intro zero _ _ other
    cases built.symm.trans other
    exact blocks.mpr zero

theorem tips_iff (succeeds : Succeeds sha256) (distinct : Set.InjOn sha256 (hashedHeaders left right))
    (leftNonempty : left ≠ []) (rightNonempty : right ≠ []) (leftGenesis rightGenesis : Digest) :
    Binding sha256 leftGenesis rightGenesis left right ↔ TipsApart left right := by
  obtain ⟨leftTip,leftBuilt,leftLast⟩ := build_ok succeeds leftGenesis left
  obtain ⟨rightTip,rightBuilt,rightLast⟩ := build_ok succeeds rightGenesis right
  rw [Binding,leftBuilt,rightBuilt]
  constructor
  · intro binding one oneLast two twoLast sameIndex sameTime
    have sameHeader := header_eq_iff.mpr ⟨sameIndex,sameTime⟩
    have sameTip : rightTip = leftTip := by
      have hashed := rightLast two twoLast
      rw [← sameHeader,leftLast one oneLast] at hashed
      exact (Option.some.inj hashed).symm
    subst sameTip
    exact block_injective.list_map (binding _ _ _ rfl rfl)
  · intro apart leftBlocks rightBlocks tip leftEq rightEq
    cases leftEq
    cases rightEq
    have oneLast := List.getLast?_eq_some_getLast leftNonempty
    have twoLast := List.getLast?_eq_some_getLast rightNonempty
    have sameBytes := distinct
      (List.mem_map_of_mem (List.mem_append_left _ (List.getLast_mem leftNonempty)))
      (List.mem_map_of_mem (List.mem_append_right _ (List.getLast_mem rightNonempty)))
      ((leftLast _ oneLast).trans (rightLast _ twoLast).symm)
    obtain ⟨sameIndex,sameTime⟩ := header_eq_iff.mp (headerBytes_injective sameBytes)
    rw [apart _ oneLast _ twoLast sameIndex sameTime]

-- newBlock leaves the root of every body at zeros.
theorem commits_never (mined : Mined) : ¬ Commits mined.block := by
  intro commits
  have same := commits 0 0 (zeros 32) { mined.reward with mAmount := mined.reward.mAmount+1 } rfl
  have sameReward : { mined.reward with mAmount := mined.reward.mAmount+1 } = mined.reward := by
    simpa [newBlock,Mined.block] using same
  have sameAmount : mined.reward.mAmount+1 = mined.reward.mAmount := congrArg Transaction.mAmount sameReward
  simp at sameAmount

theorem committed_never (succeeds : Succeeds sha256) (genesis : Digest) (chain : List Mined)
    (committed : Committed sha256 genesis chain) : chain = [] := by
  obtain ⟨tip,built,_⟩ := build_ok succeeds genesis chain
  refine List.eq_nil_iff_forall_not_mem.mpr ?_
  intro mined member
  exact commits_never mined (committed _ _ built _ (List.mem_map_of_mem member))

theorem tamperEvident_never (succeeds : Succeeds sha256) (leftGenesis rightGenesis : Digest) (left right : List Mined)
    (leftNonempty : left ≠ []) (rightNonempty : right ≠ []) :
    ¬ TamperEvident sha256 leftGenesis rightGenesis left right ∧
    (Set.InjOn sha256 (hashedHeaders left right) →
      (Binding sha256 leftGenesis rightGenesis left right ↔ TipsApart left right)) ∧
    (Linked sha256 leftGenesis left ↔ ZeroLinks sha256 left) ∧
    (Linked sha256 rightGenesis right ↔ ZeroLinks sha256 right) := by
  refine ⟨?_,?_,linked_iff succeeds leftGenesis left,linked_iff succeeds rightGenesis right⟩
  · intro evident
    exact leftNonempty (committed_never succeeds leftGenesis left evident.leftCommitted)
  · intro distinct
    exact tips_iff succeeds distinct leftNonempty rightNonempty leftGenesis rightGenesis

-- Tips of different headers: their hashes tell the two chains apart, but no block of either is linked.
theorem tamperEvident_two :
    ¬ TamperEvident sampleSha256 (zeros 32) (zeros 32) [⟨1,10,{}⟩,⟨2,20,{}⟩] [⟨2,20,{}⟩,⟨7,10,{ mAmount := 100 }⟩] ∧
    Binding sampleSha256 (zeros 32) (zeros 32) [⟨1,10,{}⟩,⟨2,20,{}⟩] [⟨2,20,{}⟩,⟨7,10,{ mAmount := 100 }⟩] ∧
    ¬ Linked sampleSha256 (zeros 32) [⟨1,10,{}⟩,⟨2,20,{}⟩] := by
  obtain ⟨never,bindingIff,leftIff,_⟩ := tamperEvident_never sampleSha256_succeeds (zeros 32) (zeros 32)
    [⟨1,10,{}⟩,⟨2,20,{}⟩] [⟨2,20,{}⟩,⟨7,10,{ mAmount := 100 }⟩] (by simp) (by simp)
  refine ⟨never,(bindingIff (injOn_list.mpr (by decide))).mpr ?_,?_⟩
  · intro one oneLast two twoLast sameIndex
    cases oneLast
    cases twoLast
    cases sameIndex
  · intro linked
    exact absurd (leftIff.mp linked ⟨1,10,{}⟩ (by simp)) (by decide)

-- The first blocks differ, and nothing of either reaches the second header.
theorem tamperEvident_fails :
    Set.InjOn sampleSha256 (hashedHeaders [⟨1,10,{}⟩,⟨2,20,{}⟩] [⟨7,10,{ mAmount := 100 }⟩,⟨2,20,{}⟩]) ∧
    Set.InjOn (hashTransaction sampleSha256) {tx | tx ∈ [{},{ mAmount := 100 }]} ∧
    ¬ TamperEvident sampleSha256 (zeros 32) (zeros 32)
      [⟨1,10,{}⟩,⟨2,20,{}⟩] [⟨7,10,{ mAmount := 100 }⟩,⟨2,20,{}⟩] := by
  have distinct : Set.InjOn sampleSha256
      (hashedHeaders [⟨1,10,{}⟩,⟨2,20,{}⟩] [⟨7,10,{ mAmount := 100 }⟩,⟨2,20,{}⟩]) :=
    injOn_list.mpr (by decide)
  refine ⟨distinct,sampleTransactions_distinct,?_⟩
  intro evident
  have tips := (tips_iff sampleSha256_succeeds distinct (by simp) (by simp) _ _).mp evident.binding
  exact absurd (tips ⟨2,20,{}⟩ rfl ⟨2,20,{}⟩ rfl rfl rfl) (by decide)

end Keyser.BlockCommitments
