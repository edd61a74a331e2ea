import Keyser.Primitives

namespace Keyser.Chain
open Primitives

-- The elements of mChain are pointers, and nothing here follows one.
structure ChainIndex (BlockIndex : Type) where
  mChain : List BlockIndex := []
  deriving DecidableEq

variable {BlockIndex : Type} {s : ChainIndex BlockIndex}

-- All of the body but the list of balances is commented out.
def createGenesisBlock (s : ChainIndex BlockIndex) : ChainIndex BlockIndex :=
  let _initialBalances : List Transaction := []
  s

def constructed : ChainIndex BlockIndex := createGenesisBlock {}

-- The whole body is commented out.
def processBlock (s : ChainIndex BlockIndex) (_block : Block) : ChainIndex BlockIndex := s

-- The size is a size_t: the subtraction wraps around, and 32 bits of it are returned.
def getHeight (s : ChainIndex BlockIndex) : UInt32 := (UInt64.ofNat s.mChain.length - 1).toUInt32

-- vector::at: `none` is its std::out_of_range.
def subscript (s : ChainIndex BlockIndex) (height : UInt32) : Option BlockIndex := s.mChain[height.toNat]?

def getTip (s : ChainIndex BlockIndex) : Option BlockIndex := subscript s (getHeight s)

def reached (s : ChainIndex BlockIndex) (blocks : List Block) : ChainIndex BlockIndex :=
  blocks.foldl processBlock s

structure HasTip (s : ChainIndex BlockIndex) : Prop where
  nonempty : s.mChain ≠ []
  height : (getHeight s).toNat = s.mChain.length - 1
  tip : ∃ index, getTip s = some index ∧ s.mChain.getLast? = some index

theorem getHeight_empty (empty : s.mChain = []) : getHeight s = 4294967295 := by
  unfold getHeight
  rw [empty,List.length_nil]
  decide

theorem getHeight_toNat (filled : 0 < s.mChain.length) (short : s.mChain.length ≤ 2^32) :
    (getHeight s).toNat = s.mChain.length - 1 := by
  unfold getHeight
  have one : (1 : UInt64).toNat = 1 := rfl
  have size : (UInt64.ofNat s.mChain.length).toNat = s.mChain.length := by
    rw [UInt64.toNat_ofNat']
    omega
  have before : 1 ≤ UInt64.ofNat s.mChain.length := by
    rw [UInt64.le_iff_toNat_le,size,one]
    exact filled
  rw [UInt64.toNat_toUInt32,UInt64.toNat_sub_of_le _ _ before,size,one]
  omega

-- A tip needs one element, and a last index that fits the height.
theorem hasTip_size : HasTip s ↔ 0 < s.mChain.length ∧ s.mChain.length ≤ 2^32 := by
  constructor
  · intro has
    have filled := List.length_pos_iff.mpr has.nonempty
    have low := (getHeight s).toNat_lt
    rw [has.height] at low
    exact ⟨filled,by omega⟩
  · rintro ⟨filled,short⟩
    have height := getHeight_toNat filled short
    refine ⟨List.length_pos_iff.mp filled,height,s.mChain[s.mChain.length - 1],?_,?_⟩
    · unfold getTip subscript
      rw [height]
      exact List.getElem?_eq_getElem _
    · rw [List.getLast?_eq_getElem?]
      exact List.getElem?_eq_getElem _

theorem reached_start (blocks : List Block) : reached s blocks = s := by
  induction blocks with
  | nil => rfl
  | cons block rest ih => exact ih

-- processBlock neither loses a tip nor gives one: the constructor alone decides.
theorem reached_hasTip (blocks : List Block) : HasTip (reached s blocks) ↔ HasTip s := by
  rw [reached_start]

theorem chain_tipless (BlockIndex : Type) (blocks : List Block) :
    let s : ChainIndex BlockIndex := reached constructed blocks
    ¬ HasTip s ∧ getHeight s = 4294967295 ∧ getTip s = none := by
  intro s
  have empty : s.mChain = [] := congrArg ChainIndex.mChain (reached_start blocks)
  refine ⟨?_,getHeight_empty empty,?_⟩
  · intro has
    have filled := (hasTip_size.mp has).1
    rw [empty] at filled
    cases filled
  · unfold getTip subscript
    rw [empty]
    rfl

theorem constructed_tipless : ¬ HasTip (reached constructed [] : ChainIndex Nat) := by
  intro has
  exact has.nonempty rfl

end Keyser.Chain
