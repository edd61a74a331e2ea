import Keyser.HexCodecs

namespace Keyser.Difficulty
open Hex CryptoUtils HexCodecs

variable {hash : Text}

-- hash[hash.size()] is the terminating null; nothing after it may be read.
def charAt (hash : Text) (i : Nat) : Option Char := (hash ++ [Char.ofNat 0])[i]?

def zeroFrom (hash : Text) : (left i : Nat) → Option Bool
  | 0,_ => some true
  | left + 1,i => do
    let c ← charAt hash i
    if c ≠ '0' then return false else zeroFrom hash left (i + 1)

def isValidHash (hash : Text) (difficulty : UInt8) : Option Bool := zeroFrom hash difficulty.toNat 0

def bigEndian (bytes : List UInt8) : Nat := Nat.ofDigits 256 (bytes.map UInt8.toNat).reverse

theorem charAt_drop (split : hash.drop i = c :: rest) : charAt hash i = some c := by
  have found : hash[i]? = some c := by
    rw [← List.head?_drop,split]
    rfl
  unfold charAt
  rw [List.getElem?_append_left (List.getElem?_eq_some_iff.mp found).1,found]

-- The null is not a zero: the loop ends there at the latest.
theorem zeroFrom_drop (left : Nat) (inside : i ≤ hash.length) :
    zeroFrom hash left i = some (decide (List.replicate left '0' <+: hash.drop i)) := by
  induction left generalizing i with
  | zero => simp [zeroFrom]
  | succ left ih =>
      cases split : hash.drop i with
      | nil =>
          have last : i = hash.length := by
            have none := List.drop_eq_nil_iff.mp split
            omega
          have null : charAt hash i = some (Char.ofNat 0) := by
            rw [charAt,last,List.getElem?_append_right (Nat.le_refl _),Nat.sub_self]
            rfl
          rw [zeroFrom,null]
          simp [List.replicate_succ]
      | cons c rest =>
          have next : hash.drop (i + 1) = rest := by
            rw [← List.drop_drop,split]
            rfl
          have more : i + 1 ≤ hash.length := by
            have some : hash.drop i ≠ [] := by simp [split]
            have short := List.drop_eq_nil_iff.not.mp some
            omega
          rw [zeroFrom,charAt_drop split,List.replicate_succ]
          by_cases zero : c = '0'
          · simp [zero,ih more,next]
          · simp [zero,List.cons_prefix_cons,eq_comm]

theorem isValidHash_zeros (hash : Text) (difficulty : UInt8) :
    isValidHash hash difficulty = some (decide (List.replicate difficulty.toNat '0' <+: hash)) :=
  zeroFrom_drop difficulty.toNat (Nat.zero_le _)

theorem leadingDigits_uChar2Str (bytes : List UInt8) :
    leadingDigits (uChar2Str bytes) = (bytes.map UInt8.toNat).flatMap fun byte => [byte / 16,byte % 16] := by
  induction bytes with
  | nil => rfl
  | cons byte rest ih =>
      obtain ⟨high,low⟩ := nibbles_lt byte
      rw [uChar2Str_cons,leadingDigits,digitValue_lowerDigit _ high]
      dsimp only
      rw [leadingDigits,digitValue_lowerDigit _ low]
      dsimp only
      rw [ih]
      rfl

theorem value_uChar2Str (bytes : List UInt8) : value (leadingDigits (uChar2Str bytes)) = bigEndian bytes := by
  have read := value_pairs (bytes.map UInt8.toNat).reverse
  rw [List.reverse_reverse] at read
  rw [leadingDigits_uChar2Str,read,bigEndian]

theorem easier_zeros (easier : fewer ≤ zeros) (hard : List.replicate zeros '0' <+: hash) :
    List.replicate fewer '0' <+: hash := by
  have front : List.replicate fewer '0' <+: List.replicate zeros '0' :=
    ⟨List.replicate (zeros - fewer) '0',by rw [List.replicate_append_replicate,Nat.add_sub_cancel' easier]⟩
  exact front.trans hard

theorem isValidHash_target :
    (∀ (bytes : List UInt8) (difficulty : UInt8), isValidHash (uChar2Str bytes) difficulty =
      some (decide (difficulty.toNat ≤ 2*bytes.length ∧
        bigEndian bytes < 16^(2*bytes.length - difficulty.toNat)))) ∧
    (∀ (hash : Text) (difficulty smaller : UInt8), smaller ≤ difficulty →
      isValidHash hash difficulty = some true → isValidHash hash smaller = some true) := by
  constructor
  · intro bytes difficulty
    have target := zeros_value (uChar2Str_digits bytes) difficulty.toNat
    rw [uChar2Str_length,value_uChar2Str] at target
    rw [isValidHash_zeros,decide_eq_decide.mpr target]
  · intro hash difficulty smaller easier valid
    rw [isValidHash_zeros] at valid ⊢
    have hard := of_decide_eq_true (Option.some.inj valid)
    rw [decide_eq_true (easier_zeros (UInt8.le_iff_toNat_le.mp easier) hard)]

example : isValidHash (uChar2Str [0,1]) 3 = some true := by decide

end Keyser.Difficulty
