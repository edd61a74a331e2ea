import Keyser.CryptoUtils

namespace Keyser.Utils
open Hex

-- Written a second time in utils.cpp, with the same body.
def hexToString (input : Text) : List UInt8 := CryptoUtils.hexToString input

end Keyser.Utils

namespace Keyser.HexCodecs
open Hex CryptoUtils

-- std::hex << n
def insertHex (n : Nat) : Text :=
  if n = 0 then ['0'] else (Nat.digits 16 n).reverse.map lowerDigit

-- The array and its length are one list. setw is reset by each insertion, hex and setfill stay.
def uChar2Str (arr : List UInt8) : Text :=
  arr.flatMap fun byte => (insertHex byte.toNat).leftpad 2 '0'

-- One digit is padded to two: a byte below 16 keeps its leading zero.
theorem insertHex_padded (small : n < 256) :
    (insertHex n).leftpad 2 '0' = [lowerDigit (n / 16),lowerDigit (n % 16)] := by
  unfold insertHex
  by_cases zero : n = 0
  · subst zero
    rfl
  · rw [if_neg zero]
    by_cases single : n < 16
    · have high : n / 16 = 0 := Nat.div_eq_of_lt single
      have low : n % 16 = n := Nat.mod_eq_of_lt single
      rw [Nat.digits_of_lt 16 n zero single,high,low]
      rfl
    · have high : n / 16 < 16 := by omega
      rw [Nat.digits_def' (by decide) (by omega),Nat.digits_of_lt 16 (n / 16) (by omega) high]
      rfl

theorem uChar2Str_cons (byte : UInt8) (rest : List UInt8) :
    uChar2Str (byte :: rest) =
      lowerDigit (byte.toNat / 16) :: lowerDigit (byte.toNat % 16) :: uChar2Str rest := by
  unfold uChar2Str
  rw [List.flatMap_cons,insertHex_padded byte.toNat_lt]
  rfl

theorem uChar2Str_length (bytes : List UInt8) : (uChar2Str bytes).length = 2*bytes.length := by
  induction bytes with
  | nil => rfl
  | cons byte rest ih =>
      rw [uChar2Str_cons]
      simp only [List.length_cons,ih]
      omega

theorem uChar2Str_pairValue (high : x < 16) (low : y < 16) (rest : List UInt8) :
    uChar2Str (pairValue x y :: rest) = lowerDigit x :: lowerDigit y :: uChar2Str rest := by
  have whole : (pairValue x y).toNat = 16*x + y := by
    rw [pairValue,UInt8.toNat_ofNat']
    omega
  have upper : (16*x + y) / 16 = x := by omega
  have lower : (16*x + y) % 16 = y := by omega
  rw [uChar2Str_cons,whole,upper,lower]

theorem hexToString_uChar2Str (bytes : List UInt8) : hexToString (uChar2Str bytes) = bytes := by
  induction bytes with
  | nil => rfl
  | cons byte rest ih =>
      obtain ⟨high,low⟩ := nibbles_lt byte
      rw [uChar2Str_cons,hexToString_pair (digitValue_lowerDigit _ high) (digitValue_lowerDigit _ low),
        pairValue_nibbles,ih]

theorem uChar2Str_digits (bytes : List UInt8) : AllDigits (uChar2Str bytes) := by
  induction bytes with
  | nil => exact fun c member => by cases member
  | cons byte rest ih =>
      obtain ⟨high,low⟩ := nibbles_lt byte
      intro c member
      rw [uChar2Str_cons] at member
      rcases List.mem_cons.mp member with rfl | member
      · rw [digitValue_lowerDigit _ high]; rfl
      · rcases List.mem_cons.mp member with rfl | member
        · rw [digitValue_lowerDigit _ low]; rfl
        · exact ih c member

theorem uChar2Str_hexToString (digits : AllDigits text) (even : text.length % 2 = 0) :
    uChar2Str (hexToString text) = text.map Char.toLower := by
  induction text using hexToString.induct with
  | case1 a b rest ih =>
      obtain ⟨x,high⟩ := Option.isSome_iff_exists.mp (digits a (by simp))
      obtain ⟨y,low⟩ := Option.isSome_iff_exists.mp (digits b (by simp))
      simp only [List.length_cons] at even
      have written := ih (fun c member => digits c (by simp [member])) (by omega)
      rw [hexToString_pair high low,uChar2Str_pairValue (digitValue_lt high) (digitValue_lt low),written,
        lowerDigit_toLower high,lowerDigit_toLower low]
      rfl
  | case2 text short =>
      rcases short_text short with rfl | ⟨c,rfl⟩
      · rfl
      · simp at even

theorem codecs_invert :
    (∀ bytes : List UInt8, hexToString (uChar2Str bytes) = bytes ∧
      Utils.hexToString (uChar2Str bytes) = bytes ∧
      parseString (uChar2Str bytes) = .ok bytes) ∧
    (∀ text : Text, AllDigits text → ∃ bytes : List UInt8, bytes.length = text.length / 2 ∧
      hexToString text = bytes ∧ Utils.hexToString text = bytes ∧ parseString text = .ok bytes) ∧
    (∀ text : Text, AllDigits text → text.length % 2 = 0 →
      uChar2Str (hexToString text) = text.map Char.toLower ∧
      uChar2Str (Utils.hexToString text) = text.map Char.toLower) := by
  refine ⟨fun bytes => ?_,fun text digits => ?_,fun text digits even => ?_⟩
  · have back := hexToString_uChar2Str bytes
    refine ⟨back,back,?_⟩
    rw [parseString_hexToString (uChar2Str_digits bytes),back]
  · exact ⟨hexToString text,hexToString_length text,rfl,rfl,parseString_hexToString digits⟩
  · have lower := uChar2Str_hexToString digits even
    exact ⟨lower,lower⟩

example : uChar2Str [0,10,255] = "000aff".toList := by decide

end Keyser.HexCodecs
