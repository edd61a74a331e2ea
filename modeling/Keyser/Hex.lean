import Mathlib.Data.Nat.Digits.Defs
import Mathlib.Tactic.IntervalCases
import Mathlib.Tactic.Ring

namespace Keyser.Hex

abbrev Text := List Char

-- The white space of the C locale.
def isspace (c : Char) : Bool := c = ' ' || (9 ≤ c.toNat && c.toNat ≤ 13)

def digitValue (c : Char) : Option Nat :=
  if 48 ≤ c.toNat ∧ c.toNat ≤ 57 then some (c.toNat - 48)
  else if 65 ≤ c.toNat ∧ c.toNat ≤ 70 then some (c.toNat - 65 + 10)
  else if 97 ≤ c.toNat ∧ c.toNat ≤ 102 then some (c.toNat - 97 + 10)
  else none

def leadingDigits : Text → List Nat
  | [] => []
  | c :: rest =>
    match digitValue c with
    | none => []
    | some digit => digit :: leadingDigits rest

def value (digits : List Nat) : Nat := digits.foldl (fun n digit => 16*n + digit) 0

def upperDigit (digit : Nat) : Char := "0123456789ABCDEF".toList.getD digit '0'

def lowerDigit (digit : Nat) : Char := "0123456789abcdef".toList.getD digit '0'

def upperPair (byte : Nat) : Text := [upperDigit (byte / 16),upperDigit (byte % 16)]

def pairValue (high low : Nat) : UInt8 := UInt8.ofNat (16*high + low)

def AllDigits (text : Text) : Prop := ∀ c ∈ text, (digitValue c).isSome = true

instance (text : Text) : Decidable (AllDigits text) :=
  decidable_of_iff (text.all fun c => (digitValue c).isSome) List.all_eq_true

def digits : Text := "0123456789ABCDEFabcdef".toList

theorem digit_mem (found : digitValue c = some digit) : c ∈ digits := by
  have same : c = Char.ofNat c.toNat := (Char.ofNat_toNat c).symm
  unfold digitValue at found
  split at found
  · rename_i range
    obtain ⟨low,high⟩ := range
    rw [same]
    interval_cases c.toNat <;> decide
  · split at found
    · rename_i range
      obtain ⟨low,high⟩ := range
      rw [same]
      interval_cases c.toNat <;> decide
    · split at found
      · rename_i range
        obtain ⟨low,high⟩ := range
        rw [same]
        interval_cases c.toNat <;> decide
      · cases found

theorem digit_plain (found : digitValue c = some digit) : isspace c = false ∧ c ≠ '-' ∧ c ≠ '+' := by
  have plain : (digits.all fun c => !isspace c && c != '-' && c != '+') = true := by decide
  have here := List.all_eq_true.mp plain c (digit_mem found)
  simpa [and_assoc] using here

theorem digitValue_upperDigit (digit : Nat) (small : digit < 16) : digitValue (upperDigit digit) = some digit := by
  have each : ∀ digit ∈ List.range 16, digitValue (upperDigit digit) = some digit := by decide
  exact each digit (List.mem_range.mpr small)

theorem digitValue_lt (found : digitValue c = some digit) : digit < 16 := by
  unfold digitValue at found
  split at found
  · cases found; omega
  · split at found
    · cases found; omega
    · split at found
      · cases found; omega
      · cases found

theorem digitValue_lowerDigit (digit : Nat) (small : digit < 16) : digitValue (lowerDigit digit) = some digit := by
  have each : ∀ digit ∈ List.range 16, digitValue (lowerDigit digit) = some digit := by decide
  exact each digit (List.mem_range.mpr small)

theorem lowerDigit_toLower (found : digitValue c = some digit) : lowerDigit digit = c.toLower := by
  have each : (digits.all fun c => (digitValue c).map lowerDigit == some c.toLower) = true := by decide
  have here := eq_of_beq (List.all_eq_true.mp each c (digit_mem found))
  rw [found] at here
  exact Option.some.inj here

theorem value_snoc (digits : List Nat) (digit : Nat) : value (digits ++ [digit]) = 16*value digits + digit := by
  simp [value]

theorem value_from (digits : List Nat) (n : Nat) :
    digits.foldl (fun n digit => 16*n + digit) n = n*16^digits.length + value digits := by
  induction digits generalizing n with
  | nil => simp [value]
  | cons digit rest ih =>
      rw [value,List.foldl_cons,List.foldl_cons,ih,ih (16*0 + digit),List.length_cons,pow_succ]
      ring

theorem value_cons (digit : Nat) (digits : List Nat) :
    value (digit :: digits) = digit*16^digits.length + value digits := by
  rw [value,List.foldl_cons,value_from,Nat.mul_zero,Nat.zero_add]

theorem value_lt {digits : List Nat} (small : ∀ digit ∈ digits, digit < 16) : value digits < 16^digits.length := by
  induction digits with
  | nil => exact Nat.one_pos
  | cons digit rest ih =>
      have here := small digit (List.mem_cons_self ..)
      have later := ih fun other member => small other (List.mem_cons_of_mem _ member)
      have most : (digit + 1)*16^rest.length ≤ 16*16^rest.length := Nat.mul_le_mul_right _ here
      rw [value_cons,List.length_cons,pow_succ]
      rw [Nat.add_mul,Nat.one_mul] at most
      omega

theorem leadingDigits_lt (text : Text) : ∀ digit ∈ leadingDigits text, digit < 16 := by
  induction text with
  | nil => exact fun digit member => by cases member
  | cons c rest ih =>
      intro digit member
      unfold leadingDigits at member
      cases found : digitValue c with
      | none => simp [found] at member
      | some first =>
          simp only [found,List.mem_cons] at member
          rcases member with rfl | member
          · exact digitValue_lt found
          · exact ih digit member

theorem leadingDigits_length (digits : AllDigits text) : (leadingDigits text).length = text.length := by
  induction text with
  | nil => rfl
  | cons c rest ih =>
      obtain ⟨digit,found⟩ := Option.isSome_iff_exists.mp (digits c (List.mem_cons_self ..))
      have later := ih fun other member => digits other (List.mem_cons_of_mem _ member)
      simp only [leadingDigits,found,List.length_cons,later]

theorem digitValue_zero (found : digitValue c = some digit) : c = '0' ↔ digit = 0 := by
  have each : (digits.all fun c => (digitValue c).all fun digit => decide (c = '0' ↔ digit = 0)) = true := by decide
  have here := List.all_eq_true.mp each c (digit_mem found)
  rw [found] at here
  exact of_decide_eq_true here

-- Leading zeros bound the number, whatever the digits after them.
theorem zeros_value (digits : AllDigits text) (zeros : Nat) :
    List.replicate zeros '0' <+: text ↔
      zeros ≤ text.length ∧ value (leadingDigits text) < 16^(text.length - zeros) := by
  induction text generalizing zeros with
  | nil =>
      cases zeros with
      | zero => simp [leadingDigits,value]
      | succ zeros => simp [List.replicate_succ]
  | cons c rest ih =>
      have later : AllDigits rest := fun other member => digits other (List.mem_cons_of_mem _ member)
      obtain ⟨digit,found⟩ := Option.isSome_iff_exists.mp (digits c (List.mem_cons_self ..))
      cases zeros with
      | zero =>
          have bound := value_lt (leadingDigits_lt (c :: rest))
          rw [leadingDigits_length digits] at bound
          simpa using bound
      | succ zeros =>
          rw [List.replicate_succ,List.cons_prefix_cons,ih later,eq_comm,digitValue_zero found]
          simp only [leadingDigits,found,List.length_cons,value_cons,leadingDigits_length later,
            Nat.add_le_add_iff_right,Nat.add_sub_add_right]
          constructor
          · rintro ⟨rfl,short,bound⟩
            exact ⟨short,by omega⟩
          · rintro ⟨short,bound⟩
            have most : 16^(rest.length - zeros) ≤ 16^rest.length := Nat.pow_le_pow_right (by decide) (Nat.sub_le ..)
            have first : digit = 0 := by
              by_contra other
              have least : 1*16^rest.length ≤ digit*16^rest.length := Nat.mul_le_mul_right _ (by omega)
              omega
            subst first
            exact ⟨rfl,short,by omega⟩

theorem leadingDigits_pairs (bytes : List Nat) (small : ∀ byte ∈ bytes, byte < 256) :
    leadingDigits (bytes.flatMap upperPair) = bytes.flatMap fun byte => [byte / 16,byte % 16] := by
  induction bytes with
  | nil => rfl
  | cons byte rest ih =>
      have here := small byte (List.mem_cons_self ..)
      have high := digitValue_upperDigit (byte / 16) (by omega)
      have low := digitValue_upperDigit (byte % 16) (by omega)
      simp only [List.flatMap_cons,upperPair,List.cons_append,List.nil_append,leadingDigits,high,low,
        List.cons.injEq,true_and]
      exact ih fun other member => small other (List.mem_cons_of_mem _ member)

-- The pairs of the bytes of a number, the most significant byte first.
theorem value_pairs (bytes : List Nat) :
    value (bytes.reverse.flatMap fun byte => [byte / 16,byte % 16]) = Nat.ofDigits 256 bytes := by
  induction bytes with
  | nil => rfl
  | cons byte rest ih =>
      rw [List.reverse_cons,List.flatMap_append,Nat.ofDigits_cons,← ih]
      simp only [List.flatMap_cons,List.flatMap_nil,List.append_nil]
      rw [show [byte / 16,byte % 16] = [byte / 16] ++ [byte % 16] from rfl,← List.append_assoc,value_snoc,value_snoc]
      omega

end Keyser.Hex
