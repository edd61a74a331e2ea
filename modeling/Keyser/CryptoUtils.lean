import Keyser.Hex
import Mathlib.Algebra.Module.Defs
import Mathlib.Data.Nat.Prime.Defs
import Mathlib.Algebra.Order.Ring.Int
import Mathlib.Algebra.Field.ZMod

namespace Keyser.CryptoUtils
open Hex

-- The ways in which the code ends without a value.
inductive Fault where
  | outOfRange
  | nullPointer
  | divisionByZero
  | aborted
  | bufferSize
  | endless
  deriving DecidableEq

@[simp] theorem ok_bind (a : α) (next : α → Except Fault β) : (Except.ok a >>= next) = next a := rfl

@[simp] theorem error_bind (fault : Fault) (next : α → Except Fault β) :
    (Except.error fault >>= next) = .error fault := rfl

theorem bind_ok {first : Except Fault α} {next : α → Except Fault β} (succeeded : (first >>= next) = .ok b) :
    ∃ a, first = .ok a ∧ next a = .ok b := by
  cases first with
  | error fault => cases succeeded
  | ok a => exact ⟨a,rfl,succeeded⟩

-- vector::at
def getAt (xs : List α) (i : Nat) : Except Fault α :=
  match xs[i]? with
  | some x => .ok x
  | none => .error .outOfRange

def setAt (xs : List α) (i : Nat) (x : α) : Except Fault (List α) :=
  if i < xs.length then .ok (xs.set i x) else .error .outOfRange

theorem getAt_of {xs : List α} (found : xs[i]? = some x) : getAt xs i = .ok x := by
  simp [getAt,found]

theorem getAt_ok {xs : List α} (succeeded : getAt xs i = .ok x) : xs[i]? = some x := by
  unfold getAt at succeeded
  split at succeeded <;> cases succeeded
  assumption

-- ss << std::hex << text; ss >> s: white space is skipped, and a minus wraps around.
def extractHex (text : Text) : UInt32 :=
  match text.dropWhile isspace with
  | '-' :: rest => - UInt32.ofNat (value (leadingDigits rest))
  | '+' :: rest => UInt32.ofNat (value (leadingDigits rest))
  | rest => UInt32.ofNat (value (leadingDigits rest))

def hexToString : Text → List UInt8
  | a :: b :: rest => (extractHex [a,b]).toUInt8 :: hexToString rest
  | _ => []

def parseHex (c : Char) : Except Fault UInt8 :=
  match digitValue c with
  | some digit => .ok (UInt8.ofNat digit)
  | none => .error .aborted

def parseString : Text → Except Fault (List UInt8)
  | a :: b :: rest => do
    let high ← parseHex a
    let low ← parseHex b
    let bytes ← parseString rest
    return (16*high + low) :: bytes
  | _ => return []

-- BN_hex2bn leaves the zero of BN_new in place when the text begins with no number.
def hex2bn : Text → Int
  | '-' :: rest => - (value (leadingDigits rest) : Int)
  | text => (value (leadingDigits text) : Int)

def bn2hex (n : Int) : Text :=
  if n = 0 then ['0']
  else (if n < 0 then ['-'] else []) ++ (Nat.digits 256 n.natAbs).reverse.flatMap upperPair

def Hs (hash : Text) : Int := hex2bn hash

theorem extractHex_pair (high : digitValue a = some x) (low : digitValue b = some y) :
    (extractHex [a,b]).toUInt8 = pairValue x y := by
  obtain ⟨space,minus,plus⟩ := digit_plain high
  have stays : [a,b].dropWhile isspace = [a,b] := by simp [space]
  have read : value (leadingDigits [a,b]) = 16*x + y := by simp [leadingDigits,high,low,value]
  unfold extractHex
  rw [stays]
  split
  · rename_i same; cases same; exact absurd rfl minus
  · rename_i same; cases same; exact absurd rfl plus
  · rw [read]
    exact UInt32.toUInt8_ofNat' ..

theorem hexToString_pair (high : digitValue a = some x) (low : digitValue b = some y) (rest : Text) :
    hexToString (a :: b :: rest) = pairValue x y :: hexToString rest := by
  rw [hexToString,extractHex_pair high low]

theorem nibbles_lt (byte : UInt8) : byte.toNat / 16 < 16 ∧ byte.toNat % 16 < 16 := by
  have small : byte.toNat < 256 := byte.toNat_lt
  omega

theorem pairValue_nibbles (byte : UInt8) : pairValue (byte.toNat / 16) (byte.toNat % 16) = byte := by
  rw [pairValue,Nat.div_add_mod,UInt8.ofNat_toNat]

-- The second case of the functions that take two characters at a time.
theorem short_text {text : Text} (short : ∀ a b rest, text = a :: b :: rest → False) :
    text = [] ∨ ∃ c, text = [c] := by
  cases text with
  | nil => exact .inl rfl
  | cons c rest =>
      cases rest with
      | nil => exact .inr ⟨c,rfl⟩
      | cons d rest => exact absurd rfl (short c d rest)

theorem hexToString_append (even : left.length % 2 = 0) (right : Text) :
    hexToString (left ++ right) = hexToString left ++ hexToString right := by
  induction left using hexToString.induct with
  | case1 a b rest ih =>
      simp only [List.length_cons] at even
      simp only [List.cons_append,hexToString,ih (by omega)]
  | case2 text short =>
      rcases short_text short with rfl | ⟨c,rfl⟩
      · rfl
      · simp at even

theorem hexToString_length (text : Text) : (hexToString text).length = text.length / 2 := by
  induction text using hexToString.induct with
  | case1 a b rest ih => simp only [hexToString,List.length_cons,ih]; omega
  | case2 text short =>
      rcases short_text short with rfl | ⟨c,rfl⟩
      · rfl
      · simp [hexToString]

theorem hexToString_pairs (bytes : List UInt8) :
    hexToString (bytes.flatMap fun byte => upperPair byte.toNat) = bytes := by
  induction bytes with
  | nil => rfl
  | cons byte rest ih =>
      obtain ⟨high,low⟩ := nibbles_lt byte
      have first := hexToString_pair (digitValue_upperDigit _ high) (digitValue_upperDigit _ low)
        (rest.flatMap fun byte => upperPair byte.toNat)
      rw [pairValue_nibbles,ih] at first
      exact first

theorem hex2bn_digit (first : (digitValue c).isSome = true) (rest : Text) :
    hex2bn (c :: rest) = (value (leadingDigits (c :: rest)) : Int) := by
  obtain ⟨digit,found⟩ := Option.isSome_iff_exists.mp first
  have plain := (digit_plain found).2.1
  unfold hex2bn
  split
  · rename_i same; cases same; exact absurd rfl plain
  · rfl

theorem hex2bn_magnitude (positive : n ≠ 0) :
    hex2bn ((Nat.digits 256 n).reverse.flatMap upperPair) = (n : Int) ∧
    value (leadingDigits ((Nat.digits 256 n).reverse.flatMap upperPair)) = n := by
  have small : ∀ byte ∈ (Nat.digits 256 n).reverse, byte < 256 := fun byte member =>
    Nat.digits_lt_base (by decide) (List.mem_reverse.mp member)
  have read : value (leadingDigits ((Nat.digits 256 n).reverse.flatMap upperPair)) = n := by
    rw [leadingDigits_pairs _ small,value_pairs,Nat.ofDigits_digits]
  refine ⟨?_,read⟩
  have some : (Nat.digits 256 n).reverse ≠ [] := by
    simpa [Nat.digits_eq_nil_iff_eq_zero] using positive
  obtain ⟨byte,rest,split⟩ := List.exists_cons_of_ne_nil some
  rw [split] at read small ⊢
  have first := digitValue_upperDigit (byte / 16) (by have := small byte (List.mem_cons_self ..); omega)
  rw [List.flatMap_cons,upperPair,List.cons_append] at read ⊢
  rw [hex2bn_digit (by rw [first]; rfl),read]

theorem hex2bn_bn2hex (n : Int) : hex2bn (bn2hex n) = n := by
  unfold bn2hex
  by_cases zero : n = 0
  · rw [if_pos zero,zero]
    decide
  · obtain ⟨whole,digits⟩ := hex2bn_magnitude (n := n.natAbs) (by omega)
    rw [if_neg zero]
    split
    · rename_i negative
      rw [List.singleton_append,hex2bn,digits]
      omega
    · rw [List.nil_append,whole]
      omega

theorem bn2hex_injective : Function.Injective bn2hex :=
  Function.LeftInverse.injective hex2bn_bn2hex

-- What OpenSSL documents of its group. The octets are the compressed form; setCompressed
-- lifts an x-coordinate, and is none off the curve.
structure Curve (Point : Type) [AddCommGroup Point] where
  generator : Point
  order : Nat
  field : Nat
  setCompressed : Int → Option Point
  point2oct : Point → List UInt8
  hex2point : Text → Option Point
  order_prime : order.Prime
  order_smul : ∀ P : Point, order • P = 0
  field_prime : field.Prime
  setCompressed_mod : ∀ x, setCompressed (x % field) = setCompressed x
  setCompressed_some : ∃ x, (setCompressed x).isSome = true
  setCompressed_ne : ∀ x, setCompressed x ≠ some 0
  point2oct_zero : point2oct 0 = [0]
  point2oct_form : ∀ P, P ≠ 0 → ∃ tag coordinate, point2oct P = tag :: coordinate ∧
    (tag = 2 ∨ tag = 3) ∧ coordinate.length = 32
  hex2point_point2hex : ∀ P, hex2point ((point2oct P).flatMap fun byte => upperPair byte.toNat) = some P

-- hash::SHA3 is not in the repository.
structure SHA3 where
  digest : List UInt8 → Text
  digits : ∀ bytes, (digest bytes).length = 64 ∧ AllDigits (digest bytes)

variable {Point : Type} [AddCommGroup Point] {curve : Curve Point}

def Curve.point2hex (curve : Curve Point) (P : Point) : Text :=
  (curve.point2oct P).flatMap fun byte => upperPair byte.toNat

-- EC_POINT_point2hex reads through a null pointer; ec_mul takes it for the generator.
def pointHex (curve : Curve Point) : Option Point → Except Fault Text
  | none => .error .nullPointer
  | some P => .ok (curve.point2hex P)

def ecMul (curve : Curve Point) (s : Int) (P : Option Point) : Point := s • P.getD curve.generator

-- The residues repeat, and one of them lifts.
theorem lift_within (curve : Curve Point) (x : Int) :
    ∃ ahead : Nat, ahead < curve.field ∧ (curve.setCompressed (x + ahead)).isSome = true := by
  obtain ⟨lift,lifts⟩ := curve.setCompressed_some
  have positive : (0 : Int) < curve.field := by exact_mod_cast curve.field_prime.pos
  have low := Int.emod_nonneg (lift - x) positive.ne'
  have high := Int.emod_lt_of_pos (lift - x) positive
  refine ⟨((lift - x) % curve.field).toNat,by omega,?_⟩
  rw [Int.toNat_of_nonneg low,← curve.setCompressed_mod,Int.add_emod_emod,add_sub_cancel,curve.setCompressed_mod]
  exact lifts

-- The x-coordinates from x on have their first lift `ahead` steps later.
def FirstLift (curve : Curve Point) (x : Int) (ahead : Nat) (P0 : Point) : Prop :=
  curve.setCompressed (x + ahead) = some P0 ∧ ∀ earlier < ahead, curve.setCompressed (x + earlier) = none

theorem firstLift_exists (curve : Curve Point) (x : Int) :
    ∃ ahead P0, ahead < curve.field ∧ FirstLift curve x ahead P0 := by
  obtain ⟨some,soon,lifts⟩ := lift_within curve x
  have lifting : ∃ ahead : Nat, (curve.setCompressed (x + ahead)).isSome = true := ⟨some,lifts⟩
  obtain ⟨P0,found⟩ := Option.isSome_iff_exists.mp (Nat.find_spec lifting)
  refine ⟨Nat.find lifting,P0,Nat.lt_of_le_of_lt (Nat.find_min' lifting lifts) soon,found,?_⟩
  intro earlier before
  exact Option.not_isSome_iff_eq_none.mp (Nat.find_min lifting before)

theorem FirstLift.usable (first : FirstLift curve x ahead P0) : P0 ≠ 0 := by
  rintro rfl
  exact curve.setCompressed_ne _ first.1

theorem FirstLift.next (first : FirstLift curve x (ahead + 1) P0) : FirstLift curve (x + 1) ahead P0 := by
  have shifted : ∀ n : Nat, x + 1 + n = x + (n + 1 : Nat) := fun n => by omega
  refine ⟨?_,fun earlier before => ?_⟩
  · rw [shifted]
    exact first.1
  · rw [shifted]
    exact first.2 (earlier + 1) (Nat.succ_lt_succ before)

theorem FirstLift.unique (first : FirstLift curve x ahead P0) (other : FirstLift curve x ahead' P1) :
    ahead = ahead' ∧ P0 = P1 := by
  have same : ahead = ahead' := by
    rcases Nat.lt_trichotomy ahead ahead' with before | same | after
    · have none := other.2 ahead before
      rw [first.1] at none
      cases none
    · exact same
    · have none := first.2 ahead' after
      rw [other.1] at none
      cases none
  subst same
  exact ⟨rfl,Option.some.inj (first.1.symm.trans other.1)⟩

variable [DecidableEq Point]

-- while (true): the lifts repeat after `field` steps.
def candidate (curve : Curve Point) : (left : Nat) → (x : Int) → (P : Point) → Except Fault Point
  | 0,_,_ => .error .endless
  | left + 1,x,P =>
    let P := (curve.setCompressed x).getD P
    if P = 0 then candidate curve left (x + 1) P else .ok P

def hashBits (hashHex : List UInt8) : List Bool :=
  (List.range 256).map fun i => (hashHex.getD (i / 8) 0).toNat.testBit (7 - i % 8)

def foldBits (Q : Point) : (bits : List Bool) → (P finalP : Point) → Point
  | [],_,finalP => finalP
  | bit :: rest,P,finalP =>
    let P := if bit then P + Q else P + P
    if P = 0 then finalP else foldBits Q rest P P

-- Q is a copy of P from before the search. hashHex has 32 bytes.
def ssvgHashToCurve (curve : Curve Point) (hash : Text) : Except Fault Point := do
  let x := hex2bn hash
  let finalP : Point := 0
  let P : Point := 0
  let Q := P
  let P ← candidate curve curve.field x P
  let hashHex ← parseString hash
  if hashHex.length = 32 then return foldBits Q (hashBits hashHex) P finalP else .error .bufferSize

theorem candidate_first (first : FirstLift curve x ahead P0) (soon : ahead < left) :
    candidate curve left x 0 = .ok P0 := by
  induction left generalizing x ahead with
  | zero => cases soon
  | succ left ih =>
      unfold candidate
      cases ahead with
      | zero =>
          have found : curve.setCompressed x = some P0 := by simpa using first.1
          simp only [found,Option.getD_some,first.usable,if_false]
      | succ ahead =>
          have skipped : curve.setCompressed x = none := by simpa using first.2 0 (Nat.succ_pos ahead)
          simp only [skipped,Option.getD_none,if_true]
          exact ih first.next (by omega)

theorem parseString_pair (high : digitValue a = some x) (low : digitValue b = some y)
    (read : parseString rest = .ok bytes) : parseString (a :: b :: rest) = .ok (pairValue x y :: bytes) := by
  have carried : 16*UInt8.ofNat x + UInt8.ofNat y = pairValue x y := by
    simp [pairValue]
  rw [parseString,parseHex,parseHex,high,low,read,← carried]
  rfl

-- The stream and the arithmetic agree on digits of either case; an odd last digit is dropped by both.
theorem parseString_hexToString (digits : AllDigits text) : parseString text = .ok (hexToString text) := by
  induction text using parseString.induct with
  | case1 a b rest ih =>
      obtain ⟨x,high⟩ := Option.isSome_iff_exists.mp (digits a (by simp))
      obtain ⟨y,low⟩ := Option.isSome_iff_exists.mp (digits b (by simp))
      have read := ih fun c member => digits c (by simp [member])
      rw [parseString_pair high low read,hexToString_pair high low]
  | case2 text short =>
      rcases short_text short with rfl | ⟨c,rfl⟩
      · rfl
      · simp [parseString,hexToString]
        rfl

theorem ssvgHashToCurve_first {hash : Text} (length : hash.length = 64) (digits : AllDigits hash)
    (first : FirstLift curve (hex2bn hash) ahead P0) (soon : ahead < curve.field) :
    ssvgHashToCurve curve hash = .ok (foldBits 0 (hashBits (hexToString hash)) P0 0) := by
  have filled : (hexToString hash).length = 32 := by
    rw [hexToString_length,length]
  unfold ssvgHashToCurve
  simp only [candidate_first first soon,ok_bind,parseString_hexToString digits,filled,if_true]
  rfl

theorem ssvgHashToCurve_ok (curve : Curve Point) (sha3 : SHA3) (bytes : List UInt8) :
    ∃ P, ssvgHashToCurve curve (sha3.digest bytes) = .ok P := by
  obtain ⟨length,digits⟩ := sha3.digits bytes
  obtain ⟨ahead,P0,soon,first⟩ := firstLift_exists curve (hex2bn (sha3.digest bytes))
  exact ⟨_,ssvgHashToCurve_first length digits first soon⟩

-- Three points, and a digest that adds the bytes up.
def smallCurve : Curve (ZMod 3) where
  generator := 1
  order := 3
  field := 3
  setCompressed x := if x % 3 = 0 then none else if x % 3 = 1 then some 1 else some 2
  point2oct P := if P = 0 then [0] else (if P = 1 then 2 else 3) :: List.replicate 32 0
  hex2point text :=
    if text = "00".toList then some 0
    else if text = "02".toList ++ List.replicate 64 '0' then some 1
    else if text = "03".toList ++ List.replicate 64 '0' then some 2
    else none
  order_prime := by decide
  order_smul := by decide
  field_prime := by decide
  setCompressed_mod x := by simp
  setCompressed_some := ⟨1,by decide⟩
  setCompressed_ne x := by split <;> [decide; (split <;> decide)]
  point2oct_zero := rfl
  point2oct_form P other := by
    refine ⟨if P = 1 then 2 else 3,List.replicate 32 0,by simp [other],?_,by simp⟩
    split
    · exact .inl rfl
    · exact .inr rfl
  hex2point_point2hex := by decide

def smallSHA3 : SHA3 where
  digest bytes := List.replicate 62 '0' ++ upperPair ((bytes.map UInt8.toNat).sum % 256)
  digits bytes := by
    refine ⟨by simp [upperPair],?_⟩
    have small := Nat.mod_lt (bytes.map UInt8.toNat).sum (show 0 < 256 by decide)
    intro c member
    rcases List.mem_append.mp member with zero | pair
    · rw [List.eq_of_mem_replicate zero]
      decide
    · simp only [upperPair,List.mem_cons,List.not_mem_nil,or_false] at pair
      rcases pair with rfl | rfl <;> rw [digitValue_upperDigit _ (by omega)] <;> rfl

end Keyser.CryptoUtils
