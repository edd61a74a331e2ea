import Mathlib.Data.Rat.Cast.Defs
import Mathlib.Data.Rat.Cast.CharZero
import Mathlib.Data.List.Basic

namespace Keyser.JsonValue

-- The values of a double that compare equal to themselves.
inductive Extended where
  | finite (q : Rat)
  | infinite (negative : Bool)
  deriving DecidableEq

-- A value of nlohmann::json: an integer is read as unsigned unless it is negative, and a
-- float is `none` for a NaN. The members of an object have different keys.
inductive Json where
  | null
  | object (members : List (List Char × Json))
  | array (elements : List Json)
  | string (text : List Char)
  | boolean (b : Bool)
  | unsigned (n : UInt64)
  | integer (n : Int64)
  | float (x : Option Extended)
  | binary (bytes : List UInt8)
  | discarded

-- operator[] with a key, on a value that is not const: a null becomes an object, a missing
-- member a null; `none` is the exception of every other kind.
def Json.subscript (key : List Char) : Json → Option Json
  | .null => some .null
  | .object members => some ((members.lookup key).getD .null)
  | _ => none

def Json.getString : Json → Option (List Char)
  | .string text => some text
  | _ => none

-- The cast of a double drops its fraction, and is undefined where uint16_t has no such value.
def castFloat (wild : Option Extended → UInt16) (x : Option Extended) : UInt16 :=
  match x with
  | some (.finite q) =>
    let whole := q.num.tdiv q.den
    if 0 ≤ whole ∧ whole < 65536 then UInt16.ofNat whole.toNat else wild x
  | _ => wild x

def Json.toUInt16 (wild : Option Extended → UInt16) : Json → Option UInt16
  | .unsigned n => some n.toUInt16
  | .integer n => some n.toUInt64.toUInt16
  | .float x => some (castFloat wild x)
  | .boolean b => some (if b then 1 else 0)
  | _ => none

def Json.arithmetic : Json → Bool
  | .unsigned _ | .integer _ | .float _ | .boolean _ => true
  | _ => false

def Json.number : Json → Option Extended
  | .unsigned n => some (.finite n.toNat)
  | .integer n => some (.finite n.toInt)
  | .float x => x
  | _ => none

-- operator== with a value that has no elements: numbers of any kind compare by value.
def Json.Equal : Json → Json → Prop
  | .null,.null => True
  | .string a,.string b => a = b
  | .boolean a,.boolean b => a = b
  | a,b => ∃ x, a.number = some x ∧ b.number = some x

theorem getString_some {json : Json} (read : json.getString = some text) : json = .string text := by
  cases json with
  | string other => exact congrArg Json.string (Option.some.inj read)
  | _ => cases read

theorem toUInt16_some (wild : Option Extended → UInt16) (json : Json) :
    (∃ n, json.toUInt16 wild = some n) ↔ json.arithmetic = true := by
  cases json <;> simp [Json.toUInt16,Json.arithmetic]

theorem castFloat_whole (wild : Option Extended → UInt16) (n : UInt16) :
    castFloat wild (some (.finite n.toNat)) = n := by
  have small := n.toNat_lt
  have whole : ((n.toNat : Rat).num.tdiv (n.toNat : Rat).den) = n.toNat := by
    rw [Rat.num_natCast,Rat.den_natCast]
    simp
  have range : (0 : Int) ≤ n.toNat ∧ (n.toNat : Int) < 65536 := by omega
  unfold castFloat
  simp only [whole,range]
  simp

theorem toUInt16_number (wild : Option Extended → UInt16) {json : Json} {n : UInt16}
    (same : json.number = some (.finite n.toNat)) : json.toUInt16 wild = some n := by
  have small := n.toNat_lt
  cases json with
  | unsigned m =>
      simp only [Json.number,Option.some.injEq,Extended.finite.injEq,Nat.cast_inj] at same
      have cast : m.toUInt16 = n := by
        rw [← UInt16.toNat_inj,UInt64.toNat_toUInt16,same]
        omega
      exact congrArg some cast
  | integer m =>
      simp only [Json.number,Option.some.injEq,Extended.finite.injEq] at same
      have value : m.toInt = (n.toNat : Int) := by exact_mod_cast same
      have bits : m.toInt = if 2*m.toUInt64.toNat < 2^64 then (m.toUInt64.toNat : Int)
          else (m.toUInt64.toNat : Int) - (2^64 : Nat) := BitVec.toInt_eq_toNat_cond m.toBitVec
      have range := m.toUInt64.toNat_lt
      have cast : m.toUInt64.toUInt16 = n := by
        rw [← UInt16.toNat_inj,UInt64.toNat_toUInt16]
        split at bits <;> omega
      exact congrArg some cast
  | float x =>
      unfold Json.number at same
      subst same
      exact congrArg some (castFloat_whole wild n)
  | null | object | array | string | boolean | binary | discarded => cases same

theorem equal_unsigned (n : UInt64) (json : Json) :
    (Json.unsigned n).Equal json ↔ json.number = some (.finite n.toNat) := by
  cases json <;> simp [Json.Equal,Json.number,eq_comm]

end Keyser.JsonValue
