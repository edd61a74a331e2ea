import Keyser.Hex
import Mathlib.Data.List.Basic
import Mathlib.Tactic.Common

namespace Keyser.PeerInfo
open Hex

-- std::to_string of an unsigned number
def decimal (n : Nat) : Text := Nat.toDigits 10 n

structure Endpoint where
  address : Text
  port : UInt16
  deriving DecidableEq

def Endpoint.string (endpoint : Endpoint) : Text := endpoint.address ++ decimal endpoint.port.toNat

-- operator==
def Endpoint.equal (lhs rhs : Endpoint) : Bool :=
  lhs.address ++ decimal lhs.port.toNat == rhs.address ++ decimal rhs.port.toNat

def allowConnect (selfEndpoint endpoint : Endpoint) : Bool :=
  if selfEndpoint.equal endpoint then false else true

theorem decimal_injective : Function.Injective decimal := by
  intro n m same
  have read := congrArg (fun digits => Nat.ofDigitChars 10 digits 0) same
  simpa [decimal] using read

theorem dot_decimal (n : Nat) : '.' ∉ decimal n := by
  intro member
  have digit := Nat.isDigit_of_mem_toDigits (by decide) (by decide) member
  exact absurd digit (by decide)

-- An IPv4 address, and its dotted-quad text.
structure Quad where
  one : UInt8
  two : UInt8
  three : UInt8
  four : UInt8
  deriving DecidableEq

def Quad.network (quad : Quad) : UInt8 × UInt8 × UInt8 := (quad.one,quad.two,quad.three)

def Quad.text (quad : Quad) : Text :=
  decimal quad.one.toNat ++ '.' :: (decimal quad.two.toNat ++ '.' :: (decimal quad.three.toNat ++
    '.' :: decimal quad.four.toNat))

def Quad.endpoint (quad : Quad) (port : UInt16) : Endpoint := ⟨quad.text,port⟩

theorem octet_injective {n m : UInt8} (same : decimal n.toNat = decimal m.toNat) : n = m :=
  UInt8.toNat_inj.mp (decimal_injective same)

theorem split_dot {left right : Text} (plain : '.' ∉ left) (plain' : '.' ∉ right) (rest rest' : Text) :
    left ++ '.' :: rest = right ++ '.' :: rest' ↔ left = right ∧ rest = rest' := by
  induction left generalizing right with
  | nil => cases right <;> simp_all
  | cons c left ih =>
      cases right with
      | nil => simp_all [eq_comm]
      | cons d right =>
          simp only [List.mem_cons,not_or] at plain plain'
          simp only [List.cons_append,List.cons.injEq,ih plain.2 plain'.2,and_assoc]

-- The dots keep the octets apart; nothing keeps the last one apart from the port.
theorem string_eq_iff {q r : Quad} {p p' : UInt16} : (q.endpoint p).string = (r.endpoint p').string ↔
    q.network = r.network ∧
      decimal q.four.toNat ++ decimal p.toNat = decimal r.four.toNat ++ decimal p'.toNat := by
  simp only [Endpoint.string,Quad.endpoint,Quad.text,Quad.network,List.append_assoc,List.cons_append]
  simp only [split_dot (dot_decimal _) (dot_decimal _),decimal_injective.eq_iff,UInt8.toNat_inj,Prod.mk.injEq,
    and_assoc]

theorem endpoint_eq {q r : Quad} {p p' : UInt16} (network : q.network = r.network)
    (four : decimal q.four.toNat = decimal r.four.toNat) (port : decimal p.toNat = decimal p'.toNat) :
    q.endpoint p = r.endpoint p' := by
  obtain rfl : p = p' := UInt16.toNat_inj.mp (decimal_injective port)
  simp only [Quad.endpoint,Endpoint.mk.injEq,and_true,Quad.text]
  simp only [Quad.network,Prod.mk.injEq] at network
  rw [network.1,network.2.1,network.2.2,four]

theorem endpoint_four {q r : Quad} {p p' : UInt16} (same : q.endpoint p = r.endpoint p') : q.four = r.four := by
  have texts : q.text = r.text := congrArg Endpoint.address same
  have strings : (q.endpoint 0).string = (r.endpoint 0).string := congrArg (· ++ decimal 0) texts
  exact octet_injective (List.append_cancel_right (string_eq_iff.mp strings).2)

-- One last octet goes on where the other ends, with the digits that the other's port has
-- in front of its own.
def Shifted (q : Quad) (p : UInt16) (r : Quad) (p' : UInt16) : Prop :=
  q.network = r.network ∧ ∃ digits, digits ≠ [] ∧
    decimal r.four.toNat = decimal q.four.toNat ++ digits ∧ decimal p.toNat = digits ++ decimal p'.toNat

theorem shifted_string {q r : Quad} {p p' : UInt16} (shifted : Shifted q p r p') :
    (q.endpoint p).string = (r.endpoint p').string := by
  obtain ⟨network,digits,_,four,port⟩ := shifted
  exact string_eq_iff.mpr ⟨network,by rw [four,port,List.append_assoc]⟩

theorem shifted_ne {q r : Quad} {p p' : UInt16} (shifted : Shifted q p r p') : q.endpoint p ≠ r.endpoint p' := by
  obtain ⟨_,digits,some,four,_⟩ := shifted
  intro same
  rw [endpoint_four same] at four
  exact some (List.append_right_eq_self.mp four.symm)

theorem string_collides {q r : Quad} {p p' : UInt16} (same : (q.endpoint p).string = (r.endpoint p').string) :
    q.endpoint p = r.endpoint p' ∨ Shifted q p r p' ∨ Shifted r p' q p := by
  obtain ⟨network,last⟩ := string_eq_iff.mp same
  rcases List.append_eq_append_iff.mp last with ⟨digits,four,port⟩ | ⟨digits,four,port⟩
  · by_cases none : digits = []
    · subst none
      exact .inl (endpoint_eq network (by simpa using four.symm) (by simpa using port))
    · exact .inr (.inl ⟨network,digits,none,four,port⟩)
  · by_cases none : digits = []
    · subst none
      exact .inl (endpoint_eq network (by simpa using four) (by simpa using port.symm))
    · exact .inr (.inr ⟨network.symm,digits,none,four,port⟩)

theorem equal_iff (one two : Endpoint) : one.equal two = true ↔ one.string = two.string := by
  simp [Endpoint.equal,Endpoint.string]

structure Faithful (one two : Endpoint) : Prop where
  equal : one.equal two = true ↔ one.address = two.address ∧ one.port = two.port
  keys : one.string = two.string → one = two
  refused : allowConnect one two = false → two = one

theorem faithful_of_keys {one two : Endpoint} (keys : one.string = two.string → one = two) : Faithful one two := by
  refine ⟨?_,keys,?_⟩
  · rw [equal_iff]
    constructor
    · intro same
      rw [keys same]
      exact ⟨rfl,rfl⟩
    · rintro ⟨address,port⟩
      rw [Endpoint.string,Endpoint.string,address,port]
  · intro refused
    have same : one.equal two = true := by simpa [allowConnect] using refused
    exact (keys ((equal_iff _ _).mp same)).symm

theorem faithful_iff (q r : Quad) (p p' : UInt16) :
    Faithful (q.endpoint p) (r.endpoint p') ↔ ¬ Shifted q p r p' ∧ ¬ Shifted r p' q p := by
  constructor
  · intro faithful
    constructor
    · intro shifted
      exact shifted_ne shifted (faithful.keys (shifted_string shifted))
    · intro shifted
      exact shifted_ne shifted (faithful.keys (shifted_string shifted).symm).symm
  · rintro ⟨front,back⟩
    refine faithful_of_keys fun same => ?_
    rcases string_collides same with equal | shifted | shifted
    · exact equal
    · exact absurd shifted front
    · exact absurd shifted back

-- 10.0.0.1 with port 26000, and 10.0.0.12 with port 6000
theorem faithful_fails : ¬ Faithful (Quad.endpoint ⟨10,0,0,1⟩ 26000) (Quad.endpoint ⟨10,0,0,12⟩ 6000) := by
  intro faithful
  exact absurd (faithful.keys (by decide +kernel)) (by decide +kernel)

end Keyser.PeerInfo
