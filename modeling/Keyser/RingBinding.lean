import Keyser.RingEquation
import Mathlib.Data.Set.Function

namespace Keyser.RingBinding
open Hex CryptoUtils Walk CryptoRing RingEquation

variable {Point : Type} [AddCommGroup Point] {curve : Curve Point} {sha3 : SHA3}
  {hash keyImage : Text} {sig publicAddrs : List Text}

theorem point2oct_injective (curve : Curve Point) : Function.Injective curve.point2oct := by
  intro P Q same
  have read := curve.hex2point_point2hex P
  rw [same,curve.hex2point_point2hex] at read
  exact (Option.some.inj read).symm

theorem hexToString_point2hex (curve : Curve Point) (P : Point) :
    hexToString (curve.point2hex P) = curve.point2oct P :=
  hexToString_pairs _

theorem point2hex_even (curve : Curve Point) (P : Point) : (curve.point2hex P).length % 2 = 0 := by
  simp [Curve.point2hex,upperPair]

-- The first octet tells which of the two lengths a point has.
theorem point2oct_append {P P2 Q Q2 : Point}
    (same : curve.point2oct P ++ curve.point2oct P2 = curve.point2oct Q ++ curve.point2oct Q2) :
    P = Q ∧ P2 = Q2 := by
  have lengths : (curve.point2oct P).length = (curve.point2oct Q).length := by
    by_cases zeroP : P = 0 <;> by_cases zeroQ : Q = 0
    · rw [zeroP,zeroQ]
    · obtain ⟨tag,coordinate,form,isTag,_⟩ := curve.point2oct_form Q zeroQ
      rw [zeroP,curve.point2oct_zero,form,List.singleton_append,List.cons_append] at same
      rcases isTag with rfl | rfl <;> exact absurd (List.cons.inj same).1 (by decide)
    · obtain ⟨tag,coordinate,form,isTag,_⟩ := curve.point2oct_form P zeroP
      rw [zeroQ,curve.point2oct_zero,form,List.singleton_append,List.cons_append] at same
      rcases isTag with rfl | rfl <;> exact absurd (List.cons.inj same).1 (by decide)
    · obtain ⟨_,coordinate,formP,_,lengthP⟩ := curve.point2oct_form P zeroP
      obtain ⟨_,other,formQ,_,lengthQ⟩ := curve.point2oct_form Q zeroQ
      rw [formP,formQ,List.length_cons,List.length_cons,lengthP,lengthQ]
  obtain ⟨first,second⟩ := List.append_inj same lengths
  exact ⟨point2oct_injective curve first,point2oct_injective curve second⟩

theorem preimage_octets (even : hash.length % 2 = 0) (R R2 : Point) :
    preimage curve hash R R2 = hexToString hash ++ (curve.point2oct R ++ curve.point2oct R2) := by
  rw [preimage,List.append_assoc,hexToString_append even,hexToString_append (point2hex_even curve R),
    hexToString_point2hex,hexToString_point2hex]

theorem preimage_injective {m m' : Text} {R R2 Q Q2 : Point} (fixed : m.length = 64) (fixed' : m'.length = 64)
    (same : preimage curve m R R2 = preimage curve m' Q Q2) :
    hexToString m = hexToString m' ∧ R = Q ∧ R2 = Q2 := by
  rw [preimage_octets (by omega),preimage_octets (by omega)] at same
  obtain ⟨message,points⟩ := List.append_inj same (by rw [hexToString_length,hexToString_length,fixed,fixed'])
  exact ⟨message,point2oct_append points⟩

variable [DecidableEq Point]

def roundCommitments (curve : Curve Point) (sha3 : SHA3) (hash : Text) (sig publicAddrs : List Text)
    (keyImage : Text) (i : Nat) : Except Fault (Point × Point) := do
  let e ← verifyRounds curve sha3 hash sig publicAddrs keyImage i
  let prev := i % publicAddrs.length
  commitments curve sha3 (← getAt (sig.tail.map hex2bn) prev) (← getAt e prev)
    (← getAt (publicAddrs.map curve.hex2point) prev) (curve.hex2point keyImage)

def hashed (curve : Curve Point) (sha3 : SHA3) (hash : Text) (sig publicAddrs : List Text) (keyImage : Text) :
    Set (List UInt8) :=
  {bytes | ∃ i < publicAddrs.length, ∃ R R2,
    roundCommitments curve sha3 hash sig publicAddrs keyImage i = .ok (R,R2) ∧ bytes = preimage curve hash R R2}

theorem roundCommitments_decoded (sha3 : SHA3) (hash keyImage : Text) {P : Nat → Point}
    (size : sig.length = publicAddrs.length + 1) (inside : i < publicAddrs.length)
    (decodes : Decodes curve publicAddrs P publicAddrs.length) :
    ∃ R R2, roundCommitments curve sha3 hash sig publicAddrs keyImage i = .ok (R,R2) ∧
      challenge curve sha3 hash R R2 = walk (recursion curve sha3 hash sig P
        ((curve.hex2point keyImage).getD curve.generator)) 0 (i + 1) (scalar sig 0) := by
  obtain ⟨e,ran,last⟩ := verifyRounds_walk sha3 hash keyImage size
    (by omega : 0 < publicAddrs.length) (Nat.le_of_lt inside) fun t early => decodes t (by omega)
  rw [Nat.mod_eq_of_lt inside] at last
  rw [walk_snoc,Nat.zero_add]
  refine ⟨_,_,?_,rfl⟩
  simp only [roundCommitments,ran,ok_bind,Nat.mod_eq_of_lt inside,getAt_of (scalar_found size inside),getAt_of last,
    getAt_of (decodes i inside)]
  exact commitments_some _ _ _ _

-- An accepted signature: the last round's challenge is the e_0 it began with.
theorem accepted_last (accepted : verify curve sha3 hash sig publicAddrs keyImage = .ok true) :
    0 < publicAddrs.length ∧ ∃ R R2,
      roundCommitments curve sha3 hash sig publicAddrs keyImage (publicAddrs.length - 1) = .ok (R,R2) ∧
      challenge curve sha3 hash R R2 = scalar sig 0 := by
  have size : sig.length = publicAddrs.length + 1 := by
    by_contra other
    simp [verify,other] at accepted
  obtain ⟨positive,P,decodes⟩ := verify_returned size accepted
  obtain ⟨R,R2,committed,last⟩ := roundCommitments_decoded sha3 hash keyImage size
    (Nat.sub_lt positive Nat.one_pos) decodes
  rw [verify_decoded _ _ _ size positive decodes,Except.ok.injEq,decide_eq_true_iff,Closes] at accepted
  rw [Nat.sub_add_cancel positive,accepted] at last
  exact ⟨positive,R,R2,committed,last⟩

theorem accepted_binds {m m' : Text} (fixed : m.length = 64) (fixed' : m'.length = 64)
    (collisionFree : Set.InjOn (fun bytes => Hs (sha3.digest bytes))
      (hashed curve sha3 m sig publicAddrs keyImage ∪ hashed curve sha3 m' sig publicAddrs keyImage))
    (accepted : verify curve sha3 m sig publicAddrs keyImage = .ok true)
    (accepted' : verify curve sha3 m' sig publicAddrs keyImage = .ok true) :
    hexToString m = hexToString m' ∧
    (∃ R R2, roundCommitments curve sha3 m sig publicAddrs keyImage (publicAddrs.length - 1) = .ok (R,R2) ∧
      roundCommitments curve sha3 m' sig publicAddrs keyImage (publicAddrs.length - 1) = .ok (R,R2)) ∧
    ∀ R R2 Q Q2, preimage curve m R R2 = preimage curve m' Q Q2 →
      hexToString m = hexToString m' ∧ R = Q ∧ R2 = Q2 := by
  obtain ⟨positive,R,R2,committed,last⟩ := accepted_last accepted
  obtain ⟨_,Q,Q2,committed',last'⟩ := accepted_last accepted'
  have inside : publicAddrs.length - 1 < publicAddrs.length := Nat.sub_lt positive Nat.one_pos
  have same := collisionFree (.inl ⟨_,inside,R,R2,committed,rfl⟩) (.inr ⟨_,inside,Q,Q2,committed',rfl⟩)
    (last.trans last'.symm)
  obtain ⟨message,rfl,rfl⟩ := preimage_injective fixed fixed' same
  exact ⟨message,⟨R,R2,committed,committed'⟩,fun _ _ _ _ => preimage_injective fixed fixed'⟩

def upperHash : Text := List.replicate 62 '0' ++ "AA".toList
def lowerHash : Text := List.replicate 62 '0' ++ "aa".toList

theorem hashed_pair {R R2 Q Q2 : Point}
    (first : roundCommitments curve sha3 hash sig [one,two] keyImage 0 = .ok (R,R2))
    (second : roundCommitments curve sha3 hash sig [one,two] keyImage 1 = .ok (Q,Q2)) :
    hashed curve sha3 hash sig [one,two] keyImage = {preimage curve hash R R2,preimage curve hash Q Q2} := by
  ext bytes
  constructor
  · rintro ⟨i,inside,S,S2,committed,rfl⟩
    rcases (by simp at inside; omega : i = 0 ∨ i = 1) with rfl | rfl
    · cases first.symm.trans committed
      exact .inl rfl
    · cases second.symm.trans committed
      exact .inr rfl
  · rintro (rfl | rfl)
    · exact ⟨0,Nat.two_pos,R,R2,first,rfl⟩
    · exact ⟨1,Nat.one_lt_two,Q,Q2,second,rfl⟩

-- The same message in upper and in lower case; the two rounds have different challenges.
theorem accepted_binds_case : hexToString upperHash = hexToString lowerHash := by
  have collisionFree : Set.InjOn (fun bytes => Hs (smallSHA3.digest bytes))
      (hashed smallCurve smallSHA3 upperHash ["AE".toList,"00".toList,"02".toList] [smallCurve.point2hex 2,onePoint]
        onePoint ∪
      hashed smallCurve smallSHA3 lowerHash ["AE".toList,"00".toList,"02".toList] [smallCurve.point2hex 2,onePoint]
        onePoint) := by
    have upper := @hashed_pair _ _ smallCurve smallSHA3 upperHash onePoint ["AE".toList,"00".toList,"02".toList]
      _ (smallCurve.point2hex 2) onePoint 0 0 1 1 (by decide +kernel) (by decide +kernel)
    have lower := @hashed_pair _ _ smallCurve smallSHA3 lowerHash onePoint ["AE".toList,"00".toList,"02".toList]
      _ (smallCurve.point2hex 2) onePoint 0 0 1 1 (by decide +kernel) (by decide +kernel)
    have octets : preimage smallCurve lowerHash = preimage smallCurve upperHash := rfl
    rw [upper,lower,octets,Set.union_self,Set.injOn_pair]
    exact fun same => absurd same (by decide +kernel)
  exact (accepted_binds (by decide) (by decide) collisionFree (by decide +kernel) (by decide +kernel)).1

end Keyser.RingBinding
