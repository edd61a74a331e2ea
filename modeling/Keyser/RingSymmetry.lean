import Keyser.RingCompleteness
import Keyser.Torsion
import Mathlib.Data.List.Rotate

namespace Keyser.RingSymmetry
open Hex CryptoUtils Walk CryptoRing RingEquation RingCompleteness

variable {Point : Type} [AddCommGroup Point] [DecidableEq Point] {curve : Curve Point} {sha3 : SHA3}
  {hash keyImage : Text} {sig publicAddrs : List Text}

-- Two vectors of scalars that differ by multiples of the order.
def Congruent (order : Nat) (s s' : List Int) : Prop := List.Forall₂ (fun a b => (order : Int) ∣ a - b) s s'

theorem calcE_congr (same : (curve.order : Int) ∣ s - s') (hash : Text) (e : Int) (P I : Option Point) :
    calcE curve sha3 hash s e P I = calcE curve sha3 hash s' e P I := by
  have multiples (Q : Point) : s • Q = s' • Q := Torsion.smul_congr (curve.order_smul Q) same
  simp only [calcE,commitments,ecMul,multiples]

theorem getAt_congr {s s' : List Int} (congruent : Congruent order s s') (i : Nat) :
    (getAt s i = .error .outOfRange ∧ getAt s' i = .error .outOfRange) ∨
      ∃ a b, getAt s i = .ok a ∧ getAt s' i = .ok b ∧ (order : Int) ∣ a - b := by
  induction congruent generalizing i with
  | nil => exact .inl ⟨rfl,rfl⟩
  | cons here _ ih =>
      cases i with
      | zero => exact .inr ⟨_,_,rfl,rfl,here⟩
      | succ i => exact ih i

theorem ringLoop_congr {s s' : List Int} (congruent : Congruent curve.order s s') (hash : Text)
    (P : List (Option Point)) (I : Option Point) (N count i : Nat) (e : List Int) :
    ringLoop curve sha3 hash s P I N count i e = ringLoop curve sha3 hash s' P I N count i e := by
  induction count generalizing i e with
  | zero => rfl
  | succ count ih =>
      simp only [ringLoop]
      rcases getAt_congr congruent (i % N) with ⟨none,none'⟩ | ⟨a,b,found,found',same⟩
      · rw [none,none']
        rfl
      · simp only [found,found',ok_bind,calcE_congr same,ih]

-- What verify answers, faults included, hangs on the value of e_0 and on the s_i modulo the order.
theorem verify_congr {e0 e0' : Text} {s s' : List Text} (start : hex2bn e0 = hex2bn e0')
    (congruent : Congruent curve.order (s.map hex2bn) (s'.map hex2bn)) (hash : Text) (publicAddrs : List Text)
    (keyImage : Text) : verify curve sha3 hash (e0 :: s) publicAddrs keyImage =
      verify curve sha3 hash (e0' :: s') publicAddrs keyImage := by
  have length : s.length = s'.length := by simpa using congruent.length_eq
  have rounds : verifyRounds curve sha3 hash (e0 :: s) publicAddrs keyImage publicAddrs.length =
      verifyRounds curve sha3 hash (e0' :: s') publicAddrs keyImage publicAddrs.length := by
    simp only [verifyRounds,List.tail_cons,ringLoop_congr congruent]
    simp [getAt,start]
  simp only [verify,List.length_cons,length,rounds]
  simp [getAt,start]

-- A response of 0 and one of 3, where the order is 3.
theorem verify_congr_three : verify smallCurve smallSHA3 zeroHash ["04".toList,"00".toList] [onePoint] onePoint =
    verify smallCurve smallSHA3 zeroHash ["4".toList,"3".toList] [onePoint] onePoint := by
  have congruent : Congruent smallCurve.order (["00".toList].map hex2bn) (["3".toList].map hex2bn) :=
    .cons (by decide) .nil
  exact verify_congr (by decide) congruent zeroHash [onePoint] onePoint

theorem walk_offset (f : Nat → α → α) (k count : Nat) (a : α) :
    walk (fun i => f (i + k)) 0 count a = walk f k count a := by
  induction count with
  | zero => rfl
  | succ count ih => rw [walk_snoc,walk_snoc,ih,Nat.zero_add,Nat.add_comm]

-- The ring as it stands at member k, with the signature that stands there.
theorem recursion_rotated {P : Nat → Point} (size : sig.length = N + 1) (I : Point) (k : Nat) (e : Text)
    (inside : t < N) (a : Int) :
    recursion curve sha3 hash (e :: sig.tail.rotate k) (fun i => P ((i + k) % N)) I t a =
      around curve sha3 hash (sig.tail.map hex2bn) P I N (t + k) a := by
  obtain ⟨e0,s,rfl⟩ := List.exists_cons_of_length_eq_add_one size
  obtain rfl : s.length = N := by simpa using size
  have there : (t + k) % s.length < s.length := Nat.mod_lt _ (by omega)
  have read : scalar (e :: s.rotate k) (t + 1) = (s.map hex2bn).getD ((t + k) % s.length) 0 := by
    simp [scalar,List.getD_eq_getElem?_getD,List.getElem?_rotate inside,there]
  simp only [List.tail_cons,recursion,around,read]

theorem recursion_tail {P : Nat → Point} (size : sig.length = N + 1) (I : Point) (inside : t < N) (a : Int) :
    recursion curve sha3 hash sig P I t a = around curve sha3 hash (sig.tail.map hex2bn) P I N t a := by
  obtain ⟨e0,s,rfl⟩ := List.exists_cons_of_length_eq_add_one size
  obtain rfl : s.length = N := by simpa using size
  have read : scalar (e0 :: s) (t + 1) = (s.map hex2bn).getD t 0 := by
    simp [scalar,List.getD_eq_getElem?_getD,inside]
  simp only [List.tail_cons,recursion,around,read,Nat.mod_eq_of_lt inside]

-- Around the ring of an accepted signature the challenges come back to where they began.
theorem accepted_closes (accepted : verify curve sha3 hash sig publicAddrs keyImage = .ok true) :
    sig.length = publicAddrs.length + 1 ∧ 0 < publicAddrs.length ∧
      ∃ P, Decodes curve publicAddrs P publicAddrs.length ∧
        walk (around curve sha3 hash (sig.tail.map hex2bn) P ((curve.hex2point keyImage).getD curve.generator)
          publicAddrs.length) 0 publicAddrs.length (scalar sig 0) = scalar sig 0 := by
  have size : sig.length = publicAddrs.length + 1 := by
    by_contra other
    simp [verify,other] at accepted
  obtain ⟨positive,P,decodes⟩ := verify_returned size accepted
  rw [verify_decoded _ _ _ size positive decodes,Except.ok.injEq,decide_eq_true_iff,Closes] at accepted
  refine ⟨size,positive,P,decodes,(walk_congr (fun t early a => ?_) _).trans accepted⟩
  rw [Nat.zero_add,recursion_tail size _ early]

theorem rotated_inside (accepted : verify curve sha3 hash sig publicAddrs keyImage = .ok true)
    (inside : k < publicAddrs.length) : ∃ e, roundChallenge curve sha3 hash sig publicAddrs keyImage k = .ok e ∧
      verify curve sha3 hash (bn2hex e :: sig.tail.rotate k) (publicAddrs.rotate k) keyImage = .ok true := by
  obtain ⟨size,positive,P,decodes,closes⟩ := accepted_closes accepted
  have asked := roundChallenge_walk sha3 hash keyImage size inside decodes
  have same (I : Point) : walk (recursion curve sha3 hash sig P I) 0 k (scalar sig 0) =
      walk (around curve sha3 hash (sig.tail.map hex2bn) P I publicAddrs.length) 0 k (scalar sig 0) := by
    refine walk_congr (fun t early a => ?_) _
    rw [Nat.zero_add,recursion_tail size _ (Nat.lt_trans early inside)]
  rw [same] at asked
  generalize isI : (curve.hex2point keyImage).getD curve.generator = I at closes asked
  generalize isStep : around curve sha3 hash (sig.tail.map hex2bn) P I publicAddrs.length = step at closes asked
  have periodic (i : Nat) : step (i + publicAddrs.length) = step i := by
    rw [← isStep,around_periodic]
  have turned := walk_closed periodic closes k
  rw [Nat.zero_add] at turned
  have decodesTurned : Decodes curve (publicAddrs.rotate k) (fun i => P ((i + k) % publicAddrs.length))
      (publicAddrs.rotate k).length := by
    intro i within
    rw [List.length_rotate] at within
    have here := decodes ((i + k) % publicAddrs.length) (Nat.mod_lt _ positive)
    rw [List.getElem?_map] at here
    rw [List.getElem?_map,List.getElem?_rotate within]
    exact here
  refine ⟨walk step 0 k (scalar sig 0),asked,?_⟩
  have sized : (bn2hex (walk step 0 k (scalar sig 0)) :: sig.tail.rotate k).length =
      (publicAddrs.rotate k).length + 1 := by simp [size]
  rw [verify_decoded _ _ _ sized (by rw [List.length_rotate]; exact positive) decodesTurned,isI]
  refine congrArg Except.ok (decide_eq_true ?_)
  have first : scalar (bn2hex (walk step 0 k (scalar sig 0)) :: sig.tail.rotate k) 0 =
      walk step 0 k (scalar sig 0) := by
    simp [scalar,hex2bn_bn2hex]
  rw [Closes,first,List.length_rotate]
  refine ((walk_congr (fun t early a => ?_) _).trans (walk_offset step k _ _)).trans turned
  rw [Nat.zero_add,recursion_rotated size I k _ early,isStep]

theorem rotated (accepted : verify curve sha3 hash sig publicAddrs keyImage = .ok true) (k : Nat) :
    ∃ e, roundChallenge curve sha3 hash sig publicAddrs keyImage (k % publicAddrs.length) = .ok e ∧
      verify curve sha3 hash (bn2hex e :: sig.tail.rotate k) (publicAddrs.rotate k) keyImage = .ok true := by
  obtain ⟨size,positive,_⟩ := accepted_closes accepted
  have count : sig.tail.length = publicAddrs.length := by rw [List.length_tail,size,Nat.add_sub_cancel]
  obtain ⟨e,asked,verified⟩ := rotated_inside accepted (Nat.mod_lt k positive)
  rw [List.rotate_mod,← count,List.rotate_mod] at verified
  exact ⟨e,asked,verified⟩

theorem rotated_pair : ∃ e, roundChallenge smallCurve smallSHA3 zeroHash ["04".toList,"01".toList,"01".toList]
    [smallCurve.point2hex 2,onePoint] onePoint 1 = .ok e ∧ verify smallCurve smallSHA3 zeroHash
      (bn2hex e :: ["01".toList,"01".toList]) [onePoint,smallCurve.point2hex 2] onePoint = .ok true :=
  @rotated _ _ _ smallCurve smallSHA3 zeroHash onePoint ["04".toList,"01".toList,"01".toList]
    [smallCurve.point2hex 2,onePoint] (by decide +kernel) 1

end Keyser.RingSymmetry
