import Keyser.HashToCurve
import Keyser.RingBinding
import Keyser.Torsion

namespace Keyser.RingForks
open Hex CryptoUtils CryptoRing RingEquation RingBinding

variable {Point : Type} [AddCommGroup Point] [DecidableEq Point] {curve : Curve Point} {sha3 : SHA3}
  {hash keyImage : Text} {sig publicAddrs : List Text}

theorem round_opened (committed : roundCommitments curve sha3 hash sig publicAddrs keyImage i = .ok both) :
    ∃ (s e : Int) (P : Point), roundChallenge curve sha3 hash sig publicAddrs keyImage i = .ok e ∧
      (publicAddrs.map curve.hex2point)[i % publicAddrs.length]? = some (some P) ∧
      both = (s • curve.generator + e • P,
        s • Hp curve sha3 P + e • (curve.hex2point keyImage).getD curve.generator) := by
  obtain ⟨es,ran,opened⟩ := bind_ok committed
  obtain ⟨s,_,opened⟩ := bind_ok opened
  obtain ⟨e,answered,opened⟩ := bind_ok opened
  obtain ⟨pointer,found,opened⟩ := bind_ok opened
  obtain ⟨P,rfl⟩ := commitments_ok opened
  rw [commitments_some,Except.ok.injEq] at opened
  exact ⟨s,e,P,by rw [roundChallenge,ran]; exact answered,getAt_ok found,opened.symm⟩

-- Two runs of verify on one ring and image that come to the same commitments in round i, and
-- answer different challenges there.
structure Fork (curve : Curve Point) (sha3 : SHA3) (publicAddrs : List Text) (keyImage : Text) (i : Nat)
    (m m' : Text) (sig sig' : List Text) : Prop where
  committed : ∃ both, roundCommitments curve sha3 m sig publicAddrs keyImage i = .ok both ∧
    roundCommitments curve sha3 m' sig' publicAddrs keyImage i = .ok both
  differ : ∀ e e', roundChallenge curve sha3 m sig publicAddrs keyImage i = .ok e →
    roundChallenge curve sha3 m' sig' publicAddrs keyImage i = .ok e' → ¬ (curve.order : Int) ∣ e - e'

def Owns (curve : Curve Point) (sha3 : SHA3) (x : Int) (P I : Point) : Prop :=
  P = x • curve.generator ∧ I = x • Hp curve sha3 P

theorem fork_extracts (fork : Fork curve sha3 publicAddrs keyImage i m m' sig sig') :
    ∃ (x : Int) (P : Point), (publicAddrs.map curve.hex2point)[i % publicAddrs.length]? = some (some P) ∧
      Owns curve sha3 x P ((curve.hex2point keyImage).getD curve.generator) := by
  obtain ⟨both,one,two⟩ := fork.committed
  obtain ⟨s,e,P,asked,found,rfl⟩ := round_opened one
  obtain ⟨s',e',P',asked',found',same⟩ := round_opened two
  cases found.symm.trans found'
  obtain ⟨d,inverse⟩ := Torsion.inverse curve.order_prime (fork.differ e e' asked asked')
  obtain ⟨first,second⟩ := Prod.mk.inj same
  exact ⟨d*(s' - s),P,found,Torsion.solve (curve.order_smul _) inverse first,
    Torsion.solve (curve.order_smul _) inverse second⟩

theorem fork_owned (fork : Fork curve sha3 publicAddrs keyImage i m m' sig sig') :
    ∃ (x : Int) (P : Point), (publicAddrs.map curve.hex2point)[i % publicAddrs.length]? = some (some P) ∧
      Owns curve sha3 x P ((curve.hex2point keyImage).getD curve.generator) :=
  fork_extracts fork

-- The key of a point is one modulo the order, and so is its image.
theorem owned_image (usable : curve.generator ≠ 0) (one : Owns curve sha3 x P I) (two : Owns curve sha3 y P J) :
    I = J := by
  obtain ⟨point,image⟩ := one
  obtain ⟨point',image'⟩ := two
  have same : (x - y) • curve.generator = 0 := by
    rw [sub_smul,← point,← point',sub_self]
  rw [image,image']
  exact Torsion.smul_congr (curve.order_smul _) ((HashToCurve.multiple_zero curve usable _).mp same)

theorem forks_linked {others : List Text} {otherImage : Text} (usable : curve.generator ≠ 0)
    (fork : Fork curve sha3 publicAddrs keyImage i m m' sig sig')
    (fork' : Fork curve sha3 others otherImage k n n' tau tau')
    (same : (publicAddrs.map curve.hex2point)[i % publicAddrs.length]? =
      (others.map curve.hex2point)[k % others.length]?)
    (image : curve.hex2point keyImage = some I) (image' : curve.hex2point otherImage = some J) : I = J := by
  obtain ⟨x,P,found,owned⟩ := fork_extracts fork
  obtain ⟨y,Q,found',owned'⟩ := fork_extracts fork'
  rw [found,found'] at same
  cases same
  rw [image] at owned
  rw [image'] at owned'
  exact owned_image usable owned owned'

-- Round 0 of a ring that begins with the point 1, answered for the challenges 0 and 1.
theorem fork_first {curve : Curve (ZMod 3)} (three : curve.order = 3)
    (commits : ∀ sig ∈ [["00".toList,"01".toList],["01".toList,"00".toList]],
      roundCommitments curve smallSHA3 zeroHash sig publicAddrs keyImage 0 = .ok ((1,1) : ZMod 3 × ZMod 3))
    (asks : ∀ sig ∈ [["00".toList,"01".toList],["01".toList,"00".toList]],
      roundChallenge curve smallSHA3 zeroHash sig publicAddrs keyImage 0 = .ok (scalar sig 0)) :
    Fork curve smallSHA3 publicAddrs keyImage 0 zeroHash zeroHash
      ["00".toList,"01".toList] ["01".toList,"00".toList] := by
  refine ⟨⟨(1,1),commits _ (by simp),commits _ (by simp)⟩,fun e e' asked asked' => ?_⟩
  cases (asks _ (by simp)).symm.trans asked
  cases (asks _ (by simp)).symm.trans asked'
  rw [three]
  decide +kernel

theorem fork_single : Fork smallCurve smallSHA3 [onePoint] onePoint 0 zeroHash zeroHash
    ["00".toList,"01".toList] ["01".toList,"00".toList] :=
  fork_first rfl (by decide +kernel) (by decide +kernel)

theorem fork_owned_single : ∃ (x : Int) (P : ZMod 3), ([onePoint].map smallCurve.hex2point)[0 % [onePoint].length]? =
    some (some P) ∧ Owns smallCurve smallSHA3 x P ((smallCurve.hex2point onePoint).getD smallCurve.generator) :=
  fork_owned fork_single

-- The point 1 has an uncompressed text as well.
def uncompressedOne : Text := "04".toList ++ List.replicate 128 '0'

def wideCurve : Curve (ZMod 3) :=
  {smallCurve with
    hex2point := fun text => if text = uncompressedOne then some 1 else smallCurve.hex2point text
    hex2point_point2hex := by decide +kernel}

theorem fork_compressed : Fork wideCurve smallSHA3 [onePoint] onePoint 0 zeroHash zeroHash
    ["00".toList,"01".toList] ["01".toList,"00".toList] :=
  fork_first rfl (by decide +kernel) (by decide +kernel)

theorem fork_pair : Fork wideCurve smallSHA3 [onePoint,wideCurve.point2hex 2] uncompressedOne 0 zeroHash zeroHash
    ["00".toList,"01".toList] ["01".toList,"00".toList] :=
  fork_first rfl (by decide +kernel) (by decide +kernel)

-- In a larger ring, under the other text of the image.
theorem forks_linked_pair : ∃ I J, wideCurve.hex2point onePoint = some I ∧
    wideCurve.hex2point uncompressedOne = some J ∧ I = J :=
  ⟨1,1,by decide +kernel,by decide +kernel,
    forks_linked (by decide) fork_compressed fork_pair rfl (by decide +kernel) (by decide +kernel)⟩

end Keyser.RingForks
