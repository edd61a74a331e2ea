import Keyser.CryptoRing

namespace Keyser.RingEquation
open Hex CryptoUtils Walk CryptoRing

variable {Point : Type} [AddCommGroup Point] {curve : Curve Point} {sha3 : SHA3}
  {hash keyImage : Text} {sig publicAddrs : List Text} {P : Nat → Point} {rounds : Nat}

-- The scalars of a signature as BN_hex2bn reads them: e_0, and then s_i at i + 1.
def scalar (sig : List Text) (i : Nat) : Int := hex2bn (sig.getD i [])

def Decodes (curve : Curve Point) (publicAddrs : List Text) (P : Nat → Point) (count : Nat) : Prop :=
  ∀ i < count, (publicAddrs.map curve.hex2point)[i]? = some (some (P i))

theorem decodes_of (decoded : ∀ publicAddr ∈ publicAddrs, (curve.hex2point publicAddr).isSome = true) :
    ∃ P, Decodes curve publicAddrs P publicAddrs.length := by
  have each : ∀ i < publicAddrs.length, ∃ P, (publicAddrs.map curve.hex2point)[i]? = some (some P) := by
    intro i inside
    obtain ⟨P,isP⟩ := Option.isSome_iff_exists.mp (decoded publicAddrs[i] (List.getElem_mem inside))
    exact ⟨P,by simp [inside,isP]⟩
  choose! P decodes using each
  exact ⟨P,decodes⟩

theorem decoded_of (decodes : Decodes curve publicAddrs P publicAddrs.length) :
    ∀ publicAddr ∈ publicAddrs, (curve.hex2point publicAddr).isSome = true := by
  intro publicAddr member
  obtain ⟨i,inside,rfl⟩ := List.mem_iff_getElem.mp member
  have here := decodes i inside
  rw [List.getElem?_map,List.getElem?_eq_getElem inside,Option.map_some,Option.some.injEq] at here
  rw [here]
  rfl

theorem scalar_found (size : sig.length = publicAddrs.length + 1) (inside : i < publicAddrs.length) :
    (sig.tail.map hex2bn)[i]? = some (scalar sig (i + 1)) := by
  obtain ⟨e0,s,rfl⟩ := List.exists_cons_of_length_eq_add_one size
  have there : i < s.length := by simp only [List.length_cons] at size; omega
  simp [scalar,there]

variable [DecidableEq Point]

-- The recursion e_{i+1} = H(hash, s_i G + e_i P_i, s_i Hp(P_i) + e_i I).
def recursion (curve : Curve Point) (sha3 : SHA3) (hash : Text) (sig : List Text) (P : Nat → Point) (I : Point)
    (i : Nat) (e : Int) : Int :=
  response curve sha3 hash (scalar sig (i + 1)) e (P i) I

theorem verifyRounds_start (size : sig.length = publicAddrs.length + 1) (positive : 0 < publicAddrs.length) :
    verifyRounds curve sha3 hash sig publicAddrs keyImage rounds =
      ringLoop curve sha3 hash (sig.tail.map hex2bn) (publicAddrs.map curve.hex2point) (curve.hex2point keyImage)
        publicAddrs.length rounds 0 ((List.replicate publicAddrs.length 0).set 0 (scalar sig 0)) := by
  obtain ⟨e0,s,rfl⟩ := List.exists_cons_of_length_eq_add_one size
  simp [verifyRounds,getAt,setAt,positive,scalar]

-- A key image that does not decode stands for the generator.
theorem verifyRounds_walk (sha3 : SHA3) (hash keyImage : Text) (size : sig.length = publicAddrs.length + 1)
    (positive : 0 < publicAddrs.length) (early : rounds ≤ publicAddrs.length)
    (decodes : Decodes curve publicAddrs P rounds) :
    ∃ e, verifyRounds curve sha3 hash sig publicAddrs keyImage rounds = .ok e ∧
      e[rounds % publicAddrs.length]? = some (walk (recursion curve sha3 hash sig P
        ((curve.hex2point keyImage).getD curve.generator)) 0 rounds (scalar sig 0)) := by
  have answers : ∀ t < rounds, Answers curve sha3 hash (sig.tail.map hex2bn) (publicAddrs.map curve.hex2point)
      (curve.hex2point keyImage) publicAddrs.length
      (recursion curve sha3 hash sig P ((curve.hex2point keyImage).getD curve.generator)) (0 + t) := by
    intro t before
    rw [Nat.zero_add]
    have inside : t % publicAddrs.length = t := Nat.mod_eq_of_lt (by omega)
    refine ⟨scalar sig (t + 1),P t,?_,?_,fun _ => rfl⟩ <;> rw [inside]
    · exact scalar_found size (by omega)
    · exact decodes t before
  have first : ((List.replicate publicAddrs.length 0).set 0 (scalar sig 0))[0 % publicAddrs.length]? =
      some (scalar sig 0) := by
    rw [Nat.zero_mod]
    exact List.getElem?_set_self (by rw [List.length_replicate]; exact positive)
  obtain ⟨e,ran,_,last,_⟩ := ringLoop_walk rounds answers positive (by simp) first
  exact ⟨e,(verifyRounds_start size positive).trans ran,by simpa using last⟩

-- The challenge that round i answers.
def roundChallenge (curve : Curve Point) (sha3 : SHA3) (hash : Text) (sig publicAddrs : List Text)
    (keyImage : Text) (i : Nat) : Except Fault Int := do
  let e ← verifyRounds curve sha3 hash sig publicAddrs keyImage i
  getAt e (i % publicAddrs.length)

theorem roundChallenge_walk (sha3 : SHA3) (hash keyImage : Text) (size : sig.length = publicAddrs.length + 1)
    (inside : i < publicAddrs.length) (decodes : Decodes curve publicAddrs P publicAddrs.length) :
    roundChallenge curve sha3 hash sig publicAddrs keyImage i = .ok (walk (recursion curve sha3 hash sig P
      ((curve.hex2point keyImage).getD curve.generator)) 0 i (scalar sig 0)) := by
  obtain ⟨e,ran,last⟩ := verifyRounds_walk sha3 hash keyImage size (by omega : 0 < publicAddrs.length)
    (Nat.le_of_lt inside) fun t early => decodes t (by omega)
  rw [roundChallenge,ran]
  exact getAt_of last

def Closes (curve : Curve Point) (sha3 : SHA3) (hash : Text) (sig : List Text) (count : Nat) (P : Nat → Point)
    (I : Point) : Prop :=
  walk (recursion curve sha3 hash sig P I) 0 count (scalar sig 0) = scalar sig 0

instance (sig : List Text) (count : Nat) (P : Nat → Point) (I : Point) :
    Decidable (Closes curve sha3 hash sig count P I) :=
  inferInstanceAs (Decidable (_ = _))

theorem verify_decoded (sha3 : SHA3) (hash keyImage : Text) (size : sig.length = publicAddrs.length + 1)
    (positive : 0 < publicAddrs.length) (decodes : Decodes curve publicAddrs P publicAddrs.length) :
    verify curve sha3 hash sig publicAddrs keyImage = .ok (decide (Closes curve sha3 hash sig publicAddrs.length P
      ((curve.hex2point keyImage).getD curve.generator))) := by
  obtain ⟨e,ran,last⟩ := verifyRounds_walk sha3 hash keyImage size positive
    (Nat.le_refl _) decodes
  rw [Nat.mod_self] at last
  have first : getAt sig 0 = .ok (sig.getD 0 []) := by
    obtain ⟨e0,s,rfl⟩ := List.exists_cons_of_length_eq_add_one size
    rfl
  simp only [verify,size,ne_eq,not_true_eq_false,if_false,first,ran,getAt_of last,ok_bind]
  refine congrArg Except.ok ?_
  rw [Bool.eq_iff_iff,beq_iff_eq,decide_eq_true_iff,bn2hex_injective.eq_iff]
  exact eq_comm

theorem verify_returned (size : sig.length = publicAddrs.length + 1)
    (returned : verify curve sha3 hash sig publicAddrs keyImage = .ok accepted) :
    0 < publicAddrs.length ∧ ∃ P, Decodes curve publicAddrs P publicAddrs.length := by
  simp only [verify,size,ne_eq,not_true_eq_false,if_false] at returned
  obtain ⟨_,_,returned⟩ := bind_ok returned
  obtain ⟨e,ran,_⟩ := bind_ok returned
  have positive : 0 < publicAddrs.length := by
    by_contra empty
    have none : publicAddrs.length = 0 := by omega
    obtain ⟨e0,s,rfl⟩ := List.exists_cons_of_length_eq_add_one size
    simp [verifyRounds,getAt,setAt,none] at ran
  rw [verifyRounds_start size positive] at ran
  have points := ringLoop_points ran
  choose! P found using points
  refine ⟨positive,P,fun i inside => ?_⟩
  have here := found i inside
  rwa [Nat.zero_add,Nat.mod_eq_of_lt inside] at here

structure Accepts (curve : Curve Point) (sha3 : SHA3) (hash : Text) (sig publicAddrs : List Text)
    (keyImage : Text) : Prop where
  size : sig.length = publicAddrs.length + 1
  ring : publicAddrs ≠ []
  equation : ∃ P I, Decodes curve publicAddrs P publicAddrs.length ∧ curve.hex2point keyImage = some I ∧
    Closes curve sha3 hash sig publicAddrs.length P I

-- No round that is reached has a null pointer for ec_mul to take as the generator.
def GivenPoints (curve : Curve Point) (sha3 : SHA3) (hash : Text) (sig publicAddrs : List Text)
    (keyImage : Text) : Prop :=
  sig.length = publicAddrs.length + 1 → ∀ i < publicAddrs.length, ∀ e,
    verifyRounds curve sha3 hash sig publicAddrs keyImage i = .ok e →
    (∃ P, (publicAddrs.map curve.hex2point)[i]? = some (some P)) ∧ ∃ I, curve.hex2point keyImage = some I

structure VerifiesExactly (curve : Curve Point) (sha3 : SHA3) (hash : Text) (sig publicAddrs : List Text)
    (keyImage : Text) : Prop where
  returns : ∃ accepted, verify curve sha3 hash sig publicAddrs keyImage = .ok accepted
  exact : verify curve sha3 hash sig publicAddrs keyImage = .ok true ↔
    Accepts curve sha3 hash sig publicAddrs keyImage
  points : GivenPoints curve sha3 hash sig publicAddrs keyImage

def WellFormed (curve : Curve Point) (sig publicAddrs : List Text) (keyImage : Text) : Prop :=
  sig.length = publicAddrs.length + 1 → publicAddrs ≠ [] ∧
    (∀ publicAddr ∈ publicAddrs, (curve.hex2point publicAddr).isSome = true) ∧
    (curve.hex2point keyImage).isSome = true

theorem decodes_unique {Q : Nat → Point} (one : Decodes curve publicAddrs P publicAddrs.length)
    (two : Decodes curve publicAddrs Q publicAddrs.length) (I : Point) :
    Closes curve sha3 hash sig publicAddrs.length P I ↔ Closes curve sha3 hash sig publicAddrs.length Q I := by
  unfold Closes
  rw [walk_congr fun t early a => ?_]
  have same := (one t early).symm.trans (two t early)
  simp only [Option.some.injEq] at same
  rw [Nat.zero_add,recursion,recursion,same]

theorem verifies_wellFormed (wellFormed : WellFormed curve sig publicAddrs keyImage) :
    VerifiesExactly curve sha3 hash sig publicAddrs keyImage := by
  by_cases size : sig.length = publicAddrs.length + 1
  · obtain ⟨ring,decoded,image⟩ := wellFormed size
    obtain ⟨P,decodes⟩ := decodes_of decoded
    obtain ⟨I,isI⟩ := Option.isSome_iff_exists.mp image
    have verified := verify_decoded sha3 hash keyImage size
      (List.length_pos_iff.mpr ring) decodes
    rw [isI,Option.getD_some] at verified
    refine ⟨⟨_,verified⟩,?_,fun _ i inside _ _ => ⟨⟨P i,decodes i inside⟩,I,isI⟩⟩
    rw [verified,Except.ok.injEq,decide_eq_true_iff]
    constructor
    · exact fun closes => ⟨size,ring,P,I,decodes,isI,closes⟩
    · rintro ⟨_,_,Q,J,decodesQ,isJ,closes⟩
      obtain rfl : I = J := Option.some.inj (isI.symm.trans isJ)
      exact (decodes_unique decodesQ decodes I).mp closes
  · have rejected : verify curve sha3 hash sig publicAddrs keyImage = .ok false := by simp [verify,size]
    refine ⟨⟨_,rejected⟩,?_,fun same => absurd same size⟩
    rw [rejected]
    exact ⟨nofun,fun accepts => absurd accepts.size size⟩

theorem verifiesExactly_iff (curve : Curve Point) (sha3 : SHA3) (hash : Text) (sig publicAddrs : List Text)
    (keyImage : Text) : VerifiesExactly curve sha3 hash sig publicAddrs keyImage ↔
      WellFormed curve sig publicAddrs keyImage := by
  constructor
  · intro verifies size
    obtain ⟨accepted,returned⟩ := verifies.returns
    obtain ⟨positive,P,decodes⟩ := verify_returned size returned
    obtain ⟨_,I,isI⟩ := verifies.points size 0 positive _ (verifyRounds_start size positive)
    exact ⟨List.length_pos_iff.mp positive,decoded_of decodes,by rw [isI]; rfl⟩
  · exact verifies_wellFormed

def onePoint : Text := smallCurve.point2hex 1
def zeroHash : Text := List.replicate 64 '0'

-- verify takes the key image that is no point for the generator, and accepts.
theorem verifiesExactly_fails :
    ¬ VerifiesExactly smallCurve smallSHA3 zeroHash ["04".toList,"0".toList] [onePoint] "no point".toList := by
  intro verifies
  have accepted : verify smallCurve smallSHA3 zeroHash ["04".toList,"0".toList] [onePoint] "no point".toList =
      .ok true := by decide +kernel
  obtain ⟨_,_,_,_,_,decoded,_⟩ := verifies.exact.mp accepted
  cases decoded

end Keyser.RingEquation
