import Keyser.RingEquation
import Mathlib.Algebra.Module.NatInt

namespace Keyser.RingCompleteness
open Hex CryptoUtils Walk CryptoRing RingEquation

variable {Point : Type} [AddCommGroup Point] {curve : Curve Point} {sha3 : SHA3} {hash : Text} {outputs : List Text}

theorem emod_smul (curve : Curve Point) (n : Int) (P : Point) : (n % curve.order) • P = n • P := by
  have whole : ((curve.order : Int) * (n / curve.order)) • P = 0 := by
    rw [mul_comm,mul_smul,natCast_zsmul,curve.order_smul,smul_zero]
  rw [Int.emod_def,sub_smul,whole,sub_zero]

variable [DecidableEq Point]

-- With the last scalar solved for, step j is the challenge of alpha alone.
theorem response_solved (alpha e x : Int) (hash : Text) (P : Point) (own : P = x • curve.generator) :
    response curve sha3 hash ((alpha - e * x % curve.order) % curve.order) e P (x • Hp curve sha3 P) =
      challenge curve sha3 hash (alpha • curve.generator) (alpha • Hp curve sha3 P) := by
  have cancels : ∀ Q : Point, ((alpha - e * x % curve.order) % curve.order) • Q + e • x • Q = alpha • Q := by
    intro Q
    rw [emod_smul,sub_smul,emod_smul,mul_smul,sub_add_cancel]
  rw [response,cancels]
  subst own
  rw [cancels]

def around (curve : Curve Point) (sha3 : SHA3) (hash : Text) (s : List Int) (P : Nat → Point) (I : Point) (N : Nat)
    (i : Nat) (e : Int) : Int :=
  response curve sha3 hash (s.getD (i % N) 0) e (P (i % N)) I

theorem around_periodic (hash : Text) (s : List Int) (P : Nat → Point) (I : Point) (N i : Nat) :
    around curve sha3 hash s P I N (i + N) = around curve sha3 hash s P I N i := by
  funext e
  simp only [around,Nat.add_mod_right]

theorem around_answers {s : List Int} {P : Nat → Point} (decodes : Decodes curve outputs P outputs.length)
    (positive : 0 < outputs.length) (size : s.length = outputs.length) (I : Option Point) (i : Nat) :
    Answers curve sha3 hash s (outputs.map curve.hex2point) I outputs.length
      (around curve sha3 hash s P (I.getD curve.generator) outputs.length) i := by
  have inside := Nat.mod_lt i positive
  refine ⟨s.getD (i % outputs.length) 0,P (i % outputs.length),?_,decodes _ inside,fun _ => rfl⟩
  rw [List.getD_eq_getElem?_getD,List.getElem?_eq_getElem (by omega)]
  rfl

-- The chain of challenges started at j + 1, seen at 0 and at j.
theorem ringLoop_round {s : List Int} {P : List (Option Point)} {I : Option Point} (inside : j < N) (first : Int)
    (answers : ∀ i, Answers curve sha3 hash s P I N step i) :
    ∃ e, ringLoop curve sha3 hash s P I N (N - 1) (j + 1) ((List.replicate N 0).set ((j + 1) % N) first) = .ok e ∧
      e[0]? = some (walk step (j + 1) (N - 1 - j) first) ∧ e[j]? = some (walk step (j + 1) (N - 1) first) := by
  have positive : 0 < N := Nat.zero_lt_of_lt inside
  have round : j + 1 + (N - 1 - j) = N := by omega
  have both : N - 1 = N - 1 - j + j := by omega
  -- from j + 1 round to 0, and then on to j
  have entry : (j + 1) % N < (List.replicate N (0 : Int)).length := mod_inside (List.length_replicate ..) positive _
  obtain ⟨e1,ran1,size1,here1,_⟩ := ringLoop_walk (N - 1 - j) (fun t _ => answers (j + 1 + t)) positive
    (a := first) (by rw [List.length_set,List.length_replicate]) (List.getElem?_set_self entry)
  rw [round] at here1
  obtain ⟨e2,ran2,_,here2,kept⟩ := ringLoop_walk j (fun t _ => answers (N + t)) positive size1 here1
  have start := kept 0 fun t early => by
    rw [Nat.add_assoc,Nat.add_mod_left,Nat.mod_eq_of_lt (by omega)]
    omega
  refine ⟨e2,?_,?_,?_⟩
  · rw [both,ringLoop_append,ran1,ok_bind,round]
    exact ran2
  · rw [start,← here1,Nat.mod_self]
  · rw [Nat.add_mod_left,Nat.mod_eq_of_lt inside] at here2
    rw [both,walk_add,round]
    exact here2

theorem sign_member (alpha : Int) (drawn : Nat → Int) (hash stealthKey : Text) {realOutput keyImage : Text}
    {P : Nat → Point} {HpPj I : Point} (decodes : Decodes curve outputs P outputs.length)
    (found : outputs.idxOf realOutput = j) (inside : j < outputs.length)
    (hashed : ssvgHashToCurve curve (sha3.digest (hexToString realOutput)) = .ok HpPj)
    (image : curve.hex2point keyImage = some I)
    (isStep : step = around curve sha3 hash (drawnScalars outputs.length j drawn) P I outputs.length)
    (isFirst : first = challenge curve sha3 hash (alpha • curve.generator) (alpha • HpPj)) :
    ∃ e0 ej, e0 = walk step (j + 1) (outputs.length - 1 - j) first ∧ ej = walk step (j + 1) (outputs.length - 1) first ∧
      sign curve sha3 alpha drawn hash outputs realOutput stealthKey keyImage = .ok (bn2hex e0 ::
        ((drawnScalars outputs.length j drawn).set j
          ((alpha - ej * hex2bn stealthKey % curve.order) % curve.order)).map bn2hex) := by
  have positive : 0 < outputs.length := by omega
  have sizeS := drawnScalars_length outputs.length j drawn
  have answers : ∀ i, Answers curve sha3 hash (drawnScalars outputs.length j drawn) (outputs.map curve.hex2point)
      (some I) outputs.length step i := isStep ▸ around_answers decodes positive sizeS (some I)
  obtain ⟨e,ran,start,here⟩ := ringLoop_round inside first answers
  have entry : (j + 1) % outputs.length < (List.replicate outputs.length (0 : Int)).length :=
    mod_inside (List.length_replicate ..) positive _
  have last : j < (drawnScalars outputs.length j drawn).length := by omega
  refine ⟨_,_,rfl,rfl,?_⟩
  simp only [sign,found,hashed,ok_bind,positive.ne',if_false,image,ecMul,Option.getD_none,Option.getD_some,← isFirst]
  simp only [setAt,entry,if_true,ok_bind,ran,getAt_of here,last,getAt_of start]
  rfl

theorem around_set {s : List Int} {P : Nat → Point} {I : Point} (other : i % N ≠ j) (last e : Int) :
    around curve sha3 hash (s.set j last) P I N i e = around curve sha3 hash s P I N i e := by
  simp only [around,List.getD_eq_getElem?_getD,List.getElem?_set_ne (Ne.symm other)]

theorem around_closes {s : List Int} {P : Nat → Point} {x alpha : Int} (inside : j < N) (size : s.length = N)
    (own : P j = x • curve.generator)
    (isFirst : first = challenge curve sha3 hash (alpha • curve.generator) (alpha • Hp curve sha3 (P j)))
    (isLast : ej = walk (around curve sha3 hash s P (x • Hp curve sha3 (P j)) N) (j + 1) (N - 1) first) :
    walk (around curve sha3 hash (s.set j ((alpha - ej * x % curve.order) % curve.order)) P
      (x • Hp curve sha3 (P j)) N) (j + 1) N first = first := by
  obtain ⟨count,rfl⟩ : ∃ count, N = count + 1 := ⟨N - 1,by omega⟩
  rw [Nat.add_sub_cancel] at isLast
  -- the rounds up to j are not at j, where alone the two vectors differ
  have away : ∀ t < count, (j + 1 + t) % (count + 1) ≠ j := by
    intro t early same
    by_cases short : j + 1 + t < count + 1
    · rw [Nat.mod_eq_of_lt short] at same
      omega
    · rw [Nat.mod_eq_sub_mod (by omega),Nat.mod_eq_of_lt (by omega)] at same
      omega
  rw [walk_snoc,walk_congr fun t early a => around_set (away t early) _ a,← isLast,
    show j + 1 + count = j + (count + 1) by omega,around_periodic,around,Nat.mod_eq_of_lt inside,
    List.getD_eq_getElem?_getD,List.getElem?_set_self (size ▸ inside),Option.getD_some,
    response_solved alpha ej x hash (P j) own,isFirst]

theorem recursion_around {s : List Int} {P : Nat → Point} {I : Point} (size : s.length = N) (e0 a : Int) :
    walk (recursion curve sha3 hash (bn2hex e0 :: s.map bn2hex) P I) 0 N a =
      walk (around curve sha3 hash s P I N) 0 N a := by
  refine walk_congr (fun t early e => ?_) a
  rw [Nat.zero_add,recursion,around,Nat.mod_eq_of_lt early]
  have read : scalar (bn2hex e0 :: s.map bn2hex) (t + 1) = s.getD t 0 := by
    simp [scalar,List.getD_eq_getElem?_getD,size ▸ early,hex2bn_bn2hex]
  rw [read]

theorem sign_verifies {alpha x : Int} {drawn : Nat → Int} {realOutput stealthKey keyImage : Text}
    (member : realOutput ∈ outputs) (points : ∀ output ∈ outputs, ∃ P, output = curve.point2hex P)
    (owned : realOutput = curve.point2hex (x • curve.generator)) (key : hex2bn stealthKey = x)
    (image : keyImage = curve.point2hex (x • Hp curve sha3 (x • curve.generator))) :
    ∃ sig, sign curve sha3 alpha drawn hash outputs realOutput stealthKey keyImage = .ok sig ∧
      verify curve sha3 hash sig outputs keyImage = .ok true := by
  have inside := List.idxOf_lt_length_iff.mpr member
  have positive : 0 < outputs.length := by omega
  have found : outputs[outputs.idxOf realOutput]? = some realOutput := by
    rw [List.getElem?_eq_getElem inside,List.getElem_idxOf]
  have decoded : ∀ output ∈ outputs, (curve.hex2point output).isSome = true := by
    intro output listed
    obtain ⟨P,rfl⟩ := points output listed
    exact Option.isSome_iff_exists.mpr ⟨P,curve.hex2point_point2hex P⟩
  obtain ⟨P,decodes⟩ := decodes_of decoded
  generalize isJ : outputs.idxOf realOutput = j at inside found
  have own : P j = x • curve.generator := by
    have here := decodes j inside
    rw [List.getElem?_map,found,owned] at here
    simpa [Curve.point2hex,curve.hex2point_point2hex,eq_comm] using here
  rw [← own] at image owned
  have hashed : ssvgHashToCurve curve (sha3.digest (hexToString realOutput)) = .ok (Hp curve sha3 (P j)) := by
    rw [owned]
    exact Hp_ok (P j)
  have decodedImage : curve.hex2point keyImage = some (x • Hp curve sha3 (P j)) := by
    rw [image]
    exact curve.hex2point_point2hex _
  obtain ⟨e0,ej,isE0,isEj,signed⟩ :=
    sign_member alpha drawn hash stealthKey decodes isJ inside hashed decodedImage rfl rfl
  rw [key] at signed
  refine ⟨_,signed,?_⟩
  rw [verify_decoded _ _ _ (by simp [drawnScalars_length]) positive decodes,decodedImage,Option.getD_some]
  refine congrArg Except.ok (decide_eq_true ?_)
  have size := drawnScalars_length outputs.length j drawn
  have closes := around_closes inside size own rfl isEj
  have chain : e0 = walk (around curve sha3 hash ((drawnScalars outputs.length j drawn).set j
      ((alpha - ej * x % curve.order) % curve.order)) P (x • Hp curve sha3 (P j)) outputs.length) (j + 1)
      (outputs.length - 1 - j) (challenge curve sha3 hash (alpha • curve.generator) (alpha • Hp curve sha3 (P j))) :=
    isE0.trans (walk_congr (fun t early a => (around_set (by rw [Nat.mod_eq_of_lt (by omega)]; omega) _ a).symm) _)
  rw [Closes,recursion_around (by simpa using size)]
  have seen := walk_closed (around_periodic _ _ _ _ _) closes (outputs.length - 1 - j)
  rw [← chain,show j + 1 + (outputs.length - 1 - j) = 0 + outputs.length by omega,
    walk_shift (around_periodic _ _ _ _ _)] at seen
  simpa [scalar,hex2bn_bn2hex] using seen

-- A ring of three in which the real output occurs twice.
theorem sign_verifies_twice : ∃ sig,
    sign smallCurve smallSHA3 5 (fun _ => 2) zeroHash [smallCurve.point2hex 2,onePoint,onePoint] onePoint "01".toList
      (smallCurve.point2hex ((1 : Int) • Hp smallCurve smallSHA3 ((1 : Int) • smallCurve.generator))) = .ok sig ∧
    verify smallCurve smallSHA3 zeroHash sig [smallCurve.point2hex 2,onePoint,onePoint]
      (smallCurve.point2hex ((1 : Int) • Hp smallCurve smallSHA3 ((1 : Int) • smallCurve.generator))) = .ok true :=
  sign_verifies (by simp) (by simp [onePoint]) (by decide) (by decide) rfl

end Keyser.RingCompleteness
