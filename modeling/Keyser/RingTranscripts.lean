import Keyser.RingSymmetry
import Keyser.ScalarRange

namespace Keyser.RingTranscripts
open Hex CryptoUtils Walk CryptoRing RingEquation RingCompleteness RingSymmetry ScalarRange

variable {Point : Type} [AddCommGroup Point] [DecidableEq Point] {curve : Curve Point} {sha3 : SHA3}
  {hash keyImage realOutput stealthKey : Text} {sig outputs : List Text}

-- A signature as sign writes it: numbers as BN_bn2hex has them, and responses below the order.
structure Written (curve : Curve Point) (sig : List Text) : Prop where
  texts : ∀ text ∈ sig, bn2hex (hex2bn text) = text
  range : ∀ text ∈ sig.tail, Canonical curve (hex2bn text)

theorem drawnScalars_getD {s : List Int} (size : s.length = N) (j : Nat) :
    drawnScalars N j (s.getD · 0) = s.set j 0 := by
  refine List.ext_getElem (by simp [drawnScalars_length,size]) fun i inside inside' => ?_
  have short : i < s.length := by simpa using inside'
  rw [List.getElem_set]
  by_cases here : j = i
  · simp [drawnScalars,here]
  · simp [drawnScalars,here,Ne.symm here,short]

theorem round_away (inside : j < N) (early : t < N - 1) : (j + 1 + t) % N ≠ j := by
  by_cases short : j + 1 + t < N
  · rw [Nat.mod_eq_of_lt short]
    omega
  · rw [Nat.mod_eq_sub_mod (by omega),Nat.mod_eq_of_lt (by omega)]
    omega

-- A closed walk seen from j + 1: over the other members it comes to 0 and then to j.
theorem walk_round {step step' : Nat → Int → Int} (inside : j < N) (periodic : ∀ i, step (i + N) = step i)
    (closes : walk step 0 N e = e) (away : ∀ i, i % N ≠ j → ∀ a, step' i a = step i a)
    (isFirst : first = step j (walk step 0 j e)) :
    walk step' (j + 1) (N - 1 - j) first = e ∧ walk step' (j + 1) (N - 1) first = walk step 0 j e := by
  have seen : first = walk step 0 (j + 1) e := by
    rw [isFirst,walk_snoc,Nat.zero_add]
  have other (count : Nat) (few : count ≤ N - 1) :
      walk step' (j + 1) count first = walk step 0 (j + 1 + count) e := by
    have alike : walk step' (j + 1) count first = walk step (j + 1) count first :=
      walk_congr (fun t early a => away (j + 1 + t) (round_away inside (by omega)) a) first
    rw [alike,seen,walk_add 0 (j + 1) count e,Nat.zero_add]
  constructor
  · rw [other _ (by omega),show j + 1 + (N - 1 - j) = N by omega,closes]
  · rw [other _ (Nat.le_refl _),show j + 1 + (N - 1) = N + j by omega,walk_add,closes,walk_shift periodic]

-- The alpha that leads to the response s_j for the challenge e_j.
theorem response_alpha (s e x : Int) (hash : Text) (P : Point) (own : P = x • curve.generator) :
    response curve sha3 hash s e P (x • Hp curve sha3 P) =
      challenge curve sha3 hash (((s + e*x) % curve.order) • curve.generator)
        (((s + e*x) % curve.order) • Hp curve sha3 P) := by
  have split (Q : Point) : ((s + e*x) % curve.order) • Q = s • Q + e • x • Q := by
    rw [emod_smul,add_smul,mul_smul]
  rw [response,split,split]
  subst own
  rfl

omit [DecidableEq Point] in
theorem solved_response (canonical : Canonical curve s) (e x : Int) :
    ((s + e*x) % curve.order - e*x % curve.order) % curve.order = s := by
  rw [← Int.sub_emod,add_sub_cancel_right]
  exact Int.emod_eq_of_lt canonical.1 canonical.2

omit [DecidableEq Point] in
theorem written_texts (written : Written curve sig) (size : sig.length = N + 1) :
    bn2hex (scalar sig 0) :: (sig.tail.map hex2bn).map bn2hex = sig := by
  obtain ⟨e0,tail,rfl⟩ := List.exists_cons_of_length_eq_add_one size
  have texts : tail.map (bn2hex ∘ hex2bn) = tail := by
    refine (List.map_congr_left fun text listed => ?_).trans (List.map_id tail)
    exact written.texts text (List.mem_cons_of_mem e0 listed)
  rw [List.tail_cons,List.map_map,texts]
  exact congrArg (· :: tail) (written.texts e0 (List.mem_cons_self ..))

omit [DecidableEq Point] in
theorem written_canonical (written : Written curve sig) (i : Nat) :
    Canonical curve ((sig.tail.map hex2bn).getD i 0) := by
  rw [List.getD_eq_getElem?_getD]
  cases read : (sig.tail.map hex2bn)[i]? with
  | none => exact canonical_zero curve
  | some n =>
      obtain ⟨text,listed,rfl⟩ := List.mem_map.mp (List.mem_of_getElem? read)
      exact written.range text listed

-- The alpha of a closed walk: with s as the drawn numbers, sign goes the same walk round.
theorem sign_closed {x e : Int} {s : List Int} {P : Nat → Point} (decodes : Decodes curve outputs P outputs.length)
    (isJ : outputs.idxOf realOutput = j) (inside : j < outputs.length) (own : P j = x • curve.generator)
    (hashed : ssvgHashToCurve curve (sha3.digest (hexToString realOutput)) = .ok (Hp curve sha3 (P j)))
    (image : curve.hex2point keyImage = some (x • Hp curve sha3 (P j))) (key : hex2bn stealthKey = x)
    (size : s.length = outputs.length) (canonical : Canonical curve (s.getD j 0))
    (closes : walk (around curve sha3 hash s P (x • Hp curve sha3 (P j)) outputs.length) 0 outputs.length e = e) :
    ∃ alpha : Int, Canonical curve alpha ∧
      sign curve sha3 alpha (s.getD · 0) hash outputs realOutput stealthKey keyImage =
        .ok (bn2hex e :: s.map bn2hex) := by
  generalize isStep : around curve sha3 hash s P (x • Hp curve sha3 (P j)) outputs.length = step at closes
  have periodic (i : Nat) : step (i + outputs.length) = step i := by
    rw [← isStep,around_periodic]
  generalize isEj : walk step 0 j e = ej
  refine ⟨(s.getD j 0 + ej*x) % curve.order,canonical_emod curve _,?_⟩
  -- the challenge of this alpha is what step j makes of e_j
  obtain ⟨e0',ej',isE0,isEj',signed⟩ := sign_member ((s.getD j 0 + ej*x) % curve.order) (s.getD · 0) hash
    stealthKey decodes isJ inside hashed image rfl rfl
  rw [drawnScalars_getD size] at isE0 isEj' signed
  have isFirst : challenge curve sha3 hash (((s.getD j 0 + ej*x) % curve.order) • curve.generator)
      (((s.getD j 0 + ej*x) % curve.order) • Hp curve sha3 (P j)) = step j (walk step 0 j e) := by
    rw [← response_alpha (s.getD j 0) ej x hash (P j) own,isEj,← isStep,around,Nat.mod_eq_of_lt inside]
  have away : ∀ i, i % outputs.length ≠ j → ∀ a,
      around curve sha3 hash (s.set j 0) P (x • Hp curve sha3 (P j)) outputs.length i a = step i a := by
    intro i other a
    rw [around_set other,isStep]
  obtain ⟨begins,comes⟩ := walk_round inside periodic closes away isFirst
  rw [begins] at isE0
  rw [comes,isEj] at isEj'
  subst isE0 isEj'
  have kept : s.set j (s.getD j 0) = s := by
    rw [List.getD_eq_getElem?_getD,List.getElem?_eq_getElem (by omega),Option.getD_some,List.set_getElem_self]
  rw [signed,key,solved_response canonical,List.set_set,kept]

theorem sign_reaches {x : Int} (accepted : verify curve sha3 hash sig outputs keyImage = .ok true)
    (written : Written curve sig) (member : realOutput ∈ outputs)
    (owned : realOutput = curve.point2hex (x • curve.generator)) (key : hex2bn stealthKey = x)
    (image : keyImage = curve.point2hex (x • Hp curve sha3 (x • curve.generator))) :
    ∃ (alpha : Int) (drawn : Nat → Int), Canonical curve alpha ∧ (∀ i, Canonical curve (drawn i)) ∧
      sign curve sha3 alpha drawn hash outputs realOutput stealthKey keyImage = .ok sig := by
  obtain ⟨size,_,P,decodes,closes⟩ := accepted_closes accepted
  have inside := List.idxOf_lt_length_iff.mpr member
  have found : outputs[outputs.idxOf realOutput]? = some realOutput := by
    rw [List.getElem?_eq_getElem inside,List.getElem_idxOf]
  generalize isJ : outputs.idxOf realOutput = j at inside found
  have own : P j = x • curve.generator := by
    have here := decodes j inside
    rw [List.getElem?_map,found,owned] at here
    simpa [Curve.point2hex,curve.hex2point_point2hex,eq_comm] using here
  rw [← own] at image owned
  have hashed : ssvgHashToCurve curve (sha3.digest (hexToString realOutput)) = .ok (Hp curve sha3 (P j)) := by
    rw [owned]
    exact Hp_ok (P j)
  have decodedImage : curve.hex2point keyImage = some (x • Hp curve sha3 (P j)) := by
    rw [image]
    exact curve.hex2point_point2hex _
  rw [decodedImage,Option.getD_some] at closes
  have count : (sig.tail.map hex2bn).length = outputs.length := by
    rw [List.length_map,List.length_tail,size,Nat.add_sub_cancel]
  obtain ⟨alpha,below,signed⟩ := sign_closed decodes isJ inside own hashed decodedImage key count
    (written_canonical written j) closes
  rw [written_texts written size] at signed
  exact ⟨alpha,((sig.tail.map hex2bn).getD · 0),below,written_canonical written,signed⟩

-- For alpha = 1 and s_0 = 1, this signature.
theorem sign_reaches_pair : ∃ (alpha : Int) (drawn : Nat → Int), Canonical smallCurve alpha ∧
    (∀ i, Canonical smallCurve (drawn i)) ∧ sign smallCurve smallSHA3 alpha drawn zeroHash
      [smallCurve.point2hex 2,onePoint] onePoint "01".toList
      (smallCurve.point2hex ((1 : Int) • Hp smallCurve smallSHA3 ((1 : Int) • smallCurve.generator))) =
        .ok ["04".toList,"01".toList,"01".toList] :=
  sign_reaches (by decide +kernel) ⟨by decide +kernel,by decide +kernel⟩ (by simp [onePoint]) (by decide) (by decide)
    rfl

end Keyser.RingTranscripts
