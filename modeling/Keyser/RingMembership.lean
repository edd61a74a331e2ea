import Keyser.CryptoRing

namespace Keyser.RingMembership
open Hex CryptoUtils CryptoRing

variable {Point : Type} [AddCommGroup Point] [DecidableEq Point] {curve : Curve Point} {sha3 : SHA3} {hash : Text}
  {outputs : List Text}

-- The two ways the loop can end when every index is in range.
inductive Walked (N : Nat) (P : List (Option Point)) (start count : Nat) : Except Fault (List Int) → Prop where
  | whole : after.length = N → (∀ t < count, ∃ point, P[(start + t) % N]? = some (some point)) →
      Walked N P start count (.ok after)
  | null : t < count → P[(start + t) % N]? = some none → Walked N P start count (.error .nullPointer)

theorem Walked.later (here : P[start % N]? = some (some point)) (rest : Walked N P (start + 1) count result) :
    Walked N P start (count + 1) result := by
  cases rest with
  | whole size points =>
      refine .whole size fun t early => ?_
      cases t with
      | zero => exact ⟨point,here⟩
      | succ t =>
          obtain ⟨other,found⟩ := points t (by omega)
          exact ⟨other,by rw [Nat.add_comm t 1,← Nat.add_assoc]; exact found⟩
  | @null t early missing =>
      rw [Nat.add_assoc,Nat.add_comm 1 t] at missing
      exact .null (Nat.succ_lt_succ early) missing

theorem Walked.ends (walked : Walked N P start count result) :
    (∃ after, result = .ok after ∧ after.length = N ∧ ∀ t < count, ∃ point, P[(start + t) % N]? = some (some point)) ∨
    (result = .error .nullPointer ∧ ∃ t < count, P[(start + t) % N]? = some none) := by
  cases walked with
  | whole size points => exact .inl ⟨_,rfl,size,points⟩
  | @null t early missing => exact .inr ⟨rfl,t,early,missing⟩

theorem getAt_inside {xs : List α} (inside : i < xs.length) : ∃ x, getAt xs i = .ok x :=
  ⟨_,getAt_of (List.getElem?_eq_getElem inside)⟩

theorem ringLoop_walked (positive : 0 < N) (sizeS : s.length = N) (sizeP : P.length = N) (sizeE : e.length = N)
    (I : Option Point) (count start : Nat) :
    Walked N P start count (ringLoop curve sha3 hash s P I N count start e) := by
  induction count generalizing start e with
  | zero => exact .whole sizeE fun t early => absurd early (Nat.not_lt_zero t)
  | succ count ih =>
      have curr : (start + 1) % N < e.length := mod_inside sizeE positive _
      obtain ⟨scalar,readS⟩ := getAt_inside (mod_inside sizeS positive start)
      obtain ⟨value,readE⟩ := getAt_inside (mod_inside sizeE positive start)
      obtain ⟨pointer,readP⟩ : ∃ pointer, P[start % N]? = some pointer :=
        ⟨_,List.getElem?_eq_getElem (mod_inside sizeP positive start)⟩
      simp only [ringLoop,readS,readE,getAt_of readP,ok_bind]
      cases pointer with
      | none => exact .null (Nat.succ_pos count) readP
      | some point =>
          simp only [calcE_some,ok_bind,setAt,curr,if_true]
          exact (ih ((List.length_set ..).trans sizeE) (start + 1)).later readP

-- sign as far as the last scalar: e with its first challenge, and the loop.
def challenges (curve : Curve Point) (sha3 : SHA3) (alpha : Int) (drawn : Nat → Int) (hash : Text)
    (outputs : List Text) (realOutput keyImage : Text) : Except Fault (List Int) := do
  let N := outputs.length
  let j := outputs.idxOf realOutput
  let HpPj ← ssvgHashToCurve curve (sha3.digest (hexToString realOutput))
  let first := challenge curve sha3 hash (ecMul curve alpha none) (ecMul curve alpha (some HpPj))
  if N = 0 then .error .divisionByZero
  else do
    let e ← setAt (List.replicate N 0) ((j + 1) % N) first
    ringLoop curve sha3 hash (drawnScalars N j drawn) (outputs.map curve.hex2point) (curve.hex2point keyImage) N
      (N - 1) (j + 1) e

-- The first use of j as it is, and the only one that need not be in range.
def solved (curve : Curve Point) (alpha : Int) (drawn : Nat → Int) (outputs : List Text)
    (realOutput stealthKey : Text) (e : List Int) : Except Fault (List Text) := do
  let j := outputs.idxOf realOutput
  let sj := (← getAt e j) * hex2bn stealthKey % curve.order
  let s ← setAt (drawnScalars outputs.length j drawn) j ((alpha - sj) % curve.order)
  return bn2hex (← getAt e 0) :: s.map bn2hex

theorem sign_challenges (curve : Curve Point) (sha3 : SHA3) (alpha : Int) (drawn : Nat → Int) (hash : Text)
    (outputs : List Text) (realOutput stealthKey keyImage : Text) :
    sign curve sha3 alpha drawn hash outputs realOutput stealthKey keyImage =
      challenges curve sha3 alpha drawn hash outputs realOutput keyImage >>=
        solved curve alpha drawn outputs realOutput stealthKey := by
  unfold sign challenges solved
  simp only [bind_assoc]
  congr 1
  funext HpPj
  by_cases empty : outputs.length = 0
  · simp only [empty,if_true,error_bind]
  · simp only [empty,if_false,bind_assoc]

structure MembersOnly (curve : Curve Point) (sha3 : SHA3) (alpha : Int) (drawn : Nat → Int) (hash : Text)
    (outputs : List Text) (realOutput stealthKey keyImage : Text) : Prop where
  returned : ∀ sig, sign curve sha3 alpha drawn hash outputs realOutput stealthKey keyImage = .ok sig →
    realOutput ∈ outputs ∧ sig.length = outputs.length + 1
  missing : realOutput ∉ outputs →
    sign curve sha3 alpha drawn hash outputs realOutput stealthKey keyImage = .error .outOfRange
  remainder : sign curve sha3 alpha drawn hash outputs realOutput stealthKey keyImage ≠ .error .divisionByZero
  indices : challenges curve sha3 alpha drawn hash outputs realOutput keyImage ≠ .error .outOfRange

theorem challenges_empty (curve : Curve Point) (sha3 : SHA3) (alpha : Int) (drawn : Nat → Int)
    (hash realOutput keyImage : Text) :
    challenges curve sha3 alpha drawn hash [] realOutput keyImage = .error .divisionByZero := by
  obtain ⟨HpPj,hashed⟩ := ssvgHashToCurve_ok curve sha3 (hexToString realOutput)
  unfold challenges
  simp only [hashed,ok_bind,List.length_nil,if_true]

theorem sign_empty (curve : Curve Point) (sha3 : SHA3) (alpha : Int) (drawn : Nat → Int)
    (hash realOutput stealthKey keyImage : Text) :
    sign curve sha3 alpha drawn hash [] realOutput stealthKey keyImage = .error .divisionByZero := by
  rw [sign_challenges,challenges_empty,error_bind]

theorem challenges_walked (curve : Curve Point) (sha3 : SHA3) (alpha : Int) (drawn : Nat → Int) (hash : Text)
    (filled : outputs ≠ []) (realOutput keyImage : Text) :
    Walked outputs.length (outputs.map curve.hex2point) (outputs.idxOf realOutput + 1) (outputs.length - 1)
      (challenges curve sha3 alpha drawn hash outputs realOutput keyImage) := by
  have positive := List.length_pos_iff.mpr filled
  obtain ⟨HpPj,hashed⟩ := ssvgHashToCurve_ok curve sha3 (hexToString realOutput)
  have entry : (outputs.idxOf realOutput + 1) % outputs.length <
      (List.replicate outputs.length (0 : Int)).length :=
    mod_inside (List.length_replicate ..) positive _
  unfold challenges
  simp only [hashed,ok_bind,positive.ne',if_false,setAt,entry,if_true]
  exact ringLoop_walked positive (drawnScalars_length ..) (List.length_map ..) (by simp) _ _ _

omit [DecidableEq Point] in
theorem solved_member (curve : Curve Point) (alpha : Int) (drawn : Nat → Int) (stealthKey : Text)
    (member : realOutput ∈ outputs) (size : e.length = outputs.length) :
    ∃ sig, solved curve alpha drawn outputs realOutput stealthKey e = .ok sig ∧ sig.length = outputs.length + 1 := by
  have inside := List.idxOf_lt_length_of_mem member
  have last : outputs.idxOf realOutput < (drawnScalars outputs.length (outputs.idxOf realOutput) drawn).length := by
    rwa [drawnScalars_length]
  obtain ⟨ej,readJ⟩ : ∃ ej, getAt e (outputs.idxOf realOutput) = .ok ej :=
    getAt_inside (by rw [size]; exact inside)
  obtain ⟨e0,read0⟩ : ∃ e0, getAt e 0 = .ok e0 := getAt_inside (by omega)
  unfold solved
  simp only [readJ,ok_bind,setAt,last,if_true,read0]
  exact ⟨_,rfl,by simp [drawnScalars]⟩

omit [DecidableEq Point] in
theorem solved_missing (curve : Curve Point) (alpha : Int) (drawn : Nat → Int) (stealthKey : Text)
    (missing : realOutput ∉ outputs) (size : e.length = outputs.length) :
    solved curve alpha drawn outputs realOutput stealthKey e = .error .outOfRange := by
  have outside : getAt e (outputs.idxOf realOutput) = .error .outOfRange := by
    unfold getAt
    rw [List.idxOf_eq_length missing,List.getElem?_eq_none (by omega)]
  unfold solved
  simp only [outside,error_bind]

omit [DecidableEq Point] in
-- From N + 1 on, the rounds read every point but the first.
theorem rounds_tail (curve : Curve Point) (outputs : List Text) :
    (∀ t < outputs.length - 1, ∃ point,
      (outputs.map curve.hex2point)[(outputs.length + 1 + t) % outputs.length]? = some (some point)) ↔
      ∀ output ∈ outputs.tail, (curve.hex2point output).isSome = true := by
  cases outputs with
  | nil => simp
  | cons first rest =>
      have reads : ∀ t < rest.length, ((first :: rest).map curve.hex2point)[((first :: rest).length + 1 + t) %
          (first :: rest).length]? = (rest.map curve.hex2point)[t]? := by
        intro t early
        have small : 1 + t < (first :: rest).length := by
          rw [List.length_cons]
          omega
        rw [Nat.add_assoc,Nat.add_mod_left,Nat.mod_eq_of_lt small,Nat.add_comm 1 t]
        rfl
      constructor
      · intro points output member
        obtain ⟨t,early,rfl⟩ := List.getElem_of_mem member
        obtain ⟨point,found⟩ := points t early
        rw [reads t early,List.getElem?_map] at found
        change t < rest.length at early
        rw [List.getElem?_eq_getElem early] at found
        exact Option.isSome_iff_exists.mpr ⟨point,Option.some.inj found⟩
      · intro decode t early
        have early : t < rest.length := early
        obtain ⟨point,found⟩ := Option.isSome_iff_exists.mp (decode rest[t] (List.getElem_mem early))
        refine ⟨point,?_⟩
        rw [reads t early,List.getElem?_map,List.getElem?_eq_getElem early,Option.map_some,found]

theorem membersOnly_whole (ran : challenges curve sha3 alpha drawn hash outputs realOutput keyImage = .ok e)
    (size : e.length = outputs.length) (stealthKey : Text) :
    MembersOnly curve sha3 alpha drawn hash outputs realOutput stealthKey keyImage := by
  have splits := sign_challenges curve sha3 alpha drawn hash outputs realOutput stealthKey keyImage
  rw [ran,ok_bind] at splits
  by_cases member : realOutput ∈ outputs
  · obtain ⟨sig,signed,length⟩ := solved_member curve alpha drawn stealthKey member size
    rw [signed] at splits
    refine ⟨?_,fun missing => absurd member missing,by simp [splits],by simp [ran]⟩
    intro other returned
    cases splits.symm.trans returned
    exact ⟨member,length⟩
  · rw [solved_missing curve alpha drawn stealthKey member size] at splits
    refine ⟨?_,fun _ => splits,by simp [splits],by simp [ran]⟩
    intro sig returned
    cases splits.symm.trans returned

theorem membersOnly_null
    (null : challenges curve sha3 alpha drawn hash outputs realOutput keyImage = .error .nullPointer)
    (stealthKey : Text) :
    MembersOnly curve sha3 alpha drawn hash outputs realOutput stealthKey keyImage ↔ realOutput ∈ outputs := by
  have splits := sign_challenges curve sha3 alpha drawn hash outputs realOutput stealthKey keyImage
  rw [null,error_bind] at splits
  constructor
  · intro members
    by_contra missing
    cases splits.symm.trans (members.missing missing)
  · intro member
    refine ⟨?_,fun missing => absurd member missing,by simp [splits],by simp [null]⟩
    intro sig returned
    cases splits.symm.trans returned

theorem membersOnly_iff (curve : Curve Point) (sha3 : SHA3) (alpha : Int) (drawn : Nat → Int) (hash : Text)
    (outputs : List Text) (realOutput stealthKey keyImage : Text) :
    MembersOnly curve sha3 alpha drawn hash outputs realOutput stealthKey keyImage ↔
      outputs ≠ [] ∧ (realOutput ∉ outputs → ∀ output ∈ outputs.tail, (curve.hex2point output).isSome = true) := by
  by_cases filled : outputs = []
  · subst filled
    exact iff_of_false (fun members => members.remainder (sign_empty ..)) fun both => both.1 rfl
  · rcases (challenges_walked curve sha3 alpha drawn hash filled realOutput keyImage).ends with
      ⟨e,ran,size,points⟩ | ⟨null,t,early,none⟩
    · refine iff_of_true (membersOnly_whole ran size stealthKey) ⟨filled,fun missing => ?_⟩
      rw [List.idxOf_eq_length missing] at points
      exact (rounds_tail curve outputs).mp points
    · rw [membersOnly_null null stealthKey]
      refine ⟨fun member => ⟨filled,fun missing => absurd member missing⟩,?_⟩
      rintro ⟨_,decode⟩
      by_contra missing
      obtain ⟨point,found⟩ := (rounds_tail curve outputs).mpr (decode missing) t early
      rw [List.idxOf_eq_length missing,found] at none
      cases none

theorem membersOnly_fails : ¬ MembersOnly smallCurve smallSHA3 1 (fun _ => 1) [] [] [] [] (smallCurve.point2hex 1) := by
  intro members
  exact members.remainder (sign_empty ..)

end Keyser.RingMembership
