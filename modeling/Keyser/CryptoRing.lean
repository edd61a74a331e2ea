import Keyser.CryptoUtils
import Keyser.Walk
import Mathlib.Data.List.Basic

namespace Keyser.CryptoRing
open Hex CryptoUtils Walk

variable {Point : Type} [AddCommGroup Point] [DecidableEq Point] (curve : Curve Point) (sha3 : SHA3)

def commitments (s e : Int) (P I : Option Point) : Except Fault (Point × Point) := do
  let S := ecMul curve s none
  let E := ecMul curve e P
  let R := S + E
  let PStr ← pointHex curve P
  let HpP ← ssvgHashToCurve curve (sha3.digest (hexToString PStr))
  let S2 := ecMul curve s (some HpP)
  let E2 := ecMul curve e I
  let R2 := S2 + E2
  return (R,R2)

def preimage (hash : Text) (R R2 : Point) : List UInt8 :=
  hexToString (hash ++ curve.point2hex R ++ curve.point2hex R2)

def challenge (hash : Text) (R R2 : Point) : Int := Hs (sha3.digest (preimage curve hash R R2))

def calcE (hash : Text) (s e : Int) (P I : Option Point) : Except Fault Int := do
  let (R,R2) ← commitments curve sha3 s e P I
  return challenge curve sha3 hash R R2

-- The loop of sign and verify. N and the indices are int in the source, so that a ring has
-- fewer than 2^31 members.
def ringLoop (hash : Text) (s : List Int) (P : List (Option Point)) (I : Option Point) (N : Nat) :
    (count i : Nat) → (e : List Int) → Except Fault (List Int)
  | 0,_,e => .ok e
  | count + 1,i,e => do
    let prev := i % N
    let curr := (i + 1) % N
    let next ← calcE curve sha3 hash (← getAt s prev) (← getAt e prev) (← getAt P prev) I
    let e ← setAt e curr next
    ringLoop hash s P I N count (i + 1) e

-- s before the last scalar is solved for: a value is drawn for every i but j.
def drawnScalars (N j : Nat) (drawn : Nat → Int) : List Int :=
  (List.range N).map fun i => if i = j then 0 else drawn i

-- The random alpha and s are parameters; idxOf is the distance std::find comes to.
def sign (alpha : Int) (drawn : Nat → Int) (hash : Text) (outputs : List Text)
    (realOutput stealthKey keyImage : Text) : Except Fault (List Text) := do
  let N := outputs.length
  let j := outputs.idxOf realOutput
  let s := drawnScalars N j drawn
  let P := outputs.map curve.hex2point
  let x := hex2bn stealthKey
  let I := curve.hex2point keyImage
  let Q := ecMul curve alpha none
  let HpPj ← ssvgHashToCurve curve (sha3.digest (hexToString realOutput))
  let Q2 := ecMul curve alpha (some HpPj)
  let first := challenge curve sha3 hash Q Q2
  if N = 0 then .error .divisionByZero
  else do
    let e ← setAt (List.replicate N 0) ((j + 1) % N) first
    let e ← ringLoop curve sha3 hash s P I N (N - 1) (j + 1) e
    let sj := (← getAt e j) * x % curve.order
    let s ← setAt s j ((alpha - sj) % curve.order)
    return bn2hex (← getAt e 0) :: s.map bn2hex

-- The vector e of verify after `rounds` rounds.
def verifyRounds (hash : Text) (sig publicAddrs : List Text) (keyImage : Text) (rounds : Nat) :
    Except Fault (List Int) := do
  let N := publicAddrs.length
  let I := curve.hex2point keyImage
  let s := sig.tail.map hex2bn
  let P := publicAddrs.map curve.hex2point
  let e ← setAt (List.replicate N 0) 0 (hex2bn (← getAt sig 0))
  ringLoop curve sha3 hash s P I N rounds 0 e

-- sig.size() - 1 wraps around for an empty signature, and then differs as well.
def verify (hash : Text) (sig publicAddrs : List Text) (keyImage : Text) : Except Fault Bool :=
  if sig.length ≠ publicAddrs.length + 1 then .ok false
  else do
    let e0 := bn2hex (hex2bn (← getAt sig 0))
    let e ← verifyRounds curve sha3 hash sig publicAddrs keyImage publicAddrs.length
    let edash := bn2hex (← getAt e 0)
    return e0 == edash

-- Hash-to-point as the function it is: on a digest ssvg_hash_to_curve returns.
def Hp (P : Point) : Point :=
  match ssvgHashToCurve curve (sha3.digest (hexToString (curve.point2hex P))) with
  | .ok HpP => HpP
  | .error _ => 0

def response (hash : Text) (s e : Int) (P I : Point) : Int :=
  challenge curve sha3 hash (s • curve.generator + e • P) (s • Hp curve sha3 P + e • I)

variable {curve sha3} {hash : Text}

omit [DecidableEq Point] in
theorem drawnScalars_length (N j : Nat) (drawn : Nat → Int) : (drawnScalars N j drawn).length = N := by
  simp [drawnScalars]

theorem Hp_ok (P : Point) :
    ssvgHashToCurve curve (sha3.digest (hexToString (curve.point2hex P))) = .ok (Hp curve sha3 P) := by
  obtain ⟨HpP,succeeded⟩ := ssvgHashToCurve_ok curve sha3 (hexToString (curve.point2hex P))
  rw [Hp,succeeded]

theorem commitments_some (s e : Int) (P : Point) (I : Option Point) :
    commitments curve sha3 s e (some P) I =
      .ok (s • curve.generator + e • P,s • Hp curve sha3 P + e • I.getD curve.generator) := by
  simp only [commitments,pointHex,ok_bind,Hp_ok]
  rfl

theorem commitments_ok (succeeded : commitments curve sha3 s e P I = .ok both) : ∃ point, P = some point := by
  cases P with
  | none => cases succeeded
  | some point => exact ⟨point,rfl⟩

theorem calcE_some (hash : Text) (s e : Int) (P : Point) (I : Option Point) :
    calcE curve sha3 hash s e (some P) I = .ok (response curve sha3 hash s e P (I.getD curve.generator)) := by
  simp only [calcE,commitments_some,ok_bind]
  rfl

def Answers (curve : Curve Point) (sha3 : SHA3) (hash : Text) (s : List Int) (P : List (Option Point))
    (I : Option Point) (N : Nat) (f : Nat → Int → Int) (i : Nat) : Prop :=
  ∃ scalar point, s[i % N]? = some scalar ∧ P[i % N]? = some (some point) ∧
    ∀ e, f i e = response curve sha3 hash scalar e point (I.getD curve.generator)

theorem ringLoop_succ (answers : Answers curve sha3 hash s P I N f i) (here : e[i % N]? = some a)
    (inside : (i + 1) % N < e.length) : ringLoop curve sha3 hash s P I N (count + 1) i e =
      ringLoop curve sha3 hash s P I N count (i + 1) (e.set ((i + 1) % N) (f i a)) := by
  obtain ⟨scalar,point,foundS,foundP,step⟩ := answers
  simp only [ringLoop,getAt_of foundS,getAt_of here,getAt_of foundP,ok_bind,calcE_some,setAt,inside,if_true,step]

theorem mod_inside {xs : List α} (size : xs.length = N) (positive : 0 < N) (i : Nat) : i % N < xs.length := by
  rw [size]
  exact Nat.mod_lt i positive

-- The loop walks round the ring, and leaves every entry it does not come to.
theorem ringLoop_walk (count : Nat) (answers : ∀ t < count, Answers curve sha3 hash s P I N f (start + t))
    (positive : 0 < N) (size : e.length = N) (here : e[start % N]? = some a) :
    ∃ after, ringLoop curve sha3 hash s P I N count start e = .ok after ∧ after.length = N ∧
      after[(start + count) % N]? = some (walk f start count a) ∧
      ∀ p, (∀ t < count, (start + t + 1) % N ≠ p) → after[p]? = e[p]? := by
  induction count generalizing start e a with
  | zero => exact ⟨e,rfl,size,here,fun _ _ => rfl⟩
  | succ count ih =>
      have inside : (start + 1) % N < e.length := mod_inside size positive _
      obtain ⟨after,ran,sized,last,kept⟩ := @ih (start + 1) (e.set ((start + 1) % N) (f start a)) (f start a)
        (fun t early => by rw [Nat.add_assoc,Nat.add_comm 1 t]; exact answers (t + 1) (by omega))
        (by rw [List.length_set,size]) (by rw [List.getElem?_set_self inside])
      refine ⟨after,?_,sized,?_,fun p away => ?_⟩
      · have first : Answers curve sha3 hash s P I N f start := answers 0 (by omega)
        rw [ringLoop_succ first here inside]
        exact ran
      · rw [← Nat.add_assoc,Nat.add_right_comm start count 1]
        exact last
      · rw [kept p fun t early => by rw [Nat.add_right_comm start 1 t]; exact away (t + 1) (by omega)]
        exact List.getElem?_set_ne (away 0 (by omega))

-- A loop that came to its end read no null point as P.
theorem ringLoop_points (ran : ringLoop curve sha3 hash s P I N count start e = .ok after) :
    ∀ t < count, ∃ point, P[(start + t) % N]? = some (some point) := by
  induction count generalizing start e with
  | zero => exact fun t early => absurd early (Nat.not_lt_zero t)
  | succ count ih =>
      simp only [ringLoop] at ran
      obtain ⟨scalar,_,ran⟩ := bind_ok ran
      obtain ⟨ePrev,_,ran⟩ := bind_ok ran
      obtain ⟨pointer,found,ran⟩ := bind_ok ran
      obtain ⟨next,answered,ran⟩ := bind_ok ran
      obtain ⟨set,_,ran⟩ := bind_ok ran
      intro t early
      cases t with
      | zero =>
          obtain ⟨both,committed,_⟩ := bind_ok answered
          obtain ⟨point,rfl⟩ := commitments_ok committed
          exact ⟨point,getAt_ok found⟩
      | succ t =>
          obtain ⟨point,found⟩ := ih ran t (by omega)
          exact ⟨point,by rw [Nat.add_comm t 1,← Nat.add_assoc]; exact found⟩

theorem ringLoop_append (hash : Text) (s : List Int) (P : List (Option Point)) (I : Option Point)
    (N first second start : Nat) (e : List Int) :
    ringLoop curve sha3 hash s P I N (first + second) start e =
      ringLoop curve sha3 hash s P I N first start e >>= ringLoop curve sha3 hash s P I N second (start + first) := by
  induction first generalizing start e with
  | zero => rw [Nat.zero_add]; rfl
  | succ first ih =>
      rw [show first + 1 + second = first + second + 1 by omega,show start + (first + 1) = start + 1 + first by omega]
      simp only [ringLoop,ih,bind_assoc]

end Keyser.CryptoRing
