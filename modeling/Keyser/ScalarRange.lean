import Keyser.RingEquation
import Keyser.RingMembership
import Keyser.Torsion

namespace Keyser.ScalarRange
open Hex CryptoUtils CryptoRing RingEquation RingMembership

variable {Point : Type} [AddCommGroup Point] {curve : Curve Point} {sha3 : SHA3} {alpha : Int} {drawn : Nat → Int}
  {hash realOutput keyImage : Text} {outputs : List Text}

def Canonical (curve : Curve Point) (n : Int) : Prop := 0 ≤ n ∧ n < curve.order

instance (n : Int) : Decidable (Canonical curve n) := inferInstanceAs (Decidable (_ ∧ _))

theorem canonical_zero (curve : Curve Point) : Canonical curve 0 :=
  ⟨Int.le_refl _,Int.natCast_pos.mpr curve.order_prime.pos⟩

-- BN_mod_mul and BN_mod_sub end in BN_nnmod.
theorem canonical_emod (curve : Curve Point) (n : Int) : Canonical curve (n % curve.order) := by
  have positive : (0 : Int) < curve.order := Int.natCast_pos.mpr curve.order_prime.pos
  exact ⟨Int.emod_nonneg n positive.ne',Int.emod_lt_of_pos n positive⟩

theorem Hs_nonneg (sha3 : SHA3) (bytes : List UInt8) : 0 ≤ Hs (sha3.digest bytes) := by
  obtain ⟨length,digits⟩ := sha3.digits bytes
  obtain ⟨c,rest,split⟩ := List.exists_cons_of_length_pos (by omega : 0 < (sha3.digest bytes).length)
  rw [split] at digits ⊢
  rw [Hs,hex2bn_digit (digits c (List.mem_cons_self ..))]
  exact Int.natCast_nonneg _

theorem canonical_Hs (sha3 : SHA3) (bytes : List UInt8) :
    Canonical curve (Hs (sha3.digest bytes)) ↔ Hs (sha3.digest bytes) < curve.order :=
  and_iff_right (Hs_nonneg sha3 bytes)

variable [DecidableEq Point]

-- The vector e of sign after `rounds` rounds.
def challengesAfter (curve : Curve Point) (sha3 : SHA3) (alpha : Int) (drawn : Nat → Int) (hash : Text)
    (outputs : List Text) (realOutput keyImage : Text) (rounds : Nat) : Except Fault (List Int) := do
  let N := outputs.length
  let j := outputs.idxOf realOutput
  let HpPj ← ssvgHashToCurve curve (sha3.digest (hexToString realOutput))
  let first := challenge curve sha3 hash (ecMul curve alpha none) (ecMul curve alpha (some HpPj))
  if N = 0 then .error .divisionByZero
  else do
    let e ← setAt (List.replicate N 0) ((j + 1) % N) first
    ringLoop curve sha3 hash (drawnScalars N j drawn) (outputs.map curve.hex2point) (curve.hex2point keyImage) N
      rounds (j + 1) e

theorem challengesAfter_all (curve : Curve Point) (sha3 : SHA3) (alpha : Int) (drawn : Nat → Int) (hash : Text)
    (outputs : List Text) (realOutput keyImage : Text) :
    challengesAfter curve sha3 alpha drawn hash outputs realOutput keyImage (outputs.length - 1) =
      challenges curve sha3 alpha drawn hash outputs realOutput keyImage := rfl

structure CanonicalScalars (curve : Curve Point) (sha3 : SHA3) (alpha : Int) (drawn : Nat → Int) (hash : Text)
    (outputs : List Text) (realOutput stealthKey keyImage : Text) : Prop where
  intermediate : ∀ rounds < outputs.length, ∀ e,
    challengesAfter curve sha3 alpha drawn hash outputs realOutput keyImage rounds = .ok e →
      ∀ c ∈ e, Canonical curve c
  published : ∀ sig, sign curve sha3 alpha drawn hash outputs realOutput stealthKey keyImage = .ok sig →
    ∀ text ∈ sig, Canonical curve (hex2bn text)

def AlwaysCanonical (curve : Curve Point) (sha3 : SHA3) (hash : Text) : Prop :=
  ∀ (outputs : List Text) (realOutput stealthKey keyImage : Text) (alpha : Int) (drawn : Nat → Int),
    realOutput ∈ outputs → Canonical curve alpha → (∀ i < outputs.length, Canonical curve (drawn i)) →
      CanonicalScalars curve sha3 alpha drawn hash outputs realOutput stealthKey keyImage

-- Of SHA3 and the order alone: no digest of hash and two points is the order or more.
def DigestsBelow (curve : Curve Point) (sha3 : SHA3) (hash : Text) : Prop :=
  ∀ A B : Point, hex2bn (sha3.digest (preimage curve hash A B)) < curve.order

-- The other way to stay in range: all digests of hash, alpha*G and alpha*Hp are 0, and with e = 0 no others follow.
def DigestsZero (curve : Curve Point) (sha3 : SHA3) (hash : Text) : Prop :=
  ∀ alpha, Canonical curve alpha → ∀ text HpP, ssvgHashToCurve curve (sha3.digest (hexToString text)) = .ok HpP →
    hex2bn (sha3.digest (preimage curve hash (alpha • curve.generator) (alpha • HpP))) = 0

theorem setAt_forall {good : Int → Prop} (written : setAt xs i n = .ok ys) (all : ∀ c ∈ xs, good c) (fresh : good n) :
    ∀ c ∈ ys, good c := by
  intro c member
  unfold setAt at written
  split at written <;> cases written
  rcases List.mem_or_eq_of_mem_set member with old | rfl
  · exact all c old
  · exact fresh

theorem ringLoop_forall {good : Int → Prop}
    (kept : ∀ n ∈ s, ∀ c P next, good c → calcE curve sha3 hash n c P I = .ok next → good next)
    (ran : ringLoop curve sha3 hash s P I N count start e = .ok after) (all : ∀ c ∈ e, good c) :
    ∀ c ∈ after, good c := by
  induction count generalizing start e with
  | zero =>
      cases ran
      exact all
  | succ count ih =>
      simp only [ringLoop] at ran
      obtain ⟨n,foundS,ran⟩ := bind_ok ran
      obtain ⟨prev,foundE,ran⟩ := bind_ok ran
      obtain ⟨P,_,ran⟩ := bind_ok ran
      obtain ⟨next,answered,ran⟩ := bind_ok ran
      obtain ⟨set,written,ran⟩ := bind_ok ran
      have fresh : good next :=
        kept n (List.mem_of_getElem? (getAt_ok foundS)) prev P next (all prev (List.mem_of_getElem? (getAt_ok foundE)))
          answered
      exact ih ran (setAt_forall written all fresh)

omit [DecidableEq Point] in
theorem drawnScalars_canonical (range : ∀ i < N, Canonical curve (drawn i)) (j : Nat) :
    ∀ n ∈ drawnScalars N j drawn, Canonical curve n := by
  intro n member
  obtain ⟨i,inside,rfl⟩ := List.mem_map.mp member
  split
  · exact canonical_zero curve
  · exact range i (List.mem_range.mp inside)

omit [DecidableEq Point] in
theorem solved_scalars (range : ∀ i < outputs.length, Canonical curve (drawn i))
    (returned : solved curve alpha drawn outputs realOutput stealthKey e = .ok sig) :
    ∃ (e0 : Int) (s : List Int), sig = bn2hex e0 :: s.map bn2hex ∧ e0 ∈ e ∧ ∀ n ∈ s, Canonical curve n := by
  unfold solved at returned
  obtain ⟨ej,_,returned⟩ := bind_ok returned
  obtain ⟨s,written,returned⟩ := bind_ok returned
  obtain ⟨e0,read,returned⟩ := bind_ok returned
  cases returned
  refine ⟨e0,s,rfl,List.mem_of_getElem? (getAt_ok read),?_⟩
  exact setAt_forall written (drawnScalars_canonical range _) (canonical_emod curve _)

-- The s_i are reduced whatever the digests are.
theorem sign_scalars (range : ∀ i < outputs.length, Canonical curve (drawn i))
    (signed : sign curve sha3 alpha drawn hash outputs realOutput stealthKey keyImage = .ok sig) :
    ∃ (e : List Int) (e0 : Int) (s : List Int),
      challenges curve sha3 alpha drawn hash outputs realOutput keyImage = .ok e ∧
      sig = bn2hex e0 :: s.map bn2hex ∧ e0 ∈ e ∧ ∀ n ∈ s, Canonical curve n := by
  rw [sign_challenges] at signed
  obtain ⟨e,ran,returned⟩ := bind_ok signed
  obtain ⟨e0,s,split,first,canonical⟩ := solved_scalars range returned
  exact ⟨e,e0,s,ran,split,first,canonical⟩

theorem challengesAfter_forall {good : Int → Prop} (zero : good 0)
    (first : ∀ HpP, ssvgHashToCurve curve (sha3.digest (hexToString realOutput)) = .ok HpP →
      good (challenge curve sha3 hash (alpha • curve.generator) (alpha • HpP)))
    (kept : ∀ n, Canonical curve n → ∀ c P next, good c →
      calcE curve sha3 hash n c P (curve.hex2point keyImage) = .ok next → good next)
    (range : ∀ i < outputs.length, Canonical curve (drawn i))
    (ran : challengesAfter curve sha3 alpha drawn hash outputs realOutput keyImage rounds = .ok e) :
    ∀ c ∈ e, good c := by
  unfold challengesAfter at ran
  obtain ⟨HpPj,hashed,ran⟩ := bind_ok ran
  split at ran
  · cases ran
  · obtain ⟨start,written,ran⟩ := bind_ok ran
    have zeros : ∀ c ∈ List.replicate outputs.length 0, good c := by
      intro c member
      rw [List.eq_of_mem_replicate member]
      exact zero
    exact ringLoop_forall (fun n drawn => kept n (drawnScalars_canonical range _ n drawn)) ran
      (setAt_forall written zeros (first HpPj hashed))

theorem calcE_canonical (below : DigestsBelow curve sha3 hash)
    (answered : calcE curve sha3 hash n c P I = .ok next) : Canonical curve next := by
  obtain ⟨both,_,same⟩ := bind_ok answered
  cases same
  exact (canonical_Hs sha3 _).mpr (below both.1 both.2)

theorem calcE_zero (zeros : DigestsZero curve sha3 hash) (canonical : Canonical curve n)
    (answered : calcE curve sha3 hash n 0 P I = .ok next) : next = 0 := by
  obtain ⟨both,committed,_⟩ := bind_ok answered
  obtain ⟨point,rfl⟩ := commitments_ok committed
  rw [calcE_some,response,zero_smul,zero_smul,add_zero,add_zero] at answered
  cases answered
  exact zeros n canonical _ _ (Hp_ok point)

theorem challengesAfter_canonical (conditions : DigestsBelow curve sha3 hash ∨ DigestsZero curve sha3 hash)
    (own : Canonical curve alpha) (range : ∀ i < outputs.length, Canonical curve (drawn i))
    (ran : challengesAfter curve sha3 alpha drawn hash outputs realOutput keyImage rounds = .ok e) :
    ∀ c ∈ e, Canonical curve c := by
  rcases conditions with below | zeros
  · exact challengesAfter_forall (canonical_zero curve) (fun _ _ => (canonical_Hs sha3 _).mpr (below _ _))
      (fun _ _ _ _ _ _ answered => calcE_canonical below answered) range ran
  · have all : ∀ c ∈ e, c = 0 :=
      challengesAfter_forall rfl (zeros alpha own realOutput)
        (fun n canonical c P next isZero answered => calcE_zero zeros canonical (isZero ▸ answered)) range ran
    intro c member
    rw [all c member]
    exact canonical_zero curve

theorem published_canonical (conditions : DigestsBelow curve sha3 hash ∨ DigestsZero curve sha3 hash)
    (own : Canonical curve alpha) (range : ∀ i < outputs.length, Canonical curve (drawn i))
    (signed : sign curve sha3 alpha drawn hash outputs realOutput stealthKey keyImage = .ok sig) :
    ∀ text ∈ sig, Canonical curve (hex2bn text) := by
  obtain ⟨e,e0,s,ran,rfl,first,canonical⟩ := sign_scalars range signed
  rw [← challengesAfter_all] at ran
  intro text member
  rcases List.mem_cons.mp member with rfl | scalar
  · rw [hex2bn_bn2hex]
    exact challengesAfter_canonical conditions own range ran e0 first
  · obtain ⟨n,inside,rfl⟩ := List.mem_map.mp scalar
    rw [hex2bn_bn2hex]
    exact canonical n inside

theorem challengesAfter_start (alpha : Int) (drawn : Nat → Int) (hash keyImage : Text) (rounds : Nat)
    (others : List Text) (hashed : ssvgHashToCurve curve (sha3.digest (hexToString text)) = .ok HpP) :
    challengesAfter curve sha3 alpha drawn hash (text :: others) text keyImage rounds =
      ringLoop curve sha3 hash (drawnScalars (others.length + 1) 0 drawn) ((text :: others).map curve.hex2point)
        (curve.hex2point keyImage) (others.length + 1) rounds 1
        ((List.replicate (others.length + 1) 0).set (1 % (others.length + 1))
          (challenge curve sha3 hash (alpha • curve.generator) (alpha • HpP))) := by
  have inside : 1 % (others.length + 1) < (List.replicate (others.length + 1) (0 : Int)).length :=
    mod_inside (List.length_replicate ..) (Nat.succ_pos _) 1
  simp only [challengesAfter,hashed,ok_bind,List.idxOf_cons_self,List.length_cons,Nat.succ_ne_zero,if_false,
    Nat.zero_add,setAt,inside,if_true]
  rfl

-- What the member of a ring of one commits to.
theorem first_canonical (always : AlwaysCanonical curve sha3 hash) (own : Canonical curve alpha)
    (hashed : ssvgHashToCurve curve (sha3.digest (hexToString text)) = .ok HpP) :
    Canonical curve (challenge curve sha3 hash (alpha • curve.generator) (alpha • HpP)) := by
  have canonical := always [text] text [] [] alpha (fun _ => 0) (List.mem_singleton_self text) own
    fun _ _ => canonical_zero curve
  exact canonical.intermediate 0 Nat.one_pos _ (challengesAfter_start alpha (fun _ => 0) hash [] 0 [] hashed) _
    (List.mem_singleton_self _)

-- A second member d*A and the image d*B, with d the inverse of the first challenge.
theorem second_canonical (always : AlwaysCanonical curve sha3 hash) (own : Canonical curve alpha)
    (hashed : ssvgHashToCurve curve (sha3.digest (hexToString text)) = .ok HpP)
    (isFirst : challenge curve sha3 hash (alpha • curve.generator) (alpha • HpP) = first)
    (inverse : (curve.order : Int) ∣ d*first - 1) (A B : Point) :
    Canonical curve (challenge curve sha3 hash A B) := by
  have undone (Q : Point) : first • d • Q = Q := by
    rw [← mul_smul,mul_comm first d,Torsion.smul_congr (curve.order_smul Q) inverse,one_smul]
  have canonical := always [text,curve.point2hex (d • A)] text [] (curve.point2hex (d • B)) alpha (fun _ => 0)
    (List.mem_cons_self ..) own fun _ _ => canonical_zero curve
  have decoded (Q : Point) : curve.hex2point (curve.point2hex Q) = some Q := curve.hex2point_point2hex Q
  have second : calcE curve sha3 hash 0 first (some (d • A)) (some (d • B)) =
      .ok (challenge curve sha3 hash A B) := by
    rw [calcE_some,response,zero_smul,zero_smul,zero_add,zero_add,undone,Option.getD_some,undone]
  have ran : challengesAfter curve sha3 alpha (fun _ => 0) hash [text,curve.point2hex (d • A)] text
      (curve.point2hex (d • B)) 1 = .ok [challenge curve sha3 hash A B,first] := by
    rw [challengesAfter_start alpha (fun _ => 0) hash _ 1 _ hashed,isFirst,decoded]
    show calcE curve sha3 hash 0 first (curve.hex2point (curve.point2hex (d • A))) _ >>= _ = _
    rw [decoded,second]
    simp only [List.length_singleton,ok_bind]
    rfl
  exact canonical.intermediate 1 Nat.one_lt_two _ ran _ (List.mem_cons_self ..)

theorem alwaysCanonical_iff (curve : Curve Point) (sha3 : SHA3) (hash : Text) :
    AlwaysCanonical curve sha3 hash ↔ DigestsBelow curve sha3 hash ∨ DigestsZero curve sha3 hash := by
  constructor
  · intro always
    by_cases zeros : DigestsZero curve sha3 hash
    · exact .inr zeros
    · obtain ⟨alpha,own,text,HpP,hashed,other⟩ : ∃ alpha, Canonical curve alpha ∧ ∃ text HpP,
          ssvgHashToCurve curve (sha3.digest (hexToString text)) = .ok HpP ∧
          challenge curve sha3 hash (alpha • curve.generator) (alpha • HpP) ≠ 0 := by
        simpa [DigestsZero,challenge,Hs] using zeros
      obtain ⟨positive,less⟩ := first_canonical always own hashed
      have unit : ¬ (curve.order : Int) ∣ challenge curve sha3 hash (alpha • curve.generator) (alpha • HpP) :=
        fun divides => other (Int.eq_zero_of_dvd_of_nonneg_of_lt positive less divides)
      obtain ⟨d,inverse⟩ := Torsion.inverse curve.order_prime unit
      exact .inl fun A B => (second_canonical always own hashed rfl inverse A B).2
  · intro conditions outputs realOutput stealthKey keyImage alpha drawn _ own range
    exact ⟨fun rounds _ e ran => challengesAfter_canonical conditions own range ran,
      fun sig signed => published_canonical conditions own range signed⟩

def oneSHA3 : SHA3 where
  digest _ := List.replicate 63 '0' ++ ['1']
  digits _ := by decide

theorem alwaysCanonical_one : AlwaysCanonical smallCurve oneSHA3 zeroHash :=
  (alwaysCanonical_iff smallCurve oneSHA3 zeroHash).mpr
    (.inl fun _ _ => (by decide : hex2bn (List.replicate 63 '0' ++ ['1']) < 3))

-- Every digest is 2^256 - 1, which is above the order of secp256k1 as well.
def topSHA3 : SHA3 where
  digest _ := List.replicate 64 'F'
  digits _ := by
    refine ⟨List.length_replicate ..,fun c member => ?_⟩
    rw [List.eq_of_mem_replicate member]
    rfl

theorem canonicalScalars_fails :
    ¬ CanonicalScalars smallCurve topSHA3 1 (fun _ => 0) zeroHash [smallCurve.point2hex 2,onePoint] onePoint
      "01".toList onePoint := by
  intro canonical
  have signed : sign smallCurve topSHA3 1 (fun _ => 0) zeroHash [smallCurve.point2hex 2,onePoint] onePoint
      "01".toList onePoint = .ok [List.replicate 64 'F',"0".toList,"01".toList] := by decide +kernel
  exact absurd (canonical.published _ signed _ (List.mem_cons_self ..)) (by decide +kernel)

end Keyser.ScalarRange
