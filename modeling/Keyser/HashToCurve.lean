import Keyser.HexCodecs
import Mathlib.Data.ZMod.Basic
import Mathlib.GroupTheory.OrderOfElement

namespace Keyser.HashToCurve
open Hex CryptoUtils HexCodecs

variable {Point : Type} [AddCommGroup Point] {curve : Curve Point} {P : Point} {hash : Text}

-- The body of the bit loop.
def mixBit (Q : Point) (P : Point) (bit : Bool) : Point := if bit then P + Q else P + P

theorem multiple_zero (curve : Curve Point) (usable : P ≠ 0) (n : Int) : n • P = 0 ↔ (curve.order : Int) ∣ n := by
  have prime : Fact curve.order.Prime := ⟨curve.order_prime⟩
  rw [← addOrderOf_eq_prime (curve.order_smul P) usable]
  exact addOrderOf_dvd_iff_zsmul_eq_zero.symm

theorem doubled_ne (odd : Odd curve.order) (usable : P ≠ 0) (zeros : Nat) : 2^zeros • P ≠ 0 := by
  intro zero
  have whole : ((2^zeros : Nat) : Int) • P = 0 := by
    rw [natCast_zsmul]
    exact zero
  have divides := Int.natCast_dvd_natCast.mp ((multiple_zero curve usable _).mp whole)
  have two := (Nat.prime_dvd_prime_iff_eq curve.order_prime Nat.prime_two).mp
    (curve.order_prime.dvd_of_dvd_pow divides)
  rw [two] at odd
  exact absurd odd (by decide)

-- With the identity for Q, a one leaves P as it is.
theorem doubled (bits : List Bool) (P : Point) : bits.foldl (mixBit 0) P = 2^bits.count false • P := by
  induction bits generalizing P with
  | nil => simp
  | cons bit rest ih =>
      rw [List.foldl_cons,ih]
      cases bit with
      | true => simp [mixBit]
      | false => simp [mixBit,← two_nsmul,← mul_nsmul',pow_succ]

variable [DecidableEq Point]

theorem foldBits_cons (Q : Point) (bit : Bool) (rest : List Bool) (P finalP : Point) :
    foldBits Q (bit :: rest) P finalP =
      if mixBit Q P bit = 0 then finalP else foldBits Q rest (mixBit Q P bit) (mixBit Q P bit) := rfl

-- Where no start of the bits comes to the identity, the loop is the plain fold.
theorem foldBits_alive {Q P : Point} (alive : ∀ early, early <+: bits → early.foldl (mixBit Q) P ≠ 0) (last : Point)
    (some : bits ≠ []) : foldBits Q bits P last = bits.foldl (mixBit Q) P := by
  induction bits generalizing P last with
  | nil => exact absurd rfl some
  | cons bit rest ih =>
      have here : mixBit Q P bit ≠ 0 := alive [bit] (List.prefix_append [bit] rest)
      have later : ∀ early, early <+: rest → early.foldl (mixBit Q) (mixBit Q P bit) ≠ 0 := fun early before =>
        alive (bit :: early) (List.cons_prefix_cons.mpr ⟨rfl,before⟩)
      rw [foldBits_cons,if_neg here,List.foldl_cons]
      cases rest with
      | nil => rfl
      | cons next rest => exact ih later _ (by simp)

theorem foldBits_map {Group : Type} [AddCommGroup Group] [DecidableEq Group] {f : Group →+ Point}
    (injective : Function.Injective f) (Q : Group) (bits : List Bool) (P last : Group) :
    f (foldBits Q bits P last) = foldBits (f Q) bits (f P) (f last) := by
  induction bits generalizing P last with
  | nil => rfl
  | cons bit rest ih =>
      have mixed : f (mixBit Q P bit) = mixBit (f Q) (f P) bit := by
        cases bit <;> simp [mixBit]
      rw [foldBits_cons,foldBits_cons,← mixed,apply_ite f,ih]
      simp only [map_eq_zero_iff f injective]

omit [DecidableEq Point] in
-- The multiples of a point that is not the identity are the residues modulo the order.
theorem multiples (curve : Curve Point) (usable : P ≠ 0) :
    ∃ f : ZMod curve.order →+ Point, Function.Injective f ∧ f 1 = P := by
  have vanishes : zmultiplesHom Point P curve.order = 0 := by
    rw [zmultiplesHom_apply,natCast_zsmul]
    exact curve.order_smul P
  refine ⟨ZMod.lift curve.order ⟨zmultiplesHom Point P,vanishes⟩,?_,?_⟩
  · rw [ZMod.lift_injective]
    intro n zero
    rw [ZMod.intCast_zmod_eq_zero_iff_dvd]
    exact (multiple_zero curve usable n).mp zero
  · have one := ZMod.lift_coe curve.order ⟨zmultiplesHom Point P,vanishes⟩ 1
    rw [Int.cast_one] at one
    rw [one]
    exact one_zsmul P

-- The fold the comments of the loop describe: it stops before the first identity.
def mixed (Q : Point) : (bits : List Bool) → (P : Point) → Point
  | [],P => P
  | bit :: rest,P => if mixBit Q P bit = 0 then P else mixed Q rest (mixBit Q P bit)

-- The 256 bits of a hash of 64 digits, the most significant first.
abbrev bitsOf (hash : Text) : List Bool := hashBits (hexToString hash)

-- The fold over the bits, from the first lift and with that lift for Q.
def MixesBits (curve : Curve Point) (hash : Text) : Prop :=
  ∃ ahead P0, FirstLift curve (hex2bn hash) ahead P0 ∧
    ssvgHashToCurve curve hash = .ok (mixed P0 (bitsOf hash) P0)

-- The multiples of P0 that the two folds come to, modulo the order.
def Coincides (order : Nat) (bits : List Bool) : Prop :=
  mixed (1 : ZMod order) bits 1 = foldBits (0 : ZMod order) bits 1 0

instance (order : Nat) (bits : List Bool) : Decidable (Coincides order bits) :=
  inferInstanceAs (Decidable (mixed (1 : ZMod order) bits 1 = foldBits (0 : ZMod order) bits 1 0))

theorem mixed_foldBits (Q : Point) (bits : List Bool) (P : Point) : mixed Q bits P = foldBits Q bits P P := by
  induction bits generalizing P with
  | nil => rfl
  | cons bit rest ih => rw [mixed,foldBits_cons,ih]

theorem hashBits_some (bytes : List UInt8) : hashBits bytes ≠ [] := by
  intro none
  have length := congrArg List.length none
  simp [hashBits] at length

omit [DecidableEq Point] in
theorem alive_doubled (odd : Odd curve.order) (usable : P ≠ 0) (bits : List Bool) :
    ∀ early, early <+: bits → early.foldl (mixBit 0) P ≠ 0 := by
  intro early _
  rw [doubled]
  exact doubled_ne odd usable _

theorem ssvgHashToCurve_doubled (odd : Odd curve.order) (length : hash.length = 64) (digits : AllDigits hash)
    (first : FirstLift curve (hex2bn hash) ahead P0) :
    ssvgHashToCurve curve hash = .ok (2^(bitsOf hash).count false • P0) := by
  obtain ⟨other,P1,soon,firstP1⟩ := firstLift_exists curve (hex2bn hash)
  obtain ⟨rfl,rfl⟩ := first.unique firstP1
  rw [ssvgHashToCurve_first length digits first soon,
    foldBits_alive (alive_doubled odd first.usable _) 0 (hashBits_some _),doubled]

theorem mixesBits_first (length : hash.length = 64) (digits : AllDigits hash) :
    MixesBits curve hash ↔ Coincides curve.order (bitsOf hash) := by
  obtain ⟨ahead,P0,soon,first⟩ := firstLift_exists curve (hex2bn hash)
  obtain ⟨f,injective,one⟩ := multiples curve first.usable
  have code : foldBits 0 (bitsOf hash) P0 0 = f (foldBits 0 (bitsOf hash) 1 0) := by
    rw [foldBits_map injective,map_zero,one]
  have comment : mixed P0 (bitsOf hash) P0 = f (mixed 1 (bitsOf hash) 1) := by
    rw [mixed_foldBits,mixed_foldBits,foldBits_map injective,one]
  have returned := ssvgHashToCurve_first length digits first soon
  rw [code] at returned
  unfold Coincides
  constructor
  · rintro ⟨other,P1,firstP1,mixes⟩
    obtain ⟨rfl,rfl⟩ := first.unique firstP1
    rw [returned,comment] at mixes
    exact (injective (Except.ok.inj mixes)).symm
  · intro same
    refine ⟨ahead,P0,first,?_⟩
    rw [returned,comment,same]

theorem coincides_odd (odd : Odd curve.order) (length : hash.length = 64) (digits : AllDigits hash) :
    Coincides curve.order (bitsOf hash) ↔
      mixed (1 : ZMod curve.order) (bitsOf hash) 1 = 2^(bitsOf hash).count false := by
  obtain ⟨ahead,P0,soon,first⟩ := firstLift_exists curve (hex2bn hash)
  obtain ⟨f,injective,one⟩ := multiples curve first.usable
  have code := ssvgHashToCurve_first length digits first soon
  rw [ssvgHashToCurve_doubled odd length digits first] at code
  have residue : foldBits (0 : ZMod curve.order) (bitsOf hash) 1 0 =
      2^(bitsOf hash).count false • 1 := by
    apply injective
    rw [foldBits_map injective,map_nsmul,map_zero,one]
    exact (Except.ok.inj code).symm
  unfold Coincides
  rw [residue,nsmul_eq_mul,mul_one,Nat.cast_pow,Nat.cast_ofNat]

theorem mixesBits_iff (curve : Curve Point) (length : hash.length = 64) (digits : AllDigits hash) :
    (MixesBits curve hash ↔ Coincides curve.order (bitsOf hash)) ∧
    (Odd curve.order →
      (Coincides curve.order (bitsOf hash) ↔
        mixed (1 : ZMod curve.order) (bitsOf hash) 1 = 2^(bitsOf hash).count false) ∧
      ∀ ahead P0, FirstLift curve (hex2bn hash) ahead P0 →
        ssvgHashToCurve curve hash = .ok (2^(bitsOf hash).count false • P0)) := by
  refine ⟨mixesBits_first length digits,fun odd => ⟨coincides_odd odd length digits,?_⟩⟩
  intro ahead P0 first
  exact ssvgHashToCurve_doubled odd length digits first

-- A one, then zeros: P0 is doubled 255 times, and Q was to make it 256.
def oneBit : Text := '8' :: List.replicate 63 '0'

theorem mixesBits_oneBit : ¬ MixesBits smallCurve oneBit := by
  intro mixes
  have same := (mixesBits_first (by decide) (by decide)).mp mixes
  exact absurd same (by decide +kernel)

-- Bits one and zero by turns: modulo 3 the two folds come to one multiple.
theorem mixesBits_alternating : MixesBits smallCurve (List.replicate 64 'A') :=
  (mixesBits_iff smallCurve (by decide) (by decide)).1.mpr (by decide +kernel)

theorem hashToCurve_usable (curve : Curve Point) (odd : Odd curve.order) (length : hash.length = 64)
    (digits : AllDigits hash) :
    ∃ ahead P0 finalP, ahead ≤ curve.field ∧ FirstLift curve (hex2bn hash) ahead P0 ∧
      (∀ left > ahead, candidate curve left (hex2bn hash) 0 = .ok P0) ∧
      (∀ early, early <+: bitsOf hash → early.foldl (mixBit 0) P0 ≠ 0) ∧
      ssvgHashToCurve curve hash = .ok finalP ∧ finalP ≠ 0 ∧
      ∀ x : Int, ¬ (curve.order : Int) ∣ x → ecMul curve x (some finalP) ≠ 0 := by
  obtain ⟨ahead,P0,soon,first⟩ := firstLift_exists curve (hex2bn hash)
  have usable := doubled_ne odd first.usable ((bitsOf hash).count false)
  refine ⟨ahead,P0,_,Nat.le_of_lt soon,first,?_,alive_doubled odd first.usable _,
    ssvgHashToCurve_doubled odd length digits first,usable,?_⟩
  · intro left enough
    exact candidate_first first enough
  · intro x coprime zero
    exact coprime ((multiple_zero curve usable x).mp zero)

theorem hashToCurve_usable_oneBit :
    ∃ ahead P0 finalP, ahead ≤ 3 ∧ FirstLift smallCurve (hex2bn oneBit) ahead P0 ∧
      (∀ left > ahead, candidate smallCurve left (hex2bn oneBit) 0 = .ok P0) ∧
      (∀ early, early <+: bitsOf oneBit → early.foldl (mixBit 0) P0 ≠ 0) ∧
      ssvgHashToCurve smallCurve oneBit = .ok finalP ∧ finalP ≠ 0 ∧
      ∀ x : Int, ¬ (3 : Int) ∣ x → ecMul smallCurve x (some finalP) ≠ 0 :=
  hashToCurve_usable smallCurve (by decide) (by decide) (by decide)

end Keyser.HashToCurve
