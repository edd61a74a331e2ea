import Keyser.Session
import Mathlib.Data.List.Induction

namespace Keyser.Startup
open Runs Hex PeerInfo Tokenizer Session

inductive Error where
  | invalidArgument
  | outOfRange
  deriving DecidableEq

def signed : Text → Bool × Text
  | '-' :: rest => (true,rest)
  | '+' :: rest => (false,rest)
  | text => (false,text)

def number (negative : Bool) (digits : Text) : Int :=
  if negative then -(Nat.ofDigitChars 10 digits 0 : Int) else Nat.ofDigitChars 10 digits 0

-- `none` where strtol converts nothing.
def strtol (text : Text) : Option Int :=
  let (negative,text) := signed (text.dropWhile isspace)
  let digits := text.takeWhile Char.isDigit
  if digits.isEmpty then none else some (number negative digits)

def InRange (n : Int) : Prop := -2147483648 ≤ n ∧ n ≤ 2147483647

instance (n : Int) : Decidable (InRange n) := inferInstanceAs (Decidable (_ ∧ _))

def stoi (text : Text) : Except Error Int :=
  match strtol text with
  | none => .error .invalidArgument
  | some n => if InRange n then .ok n else .error .outOfRange

-- The int is converted to the uint16_t of NetInterface's constructor.
def port (argv : List Text) : Except Error UInt16 :=
  match argv with
  | [_,text] => (stoi text).map UInt16.ofInt
  | _ => .ok 6000

def init {Address : Type} (argv : List Text) : Except Error (State Address) :=
  (port argv).map fun port => fresh ⟨"Unknown".toList,port⟩

-- A text that begins with a number.
structure Numeral where
  gap : Gap
  sign : Option Bool
  digits : Text
  decimals : digits.all Char.isDigit = true
  nonempty : digits ≠ []
  rest : Text
  stops : rest.head?.all (fun c => !c.isDigit) = true

def signText : Option Bool → Text
  | none => []
  | some true => ['-']
  | some false => ['+']

def Numeral.text (numeral : Numeral) : Text :=
  numeral.gap.val ++ (signText numeral.sign ++ (numeral.digits ++ numeral.rest))

def Numeral.value (numeral : Numeral) : Int := number (numeral.sign == some true) numeral.digits

-- What the command line comes to.
inductive Listens : List Text → Except Error UInt16 → Prop where
  | default (other : argv.length ≠ 2) : Listens argv (.ok 6000)
  | port (numeral : Numeral) (range : InRange numeral.value) (wraps : (listening.toNat : Int) = numeral.value % 65536) :
      Listens [name,numeral.text] (.ok listening)
  | outOfRange (numeral : Numeral) (out : ¬ InRange numeral.value) : Listens [name,numeral.text] (.error .outOfRange)
  | invalid (none : ∀ numeral : Numeral, numeral.text ≠ text) : Listens [name,text] (.error .invalidArgument)

theorem digit_plain {c : Char} (digit : c.isDigit = true) : isspace c = false ∧ c ≠ '-' ∧ c ≠ '+' := by
  rw [Char.isDigit_iff_toNat] at digit
  refine ⟨?_,?_,?_⟩
  · have other : c ≠ ' ' := by
      rintro rfl
      exact absurd digit (by decide)
    have range : ¬ c.toNat ≤ 13 := by
      have low : '0'.toNat = 48 := rfl
      omega
    simp [isspace,other,range]
  all_goals rintro rfl; exact absurd digit (by decide)

theorem signed_plain {c : Char} {rest : Text} (minus : c ≠ '-') (plus : c ≠ '+') :
    signed (c :: rest) = (false,c :: rest) := by
  unfold signed
  split
  · rename_i same
    exact absurd (List.head_eq_of_cons_eq same) minus
  · rename_i same
    exact absurd (List.head_eq_of_cons_eq same) plus
  · rfl

theorem signed_text (text : Text) :
    ∃ sign, signText sign ++ (signed text).2 = text ∧ (sign == some true) = (signed text).1 := by
  unfold signed
  split
  · exact ⟨some true,rfl,rfl⟩
  · exact ⟨some false,rfl,rfl⟩
  · exact ⟨none,rfl,rfl⟩

theorem takeWhile_digits (numeral : Numeral) :
    (numeral.digits ++ numeral.rest).takeWhile Char.isDigit = numeral.digits := by
  rw [List.takeWhile_append_of_pos (List.all_eq_true.mp numeral.decimals)]
  have stops := numeral.stops
  cases behind : numeral.rest with
  | nil => simp
  | cons c rest =>
      rw [behind] at stops
      have other : c.isDigit = false := by simpa using stops
      simp [other]

-- strtol reads the number that a text begins with.
theorem strtol_text (numeral : Numeral) : strtol numeral.text = some numeral.value := by
  obtain ⟨c,digits,isDigits⟩ := List.exists_cons_of_ne_nil numeral.nonempty
  have digit : c.isDigit = true := by
    have all := numeral.decimals
    rw [isDigits,List.all_cons,Bool.and_eq_true] at all
    exact all.1
  obtain ⟨space,minus,plus⟩ := digit_plain digit
  have read : signed ((signText numeral.sign ++ (numeral.digits ++ numeral.rest)).dropWhile isspace) =
      (numeral.sign == some true,numeral.digits ++ numeral.rest) := by
    rcases numeral.sign with _ | _ | _
    · rw [signText,List.nil_append,isDigits,List.cons_append,List.dropWhile_cons_of_neg (by simp [space])]
      exact signed_plain minus plus
    · rfl
    · rfl
  unfold strtol Numeral.text
  rw [List.dropWhile_append_of_pos numeral.gap.property,read]
  simp only [takeWhile_digits]
  rw [if_neg (by simpa using numeral.nonempty)]
  rfl

-- What is before the sign is white space, and behind the digits no digit follows.
theorem strtol_numeral (read : strtol text = some n) :
    ∃ numeral : Numeral, numeral.text = text ∧ numeral.value = n := by
  obtain ⟨sign,signs,negative⟩ := signed_text (text.dropWhile isspace)
  unfold strtol at read
  simp only [List.isEmpty_iff] at read
  split at read <;> cases read
  rename_i nonempty
  refine ⟨⟨⟨text.takeWhile isspace,List.all_eq_true.mp List.all_takeWhile⟩,sign,_,?_,nonempty,
    (signed (text.dropWhile isspace)).2.dropWhile Char.isDigit,?_⟩,?_,?_⟩
  · exact List.all_takeWhile
  · have stops := List.head?_dropWhile_not Char.isDigit (signed (text.dropWhile isspace)).2
    cases behind : ((signed (text.dropWhile isspace)).2.dropWhile Char.isDigit).head? with
    | none => rfl
    | some c =>
        rw [behind] at stops
        simpa using stops
  · dsimp only [Numeral.text]
    rw [List.takeWhile_append_dropWhile,signs,List.takeWhile_append_dropWhile]
  · exact congrArg (number · _) negative

theorem ofInt_value (n : Int) : ((UInt16.ofInt n).toNat : Int) = n % 65536 := by
  have low := Int.emod_nonneg n (by decide : (65536 : Int) ≠ 0)
  have high := Int.emod_lt_of_pos n (by decide : (0 : Int) < 65536)
  rw [UInt16.ofInt,UInt16.toNat_ofNat']
  omega

theorem port_numeral (numeral : Numeral) : port [name,numeral.text] =
    if InRange numeral.value then .ok (UInt16.ofInt numeral.value) else .error .outOfRange := by
  simp only [port,stoi,strtol_text]
  split <;> rfl

theorem port_listens (argv : List Text) : Listens argv (port argv) := by
  match argv with
  | [] | [_] | _ :: _ :: _ :: _ => exact .default (by simp)
  | [name,text] =>
      cases read : strtol text with
      | none =>
          simp only [port,stoi,read]
          refine .invalid fun numeral same => ?_
          rw [← same,strtol_text] at read
          cases read
      | some n =>
          obtain ⟨numeral,rfl,rfl⟩ := strtol_numeral read
          rw [port_numeral]
          split
          · exact .port numeral (by assumption) (ofInt_value _)
          · exact .outOfRange numeral (by assumption)

-- The command lines, and the port handed to the acceptor for each.
theorem port_iff (argv : List Text) (result : Except Error UInt16) : port argv = result ↔ Listens argv result := by
  constructor
  · rintro rfl
    exact port_listens argv
  · intro listens
    cases listens with
    | default other =>
        match argv with
        | [] | [_] | _ :: _ :: _ :: _ => rfl
        | [_,_] => exact absurd rfl other
    | port numeral range wraps =>
        rw [port_numeral,if_pos range]
        congr 1
        rw [← UInt16.toNat_inj,← Int.ofNat_inj,ofInt_value,wraps]
    | outOfRange numeral out => rw [port_numeral,if_neg out]
    | invalid none =>
        rename_i text _
        cases read : strtol text with
        | none => simp only [port,stoi,read]; rfl
        | some n =>
            obtain ⟨numeral,same,_⟩ := strtol_numeral read
            exact absurd same (none numeral)

theorem decimal_digits (n : Nat) : (decimal n).all Char.isDigit = true :=
  List.all_eq_true.mpr fun _ => Nat.isDigit_of_mem_toDigits (by decide) (by decide)

-- A port in decimal digits, and what may follow them.
def portNumeral (listening : UInt16) (rest : Text) (stops : rest.head?.all (fun c => !c.isDigit) = true) : Numeral :=
  ⟨⟨[],fun _ member => absurd member List.not_mem_nil⟩,none,decimal listening.toNat,decimal_digits _,
    Nat.toDigits_ne_nil,rest,stops⟩

theorem port_decimal (listening : UInt16) (stops : rest.head?.all (fun c => !c.isDigit) = true) :
    port [name,decimal listening.toNat ++ rest] = .ok listening := by
  have value : (portNumeral listening rest stops).value = listening.toNat := by
    simp [portNumeral,Numeral.value,number,decimal]
  have small := listening.toNat_lt
  have range : InRange (portNumeral listening rest stops).value := by
    rw [value]
    unfold InRange
    omega
  have same : UInt16.ofInt listening.toNat = listening := by
    have wraps := ofInt_value listening.toNat
    rw [← UInt16.toNat_inj]
    omega
  change port [name,(portNumeral listening rest stops).text] = _
  rw [port_numeral,if_pos range,value,same]

variable {Address : Type} {toText : Address → Text} {listening : UInt16}

theorem then_grows (account : Account) (event : Event Address) :
    account.log <+: (account.then toText listening event).log := by
  cases event with
  | key ch header =>
      rw [Account.then]
      split
      · rw [enter_log]
        exact List.prefix_append _ _
      · exact List.prefix_rfl
  | enlist | network => exact List.prefix_rfl
  | started | greet | approve => exact List.prefix_append _ _

theorem announcement_mem (returned : Event.started ∈ events) :
    announcement listening ∈ (account toText listening events).log := by
  induction events using List.reverseRecOn with
  | nil => cases returned
  | append_singleton events event ih =>
      rw [account_snoc]
      rcases List.mem_append.mp returned with early | now
      · exact (then_grows _ event).subset (ih early)
      · obtain rfl := List.mem_singleton.mp now
        simp [Account.then]

variable [DecidableEq Address] {checked : Bool} {makeAddress : Text → Option Address} {s : CommandLine.Program Address}

-- The port of the command line is the one that /startserver reports, however the session goes.
theorem announced (stops : rest.head?.all (fun c => !c.isDigit) = true)
    (started : init [name,decimal listening.toNat ++ rest] = .ok start)
    (ran : run (step checked makeAddress toText) start events = some state) (shown : state.program = some s)
    (returned : Event.started ∈ events) : announcement listening ∈ s.menu.mLog := by
  rw [init,port_decimal listening stops] at started
  cases started
  rw [(program_explained (run_accounted ⟨"Unknown".toList,listening⟩ events ran) shown).log]
  exact announcement_mem returned

end Keyser.Startup
