import Keyser.Hex
import Keyser.Runs
import Mathlib.Data.List.AList
import Mathlib.Data.Finset.Dedup
import Mathlib.Data.Finset.Card

namespace Keyser.WalletStore
open Hex Runs

-- The private key of the constructor is used by nothing but a comment.
structure Account where
  _name : Text := []
  deriving DecidableEq

def Account.named (name : Text) : Account := { _name := name }

def Account.imported (name _privateKey : Text) : Account := { _name := name }

def Account.getName (account : Account) : Text := account._name

-- std::unordered_map: no name has two entries.
abbrev Accounts := AList fun _ : Text => Account

-- operator[] gives the entry of a name, and makes one when there is none.
def subscript (accounts : Accounts) (name : Text) : Account × Accounts :=
  match accounts.lookup name with
  | some account => (account,accounts)
  | none => ({},accounts.insert name {})

structure Wallet where
  _accounts : Accounts

def importAccount (wallet : Wallet) (name privKey : Text) : Wallet :=
  let account := Account.imported name privKey
  ⟨(subscript wallet._accounts name).2.insert name account⟩

def createAccount (wallet : Wallet) (name : Text) : Wallet :=
  let newAcc := Account.named name
  ⟨(subscript wallet._accounts name).2.insert name newAcc⟩

def get (wallet : Wallet) (name : Text) : Account × Wallet :=
  let (account,accounts) := subscript wallet._accounts name
  (account,⟨accounts⟩)

def count (wallet : Wallet) : Nat := wallet._accounts.entries.length

def constructed (privKey1 privKey2 : Text) : Wallet :=
  importAccount (importAccount ⟨∅⟩ "AJ".toList privKey1) "Guy".toList privKey2

inductive Call where
  | importAccount (name privKey : Text)
  | createAccount (name : Text)
  | get (name : Text)
  deriving DecidableEq

-- `names` remembers what was imported or created.
structure Session where
  wallet : Wallet
  names : List Text

def step (s : Session) : Call → Option Session
  | .importAccount name privKey => some ⟨importAccount s.wallet name privKey,name :: s.names⟩
  | .createAccount name => some ⟨createAccount s.wallet name,name :: s.names⟩
  | .get name => some {s with wallet := (get s.wallet name).2}

def started (privKey1 privKey2 : Text) : Session :=
  ⟨constructed privKey1 privKey2,["Guy".toList,"AJ".toList]⟩

structure Stored (s : Session) : Prop where
  named : ∀ entry ∈ s.wallet._accounts.entries, entry.2.getName = entry.1
  counted : count s.wallet = s.names.toFinset.card

-- A lookup leaves the names of the accounts, and each name's account, as they are.
def Unchanged (s : Session) : Call → Prop
  | .get name => (get s.wallet name).2 = s.wallet
  | _ => True

-- Only names that were imported or created are looked up.
def Known (s : Session) : Call → Prop
  | .get name => name ∈ s.names
  | _ => True

structure StoreInvariant (s : Session) (calls : List Call) : Prop where
  stored : Throughout step Stored s calls
  lookups : Along step Unchanged s calls

def Tracked (s : Session) : Prop := ∀ name, name ∈ s.wallet._accounts ↔ name ∈ s.names

theorem subscript_known (known : name ∈ accounts) : (subscript accounts name).2 = accounts := by
  obtain ⟨account,found⟩ := Option.isSome_iff_exists.mp (AList.lookup_isSome.mpr known)
  unfold subscript
  rw [found]

theorem subscript_unknown (unknown : name ∉ accounts) : subscript accounts name = ({},accounts.insert name {}) := by
  unfold subscript
  rw [AList.lookup_eq_none.mpr unknown]

-- The default account that operator[] makes is overwritten at once.
theorem subscript_insert (accounts : Accounts) (name : Text) (account : Account) :
    (subscript accounts name).2.insert name account = accounts.insert name account := by
  by_cases known : name ∈ accounts
  · rw [subscript_known known]
  · rw [subscript_unknown known]
    exact AList.insert_insert accounts

theorem count_names (tracked : Tracked s) : count s.wallet = s.names.toFinset.card := by
  have same : s.wallet._accounts.keys.toFinset = s.names.toFinset := by
    apply Finset.ext
    intro name
    rw [List.mem_toFinset,List.mem_toFinset,← AList.mem_keys]
    exact tracked name
  rw [← same,List.toFinset_card_of_nodup s.wallet._accounts.keys_nodup]
  simp [count,AList.keys,List.keys]

theorem insert_named {accounts : Accounts} (named : ∀ entry ∈ accounts.entries, entry.2.getName = entry.1)
    (account : Account) (own : account.getName = name) :
    ∀ entry ∈ (accounts.insert name account).entries, entry.2.getName = entry.1 := by
  intro entry member
  rw [AList.entries_insert] at member
  rcases List.mem_cons.mp member with rfl | other
  · exact own
  · exact named entry ((List.kerase_sublist name accounts.entries).subset other)

theorem insert_tracked {wallet : Wallet} (tracked : Tracked ⟨wallet,names⟩) (account : Account) :
    Tracked ⟨⟨wallet._accounts.insert name account⟩,name :: names⟩ := by
  intro other
  rw [AList.mem_insert,List.mem_cons,← tracked other]

-- What a call does to a wallet that has exactly the names of the list.
theorem step_cases (stepped : step s call = some next) :
    (∃ name account, account.getName = name ∧
      next = ⟨⟨s.wallet._accounts.insert name account⟩,name :: s.names⟩ ∧ ∀ other, call ≠ .get other) ∨
    (∃ name, call = .get name ∧ next = {s with wallet := (get s.wallet name).2}) := by
  cases call with
  | importAccount name privKey =>
      left
      refine ⟨name,Account.imported name privKey,rfl,?_,by simp⟩
      rw [← subscript_insert]
      exact (Option.some.inj stepped).symm
  | createAccount name =>
      left
      refine ⟨name,Account.named name,rfl,?_,by simp⟩
      rw [← subscript_insert]
      exact (Option.some.inj stepped).symm
  | get name =>
      right
      exact ⟨name,rfl,(Option.some.inj stepped).symm⟩

theorem get_known (tracked : Tracked s) (known : name ∈ s.names) : (get s.wallet name).2 = s.wallet := by
  have found := (tracked name).mpr known
  unfold get
  dsimp only
  rw [subscript_known found]

theorem get_unknown (tracked : Tracked s) (unknown : name ∉ s.names) :
    count (get s.wallet name).2 = count s.wallet + 1 := by
  have absent : name ∉ s.wallet._accounts := fun member => unknown ((tracked name).mp member)
  unfold get count
  dsimp only
  rw [subscript_unknown absent]
  dsimp only
  rw [AList.entries_insert_of_notMem absent,List.length_cons]

theorem step_stored (tracked : Tracked s) (stored : Stored s) (stepped : step s call = some next) :
    Stored next ↔ Known s call := by
  rcases step_cases stepped with ⟨name,account,own,rfl,other⟩ | ⟨name,rfl,rfl⟩
  · have known : Known s call := by
      cases call with
      | get name => exact absurd rfl (other name)
      | importAccount | createAccount => trivial
    refine iff_of_true ⟨insert_named stored.named account own,?_⟩ known
    exact count_names (insert_tracked tracked account)
  · constructor
    · intro after
      unfold Known
      by_contra unknown
      have more := get_unknown tracked unknown
      have counted := after.counted
      dsimp only at counted
      rw [more,stored.counted] at counted
      omega
    · intro known
      rw [get_known tracked known]
      exact stored

theorem step_tracked (tracked : Tracked s) (known : Known s call) (stepped : step s call = some next) :
    Tracked next := by
  rcases step_cases stepped with ⟨name,account,own,rfl,other⟩ | ⟨name,rfl,rfl⟩
  · exact insert_tracked tracked account
  · rw [get_known tracked known]
    exact tracked

theorem known_unchanged (tracked : Tracked s) (known : Known s call) : Unchanged s call := by
  cases call with
  | get name => exact get_known tracked known
  | importAccount | createAccount => trivial

theorem started_tracked (privKey1 privKey2 : Text) : Tracked (started privKey1 privKey2) := by
  intro name
  unfold started constructed importAccount
  simp only [subscript_insert,AList.mem_insert,List.mem_cons,List.not_mem_nil,AList.notMem_empty]

theorem started_stored (privKey1 privKey2 : Text) : Stored (started privKey1 privKey2) := by
  refine ⟨?_,count_names (started_tracked privKey1 privKey2)⟩
  unfold started constructed importAccount
  simp only [subscript_insert]
  apply insert_named _ _ rfl
  apply insert_named _ _ rfl
  intro entry member
  cases member

theorem storeInvariant_iff (privKey1 privKey2 : Text) (calls : List Call) :
    StoreInvariant (started privKey1 privKey2) calls ↔ Along step Known (started privKey1 privKey2) calls := by
  have tracked := started_tracked privKey1 privKey2
  have decides : ∀ s call next, Tracked s → Stored s → step s call = some next → (Stored next ↔ Known s call) :=
    fun s call next tracked stored stepped => step_stored tracked stored stepped
  have kept : ∀ s call next, Tracked s → Stored s → step s call = some next → Stored next → Tracked next :=
    fun s call next tracked stored stepped after =>
      step_tracked tracked ((step_stored tracked stored stepped).mp after) stepped
  have exactly : Throughout step Stored (started privKey1 privKey2) calls ↔
      Along step Known (started privKey1 privKey2) calls :=
    throughout_iff decides kept tracked (started_stored privKey1 privKey2)
  constructor
  · intro invariant
    exact exactly.mp invariant.stored
  · intro known
    refine ⟨exactly.mpr known,known.mono ?_ ?_ tracked⟩
    · intro s call next tracked known stepped
      exact step_tracked tracked known stepped
    · intro s call tracked known
      exact known_unchanged tracked known

-- The lookup of a name that was never added leaves an account without a name behind.
theorem storeInvariant_fails : ¬ StoreInvariant (started [] []) [.get "Eve".toList] := by
  intro invariant
  have looked : step (started [] []) (.get "Eve".toList) = some _ := rfl
  have after := invariant.stored [.get "Eve".toList] _ (List.prefix_refl _) rfl
  have known : "Eve".toList ∈ ["Guy".toList,"AJ".toList] :=
    (step_stored (started_tracked [] []) (started_stored [] []) looked).mp after
  exact absurd known (by decide)

end Keyser.WalletStore
