import Keyser.JsonValue
import Keyser.PeerInfo

namespace Keyser.InfoCodec
open Hex JsonValue PeerInfo

structure NodeInfo where
  version : Text := []
  services : Text := []
  endpoint : Endpoint
  deriving DecidableEq

inductive Direction where
  | outbound
  | inbound
  deriving DecidableEq

-- `none` is a member that the constructor does not write.
structure PeerInfo extends NodeInfo where
  id : Option UInt16 := none
  direction : Option Direction := none
  deriving DecidableEq

-- A key that operator[] adds to the copy has a null, and no conversion takes one.
def readInfo (wild : Option Extended → UInt16) (json : Json) : Option NodeInfo := do
  let version ← (← json.subscript "version".toList).getString
  let address ← (← json.subscript "address".toList).getString
  let port ← (← json.subscript "port".toList).toUInt16 wild
  return { version := version, endpoint := ⟨address,port⟩ }

-- Three assignments to a null; the members are in the order of their keys.
def writeInfo (info : NodeInfo) : Json :=
  .object [("address".toList,.string info.endpoint.address),
    ("port".toList,.unsigned info.endpoint.port.toUInt64),("version".toList,.string info.version)]

def NodeInfo.ofJson (wild : Option Extended → UInt16) (json : Json) : Option NodeInfo := readInfo wild json

def NodeInfo.json (info : NodeInfo) : Json := writeInfo info

def PeerInfo.ofJson (wild : Option Extended → UInt16) (json : Json) : Option PeerInfo :=
  (readInfo wild json).map fun info => { toNodeInfo := info }

def PeerInfo.json (info : PeerInfo) : Json := writeInfo info.toNodeInfo

def RoundTrips (wild : Option Extended → UInt16) (n : NodeInfo) : Prop :=
  ∃ back, NodeInfo.ofJson wild n.json = some back ∧ back.version = n.version ∧
    back.services = n.services ∧ back.endpoint.address = n.endpoint.address ∧ back.endpoint.port = n.endpoint.port

def keys : List Text := ["version".toList,"address".toList,"port".toList]

def Kept (written read : Json) : Prop :=
  ∀ key ∈ keys, ∃ a b, written.subscript key = some a ∧ read.subscript key = some b ∧ a.Equal b

structure KeepsValues (wild : Option Extended → UInt16) (json : Json) : Prop where
  node : ∀ n, NodeInfo.ofJson wild json = some n → Kept n.json json
  peer : ∀ p, PeerInfo.ofJson wild json = some p → Kept p.json json

-- No conversion raises: two strings, and a number or a boolean.
def Converts (json : Json) : Prop :=
  ∃ version address port, json.subscript "version".toList = some (.string version) ∧
    json.subscript "address".toList = some (.string address) ∧
    json.subscript "port".toList = some port ∧ port.arithmetic = true

def PortExact (json : Json) : Prop :=
  ∃ port, json.subscript "port".toList = some port ∧ ∃ n : UInt16, port.number = some (.finite n.toNat)

theorem readInfo_some (read : readInfo wild json = some info) :
    ∃ port, json.subscript "version".toList = some (.string info.version) ∧
      json.subscript "address".toList = some (.string info.endpoint.address) ∧
      json.subscript "port".toList = some port ∧ port.toUInt16 wild = some info.endpoint.port := by
  unfold readInfo at read
  obtain ⟨version,readVersion,read⟩ := Option.bind_eq_some_iff.mp read
  obtain ⟨versionText,isVersion,read⟩ := Option.bind_eq_some_iff.mp read
  obtain ⟨address,readAddress,read⟩ := Option.bind_eq_some_iff.mp read
  obtain ⟨addressText,isAddress,read⟩ := Option.bind_eq_some_iff.mp read
  obtain ⟨port,readPort,read⟩ := Option.bind_eq_some_iff.mp read
  obtain ⟨number,isNumber,read⟩ := Option.bind_eq_some_iff.mp read
  cases Option.some.inj read
  rw [getString_some isVersion] at readVersion
  rw [getString_some isAddress] at readAddress
  exact ⟨port,readVersion,readAddress,readPort,isNumber⟩

theorem readInfo_of {json : Json} (version : json.subscript "version".toList = some (.string versionText))
    (address : json.subscript "address".toList = some (.string addressText))
    (port : json.subscript "port".toList = some portJson) (cast : portJson.toUInt16 wild = some number) :
    readInfo wild json = some { version := versionText, endpoint := ⟨addressText,number⟩ } := by
  unfold readInfo
  simp only [version,address,port,cast,Option.bind_eq_bind,Option.bind_some,Json.getString]
  rfl

theorem writeInfo_subscripts (info : NodeInfo) :
    (writeInfo info).subscript "version".toList = some (.string info.version) ∧
    (writeInfo info).subscript "address".toList = some (.string info.endpoint.address) ∧
    (writeInfo info).subscript "port".toList = some (.unsigned info.endpoint.port.toUInt64) :=
  ⟨rfl,rfl,rfl⟩

theorem roundTrips_services (wild : Option Extended → UInt16) (n : NodeInfo) : RoundTrips wild n ↔ n.services = [] := by
  obtain ⟨version,address,port⟩ := writeInfo_subscripts n
  have cast : (Json.unsigned n.endpoint.port.toUInt64).toUInt16 wild = some n.endpoint.port :=
    toUInt16_number wild rfl
  have back := readInfo_of version address port cast
  unfold RoundTrips NodeInfo.ofJson NodeInfo.json
  rw [back]
  constructor
  · rintro ⟨other,same,_,services,_⟩
    cases same
    exact services.symm
  · intro none
    exact ⟨_,rfl,rfl,none.symm,rfl,rfl⟩

-- Of the three values only the port can change on the way.
theorem kept_port (read : readInfo wild json = some info) : Kept (writeInfo info) json ↔ PortExact json := by
  obtain ⟨port,readVersion,readAddress,readPort,cast⟩ := readInfo_some read
  obtain ⟨version,address,written⟩ := writeInfo_subscripts info
  constructor
  · intro kept
    obtain ⟨a,b,wroteA,readB,equal⟩ := kept "port".toList (by simp [keys])
    cases written.symm.trans wroteA
    cases readPort.symm.trans readB
    exact ⟨port,readPort,info.endpoint.port,(equal_unsigned _ _).mp equal⟩
  · rintro ⟨other,found,n,exactly⟩ key member
    cases readPort.symm.trans found
    cases cast.symm.trans (toUInt16_number wild exactly)
    simp only [keys,List.mem_cons,List.not_mem_nil,or_false] at member
    rcases member with rfl | rfl | rfl
    · exact ⟨_,_,version,readVersion,rfl⟩
    · exact ⟨_,_,address,readAddress,rfl⟩
    · exact ⟨_,_,written,readPort,(equal_unsigned _ _).mpr exactly⟩

theorem readInfo_converts (read : readInfo wild json = some info) : Converts json := by
  obtain ⟨port,version,address,readPort,cast⟩ := readInfo_some read
  exact ⟨_,_,port,version,address,readPort,(toUInt16_some wild port).mp ⟨_,cast⟩⟩

theorem keepsValues_port (wild : Option Extended → UInt16) (json : Json) :
    KeepsValues wild json ↔ (Converts json → PortExact json) := by
  constructor
  · rintro keeps ⟨version,address,port,readVersion,readAddress,readPort,arithmetic⟩
    obtain ⟨number,cast⟩ := (toUInt16_some wild port).mpr arithmetic
    have read := readInfo_of readVersion readAddress readPort cast
    exact (kept_port read).mp (keeps.node _ read)
  · intro exactly
    refine ⟨fun n read => ?_,fun p read => ?_⟩
    · exact (kept_port read).mpr (exactly (readInfo_converts read))
    · obtain ⟨info,readInfo,rfl⟩ := Option.map_eq_some_iff.mp read
      exact (kept_port readInfo).mpr (exactly (readInfo_converts readInfo))

theorem codec_iff (wild : Option Extended → UInt16) :
    (∀ n, RoundTrips wild n ↔ n.services = []) ∧
    (∀ json, KeepsValues wild json ↔ (Converts json → PortExact json)) :=
  ⟨roundTrips_services wild,keepsValues_port wild⟩

-- A node with services, and the port 70000 of another node.
def servedNode : NodeInfo := ⟨"1".toList,"relay".toList,⟨"10.0.0.1".toList,8333⟩⟩

def farPort : Json :=
  .object [("address".toList,.string "10.0.0.1".toList),("port".toList,.unsigned 70000),
    ("version".toList,.string "1".toList)]

theorem codec_fails : ¬ RoundTrips (fun _ => 0) servedNode ∧ ¬ KeepsValues (fun _ => 0) farPort := by
  constructor
  · intro trips
    have services := (roundTrips_services _ servedNode).mp trips
    cases services
  · intro keeps
    have converts : Converts farPort := ⟨_,_,_,rfl,rfl,rfl,rfl⟩
    obtain ⟨port,read,n,exactly⟩ := (keepsValues_port _ farPort).mp keeps converts
    have far : farPort.subscript "port".toList = some (.unsigned 70000) := rfl
    cases far.symm.trans read
    simp only [Json.number,Option.some.injEq,Extended.finite.injEq,Nat.cast_inj] at exactly
    have small := n.toNat_lt
    rw [← exactly] at small
    exact absurd small (by decide)

end Keyser.InfoCodec
