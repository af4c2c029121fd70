/-
# Parameters

The configuration lives in the system parameters: a map from keys to strings and
small binary values. The calls are taken to succeed, so that a value that was set
is the one that is read; setting an empty value removes the key.
-/

import EspOpenRtos.Math.CStrings
import EspOpenRtos.Math.LittleEndian

namespace EspOpenRtos.WifiCfg

open Math Math.CStrings

/-- The keys that `wificfg.c` uses. -/
inductive Key where
  | cfgEnable | cfgPassword | hostname
  | wifiStaEnable | wifiStaDisabledRestarts | wifiStaSsid | wifiStaPassword | wifiStaDhcp
  | wifiStaIpAddr | wifiStaNetmask | wifiStaGateway | wifiStaMdns
  | wifiApEnable | wifiApDisableIfSta | wifiApDisabledRestarts | wifiApSsid | wifiApPassword
  | wifiApSsidHidden | wifiApChannel | wifiApAuthmode | wifiApMaxConn | wifiApBeaconInterval
  | wifiApIpAddr | wifiApNetmask | wifiApDhcpLeases | wifiApDns | wifiApMdns
deriving DecidableEq

structure Param where
  bytes : List UInt8
  isBinary : Bool
deriving DecidableEq

abbrev Params := Key → Option Param

namespace Params

variable (params : Params) (key : Key)

/-- `sysparam_set_data`. -/
def setData (bytes : List UInt8) (isBinary : Bool) : Params :=
  Function.update params key (if bytes = [] then none else some ⟨bytes, isBinary⟩)

/-- `sysparam_set_string`. -/
def setString (value : List UInt8) : Params := params.setData key value false

/-- `sysparam_set_int8`. -/
def setInt8 (value : Int8) : Params := params.setData key [value.toUInt8] true

/-- `sysparam_set_int32`. -/
def setInt32 (value : Int32) : Params :=
  params.setData key (LittleEndian.encode 4 value.toUInt32.toNat) true

/-- `sysparam_get_string`: the string that the caller gets to see. -/
def getString : Option (List UInt8) :=
  match params key with
  | some ⟨bytes, false⟩ => some (cstr bytes)
  | _ => none

/-- `sysparam_get_int8`. -/
def getInt8 : Option Int8 :=
  match params key with
  | some ⟨[b], true⟩ => some b.toInt8
  | _ => none

/-- `sysparam_get_int32`. -/
def getInt32 : Option Int32 :=
  match params key with
  | some ⟨bytes, true⟩ =>
    if bytes.length = 4 then some (UInt32.ofNat (LittleEndian.decode bytes)).toInt32 else none
  | _ => none

/-! ## Reading what was set -/

section Set

variable {params : Params} {key key' : Key}

@[simp]
theorem setData_of_ne (hne : key' ≠ key) (bytes : List UInt8) (isBinary : Bool) :
    params.setData key bytes isBinary key' = params key' := Function.update_of_ne hne _ _

@[simp]
theorem setString_of_ne (hne : key' ≠ key) (value : List UInt8) :
    params.setString key value key' = params key' := setData_of_ne hne _ _

@[simp]
theorem setInt8_of_ne (hne : key' ≠ key) (value : Int8) :
    params.setInt8 key value key' = params key' := setData_of_ne hne _ _

@[simp]
theorem setInt32_of_ne (hne : key' ≠ key) (value : Int32) :
    params.setInt32 key value key' = params key' := setData_of_ne hne _ _

@[simp]
theorem setData_self (bytes : List UInt8) (isBinary : Bool) :
    params.setData key bytes isBinary key =
      if bytes = [] then none else some ⟨bytes, isBinary⟩ := Function.update_self _ _ _

@[simp]
theorem setString_self (value : List UInt8) :
    params.setString key value key = if value = [] then none else some ⟨value, false⟩ :=
  setData_self _ _

@[simp]
theorem setInt8_self (value : Int8) :
    params.setInt8 key value key = some ⟨[value.toUInt8], true⟩ := setData_self _ _

@[simp]
theorem setInt32_self (value : Int32) : params.setInt32 key value key =
    some ⟨LittleEndian.encode 4 value.toUInt32.toNat, true⟩ := by
  rw [setInt32, setData_self, if_neg]
  intro h
  simpa using congrArg List.length h

theorem getString_setString (value : CString) :
    (params.setString key value.1).getString key =
      if value.1 = [] then none else some value.1 := by
  rw [getString, setString_self]
  split_ifs with h
  · rfl
  · dsimp only
    rw [cstr_of_not_mem value.2]

theorem getInt8_setInt8 (value : Int8) : (params.setInt8 key value).getInt8 key = some value := by
  rw [getInt8, setInt8_self]
  exact congrArg some (Int8.toInt8_toUInt8 value)

end Set

end Params

end EspOpenRtos.WifiCfg
