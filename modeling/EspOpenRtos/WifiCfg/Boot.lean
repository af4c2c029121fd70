/-
# Bringing up the interfaces

At every boot the configuration is read, checked once more and given to the
interfaces. Each interface can be told to stay off for a number of restarts; the
number is stored as a signed byte and counts down with each boot. The first time
the station connects after a boot, the access point may be turned off for the next
boot in the same way.
-/

import EspOpenRtos.Math.Runs
import EspOpenRtos.WifiCfg.Params

namespace EspOpenRtos.WifiCfg

open Math.CStrings Math.Runs

/-- The strings that the program provides for a device without configuration, with
the hardware address filled in. -/
structure Defaults where
  hostname : Option CString
  ssid : Option CString
  password : Option CString

/-- `sdk_station_config`, with the addresses of a station without DHCP. -/
structure StationConfig where
  ssid : List UInt8
  password : List UInt8
  address : Option (List UInt8 × List UInt8 × List UInt8)

/-- `sdk_softap_config`. -/
structure SoftapConfig where
  ssid : List UInt8
  password : List UInt8
  ssidHidden : UInt8
  channel : UInt8
  authmode : Int8
  maxConnection : UInt8
  beaconInterval : UInt16

/-- What `wificfg_init` does: the parameters it leaves, the interfaces of the
operating mode, the calls of `sdk_wifi_station_set_config` and
`sdk_wifi_softap_set_config`, and the leases and the name service of the DHCP
server. -/
structure Boot where
  params : Params
  staEnable : Bool
  apEnable : Bool
  station : Option StationConfig
  softap : Option SoftapConfig
  dhcp : Option (Int8 × Bool)

/-! ## `wificfg_init` -/

/-- A missing string is set to its default. -/
def setDefault (key : Key) (value : Option CString) (params : Params) : Params :=
  match params.getString key, value with
  | none, some v => params.setString key v.1
  | _, _ => params

/-- One restart of an interface that is to stay off. -/
def countRestart (key : Key) (enable : Int8) (params : Params) : Int8 × Params :=
  let restarts := (params.getInt8 key).getD 0
  if 0 < restarts then (0, params.setInt8 key (restarts - 1)) else (enable, params)

/-- The check of a name and a password. -/
def validCredentials (longest : ℕ) (ssid password : Option (List UInt8)) : Bool :=
  match ssid, password with
  | some ssid, some password =>
    1 ≤ ssid.length ∧ ssid.length ≤ longest ∧ 8 ≤ password.length ∧ password.length < 64
  | _, _ => false

/-- The default name of the access point, and its password if that is missing too. -/
def apDefaults (d : Defaults) (params : Params) : Params :=
  match params.getString .wifiApSsid, d.ssid with
  | none, some ssid => setDefault .wifiApPassword d.password (params.setString .wifiApSsid ssid.1)
  | _, _ => params

/-- The configuration of the station. -/
def stationConfig (params : Params) (ssid password : List UInt8) : StationConfig :=
  let dhcp := (params.getInt8 .wifiStaDhcp).getD 1
  let address := match params.getString .wifiStaIpAddr, params.getString .wifiStaNetmask,
      params.getString .wifiStaGateway with
    | some ip, some netmask, some gateway =>
      if dhcp = 0 ∧ 4 < ip.length ∧ 4 < netmask.length ∧ 4 < gateway.length then
        some (ip, netmask, gateway)
      else none
    | _, _, _ => none
  ⟨ssid, password, address⟩

def apChannel (params : Params) : Int8 :=
  let channel := (params.getInt8 .wifiApChannel).getD 6
  let channel := if channel > 13 then 13 else channel
  if channel < 1 ∨ channel > 14 then 6 else channel

def apAuthmode (params : Params) : Int8 :=
  let authmode := (params.getInt8 .wifiApAuthmode).getD 4
  if authmode ≠ 0 ∧ authmode ≠ 2 ∧ authmode ≠ 3 ∧ authmode ≠ 4 then 4 else authmode

def apMaxConn (params : Params) : Int8 :=
  let maxConn := (params.getInt8 .wifiApMaxConn).getD 3
  if maxConn < 1 ∨ maxConn > 8 then 3 else maxConn

def apBeaconInterval (params : Params) : Int32 :=
  let interval := (params.getInt32 .wifiApBeaconInterval).getD 100
  if interval < 0 ∨ interval > 1000 then 100 else interval

def apSsidHidden (params : Params) : Int8 :=
  let hidden := (params.getInt8 .wifiApSsidHidden).getD 0
  if hidden < 0 ∨ hidden > 1 then 1 else hidden

/-- The configuration of the access point. -/
def softapConfig (params : Params) (ssid password : List UInt8) : SoftapConfig where
  ssid
  password
  ssidHidden := (apSsidHidden params).toUInt8
  channel := (apChannel params).toUInt8
  authmode := apAuthmode params
  maxConnection := (apMaxConn params).toUInt8
  beaconInterval := UInt16.ofNat (apBeaconInterval params).toUInt32.toNat

/-- The DHCP server of the access point. -/
def apDhcp (params : Params) : Option (Int8 × Bool) :=
  let leases := (params.getInt8 .wifiApDhcpLeases).getD 4
  let dns := (params.getInt8 .wifiApDns).getD 1
  let dns := if dns < 0 ∨ dns > 1 then 1 else dns
  if leases ≠ 0 then some (leases, dns ≠ 0) else none

/-- The strings have the length of an address. -/
def apAddressed (params : Params) : Bool :=
  7 ≤ ((params.getString .wifiApIpAddr).getD []).length ∧
    7 ≤ ((params.getString .wifiApNetmask).getD []).length

/-- The addresses of an access point that has none. -/
def addressDefaults (params : Params) : Params :=
  setDefault .wifiApNetmask (some ⟨ascii "255.255.0.0", by decide⟩)
    (setDefault .wifiApIpAddr (some ⟨ascii "172.16.0.1", by decide⟩) params)

/-- `wificfg_init`. -/
def wificfgInit (d : Defaults) (params : Params) : Boot :=
  let params := setDefault .hostname d.hostname params
  let staSsid := params.getString .wifiStaSsid
  let staPassword := params.getString .wifiStaPassword
  let sta := countRestart .wifiStaDisabledRestarts ((params.getInt8 .wifiStaEnable).getD 1) params
  let ap := countRestart .wifiApDisabledRestarts ((params.getInt8 .wifiApEnable).getD 1) sta.2
  let staEnable : Bool := sta.1 ≠ 0 && validCredentials 32 staSsid staPassword
  let params := if ap.1 ≠ 0 then apDefaults d ap.2 else ap.2
  let apSsid := params.getString .wifiApSsid
  let apPassword := params.getString .wifiApPassword
  let apEnable : Bool := ap.1 ≠ 0 && validCredentials 31 apSsid apPassword
  let station :=
    if staEnable then some (stationConfig params (staSsid.getD []) (staPassword.getD [])) else none
  let params := if apEnable then addressDefaults params else params
  let addressed := apEnable && apAddressed params
  { params, staEnable, apEnable, station
    softap :=
      if addressed then some (softapConfig params (apSsid.getD []) (apPassword.getD [])) else none
    dhcp := if addressed then apDhcp params else none }

/-! ## Between boots -/

/-- A running device: its parameters, and the variable that remembers whether the
connection of the station was noted since the boot. -/
structure Device where
  params : Params
  gotStaConnect : Bool

/-- `wificfg_got_sta_connect`. -/
def gotStaConnect (dev : Device) : Device :=
  if dev.gotStaConnect then dev
  else
    let params := dev.params
    if (params.getInt8 .wifiApEnable).getD 1 = 0 then ⟨params, true⟩
    else if (params.getInt8 .wifiApDisableIfSta).getD 1 ≠ 0 ∧
        (params.getInt8 .wifiApDisabledRestarts).getD 0 = 0 then
      ⟨params.setInt8 .wifiApDisabledRestarts 1, true⟩
    else ⟨params, true⟩

inductive Event where
  | boot
  | staConnect
deriving DecidableEq

def Event.apply (d : Defaults) (dev : Device) : Event → Device
  | .boot => ⟨(wificfgInit d dev.params).params, false⟩
  | .staConnect => WifiCfg.gotStaConnect dev

/-- The device after some events. -/
def after (d : Defaults) (dev : Device) (events : List Event) : Device :=
  run (Event.apply d) dev events

/-- The number of boots. -/
def boots (events : List Event) : ℕ := events.count .boot

/-- The boot that follows some events. -/
def nextBoot (d : Defaults) (dev : Device) (events : List Event) : Boot :=
  wificfgInit d (after d dev events).params

/-! ## Keys that a boot leaves alone -/

section Keys

variable {d : Defaults} {params : Params} {key k : Key}

theorem getInt8_congr {p q : Params} (h : p k = q k) : p.getInt8 k = q.getInt8 k := by
  rw [Params.getInt8, Params.getInt8, h]

theorem getString_congr {p q : Params} (h : p k = q k) : p.getString k = q.getString k := by
  rw [Params.getString, Params.getString, h]

theorem setString_congr {p q : Params} (h : p k = q k) (value : List UInt8) :
    p.setString key value k = q.setString key value k := by
  by_cases hk : k = key
  · rw [hk, Params.setString_self, Params.setString_self]
  · rw [Params.setString_of_ne hk, Params.setString_of_ne hk, h]

theorem setDefault_congr {p q : Params} (hkey : p key = q key) (h : p k = q k)
    (value : Option CString) : setDefault key value p k = setDefault key value q k := by
  unfold setDefault
  rw [getString_congr hkey]
  cases q.getString key with
  | some v => exact h
  | none =>
    cases value with
    | none => exact h
    | some v => exact setString_congr h v.1

/-- The defaults of the access point depend on its name and password only. -/
theorem apDefaults_congr {p q : Params} (hssid : p .wifiApSsid = q .wifiApSsid)
    (hpassword : p .wifiApPassword = q .wifiApPassword) (h : p k = q k) :
    apDefaults d p k = apDefaults d q k := by
  unfold apDefaults
  rw [getString_congr hssid]
  cases q.getString .wifiApSsid with
  | some v => exact h
  | none =>
    cases d.ssid with
    | none => exact h
    | some v => exact setDefault_congr (setString_congr hpassword v.1) (setString_congr h v.1) _

theorem setDefault_of_ne (hne : k ≠ key) (value : Option CString) :
    setDefault key value params k = params k := by
  unfold setDefault
  cases params.getString key with
  | some v => rfl
  | none =>
    cases value with
    | none => rfl
    | some v => exact Params.setString_of_ne hne _

theorem countRestart_of_ne (hne : k ≠ key) (enable : Int8) :
    (countRestart key enable params).2 k = params k := by
  unfold countRestart
  dsimp only
  split
  · exact Params.setInt8_of_ne hne _
  · rfl

theorem apDefaults_of_ne (hssid : k ≠ .wifiApSsid) (hpassword : k ≠ .wifiApPassword) :
    apDefaults d params k = params k := by
  unfold apDefaults
  cases params.getString .wifiApSsid with
  | some v => rfl
  | none =>
    cases d.ssid with
    | none => rfl
    | some v =>
      dsimp only
      rw [setDefault_of_ne hpassword, Params.setString_of_ne hssid]

theorem gotStaConnect_of_ne {dev : Device} (hk : k ≠ .wifiApDisabledRestarts) :
    (gotStaConnect dev).params k = dev.params k := by
  unfold gotStaConnect
  dsimp only
  split_ifs
  · rfl
  · rfl
  · exact Params.setInt8_of_ne hk _
  · rfl

end Keys

/-! ## What a boot decides -/

section Decisions

variable (d : Defaults) (params : Params)

/-- The restarts for which an interface stays off. -/
def restarts (key : Key) : Int8 := (params.getInt8 key).getD 0

/-- The station is enabled and has credentials. -/
def staValid : Bool :=
  (params.getInt8 .wifiStaEnable).getD 1 ≠ 0 &&
    validCredentials 32 (params.getString .wifiStaSsid) (params.getString .wifiStaPassword)

/-- The access point is enabled and has credentials, with the defaults of the
program. -/
def apValid : Bool :=
  (params.getInt8 .wifiApEnable).getD 1 ≠ 0 &&
    validCredentials 31 ((apDefaults d params).getString .wifiApSsid)
      ((apDefaults d params).getString .wifiApPassword)

/-- The credentials in it. -/
def apCredentials : Bool :=
  validCredentials 31 ((apDefaults d params).getString .wifiApSsid)
    ((apDefaults d params).getString .wifiApPassword)

/-- The parameters behind the countdown of both interfaces. -/
def counted : Params :=
  (countRestart .wifiApDisabledRestarts 1
    (countRestart .wifiStaDisabledRestarts 1 (setDefault .hostname d.hostname params)).2).2

variable {params} in
theorem staValid_congr {p : Params}
    (h : ∀ k ∈ [Key.wifiStaEnable, .wifiStaSsid, .wifiStaPassword], p k = params k) :
    staValid p = staValid params := by
  rw [staValid, getInt8_congr (h _ (by decide)), getString_congr (h _ (by decide)),
    getString_congr (h _ (by decide)), staValid]

variable {params} in
theorem apCredentials_congr {p : Params} (hssid : p .wifiApSsid = params .wifiApSsid)
    (hpassword : p .wifiApPassword = params .wifiApPassword) :
    apCredentials d p = apCredentials d params := by
  rw [apCredentials, getString_congr (apDefaults_congr hssid hpassword hssid),
    getString_congr (apDefaults_congr hssid hpassword hpassword), apCredentials]

theorem countRestart_snd (key : Key) (e e' : Int8) :
    (countRestart key e params).2 = (countRestart key e' params).2 := by
  unfold countRestart
  dsimp only
  split <;> rfl

theorem countRestart_fst (key : Key) (e : Int8) :
    (countRestart key e params).1 = if 0 < restarts params key then 0 else e := by
  unfold countRestart restarts
  dsimp only
  split <;> rfl

variable {params} in
theorem counted_of_ne {k : Key} (hhost : k ≠ .hostname) (hsta : k ≠ .wifiStaDisabledRestarts)
    (hap : k ≠ .wifiApDisabledRestarts) : counted d params k = params k := by
  rw [counted, countRestart_of_ne hap, countRestart_of_ne hsta, setDefault_of_ne hhost]

/-- The access point is to be brought up if its credentials allow it. -/
def apOn : Bool :=
  !decide (0 < restarts params .wifiApDisabledRestarts) &&
    decide ((params.getInt8 .wifiApEnable).getD 1 ≠ 0)

/-- The parameters from which the access point is brought up. -/
def prepared : Params := if apOn params then apDefaults d (counted d params) else counted d params

theorem wificfgInit_staEnable :
    (wificfgInit d params).staEnable =
      (!decide (0 < restarts params .wifiStaDisabledRestarts) && staValid params) := by
  have hkey (k : Key) (hk : k ≠ .hostname) : setDefault .hostname d.hostname params k = params k :=
    setDefault_of_ne hk _
  rw [← staValid_congr fun k hk => hkey k (by rintro rfl; exact absurd hk (by decide))]
  unfold wificfgInit staValid
  dsimp only
  rw [countRestart_fst, restarts, restarts, getInt8_congr (hkey .wifiStaDisabledRestarts (by decide))]
  split <;> simp [*]

/-- The part of the boot that concerns the access point. -/
theorem wificfgInit_ap :
    let p := prepared d params
    let enable := apOn params &&
      validCredentials 31 (p.getString .wifiApSsid) (p.getString .wifiApPassword)
    let q := if enable then addressDefaults p else p
    (wificfgInit d params).apEnable = enable ∧ (wificfgInit d params).params = q ∧
      (wificfgInit d params).softap =
        if enable && apAddressed q then
          some (softapConfig q ((p.getString .wifiApSsid).getD [])
            ((p.getString .wifiApPassword).getD []))
        else none := by
  have hkey (k : Key) (hk : k ≠ .hostname) (hsta : k ≠ .wifiStaDisabledRestarts) (e : Int8) :
      (countRestart .wifiStaDisabledRestarts e (setDefault .hostname d.hostname params)).2 k =
        params k := by
    rw [countRestart_of_ne hsta, setDefault_of_ne hk]
  have hon (e : Int8) : (countRestart .wifiApDisabledRestarts
      (((setDefault .hostname d.hostname params).getInt8 .wifiApEnable).getD 1)
      (countRestart .wifiStaDisabledRestarts e
        (setDefault .hostname d.hostname params)).2).1 ≠ 0 ↔ apOn params = true := by
    rw [countRestart_fst, restarts, getInt8_congr (hkey _ (by decide) (by decide) e),
      getInt8_congr (setDefault_of_ne (by decide) _), apOn, restarts]
    split <;> simp [*]
  have hcounted (e e' : Int8) : (countRestart .wifiApDisabledRestarts e
      (countRestart .wifiStaDisabledRestarts e' (setDefault .hostname d.hostname params)).2).2 =
        counted d params := by
    rw [counted, countRestart_snd _ _ e 1, countRestart_snd _ _ e' 1]
  unfold wificfgInit prepared
  dsimp only
  simp only [hon, hcounted, Bool.decide_eq_true, and_self]

theorem wificfgInit_prepared {k : Key} (hip : k ≠ .wifiApIpAddr) (hmask : k ≠ .wifiApNetmask) :
    (wificfgInit d params).params k = prepared d params k := by
  rw [(wificfgInit_ap d params).2.1]
  split
  · rw [addressDefaults, setDefault_of_ne hmask, setDefault_of_ne hip]
  · rfl

/-- Behind the countdown a boot sets defaults of the access point only. -/
theorem wificfgInit_counted {k : Key}
    (hk : k ∉ [.wifiApSsid, .wifiApPassword, .wifiApIpAddr, .wifiApNetmask]) :
    (wificfgInit d params).params k = counted d params k := by
  simp only [List.mem_cons, List.not_mem_nil, or_false, not_or] at hk
  obtain ⟨hssid, hpassword, hip, hmask⟩ := hk
  rw [wificfgInit_prepared d params hip hmask, prepared]
  split
  · exact apDefaults_of_ne hssid hpassword
  · rfl

/-- The keys that a boot sets. -/
def bootKeys : List Key :=
  [.hostname, .wifiStaDisabledRestarts, .wifiApDisabledRestarts, .wifiApSsid, .wifiApPassword,
    .wifiApIpAddr, .wifiApNetmask]

variable {params} in
theorem wificfgInit_of_not_mem {k : Key} (hk : k ∉ bootKeys) :
    (wificfgInit d params).params k = params k := by
  simp only [bootKeys, List.mem_cons, not_or] at hk
  obtain ⟨hhost, hsta, hap, hrest⟩ := hk
  rw [wificfgInit_counted d params (by simpa using hrest), counted_of_ne d hhost hsta hap]

theorem counted_credentials : counted d params .wifiApSsid = params .wifiApSsid ∧
    counted d params .wifiApPassword = params .wifiApPassword :=
  ⟨counted_of_ne d (by decide) (by decide) (by decide),
    counted_of_ne d (by decide) (by decide) (by decide)⟩

theorem wificfgInit_apEnable :
    (wificfgInit d params).apEnable =
      (!decide (0 < restarts params .wifiApDisabledRestarts) && apValid d params) := by
  rw [(wificfgInit_ap d params).1, prepared, apValid, ← apCredentials]
  -- the defaults see the same name and password before and after the countdown
  obtain ⟨hssid, hpassword⟩ := counted_credentials d params
  cases hon : apOn params with
  | false =>
    rw [apOn] at hon
    rw [Bool.false_and, ← Bool.and_assoc, hon, Bool.false_and]
  | true =>
    rw [if_pos rfl, ← apCredentials, apCredentials_congr d hssid hpassword, ← Bool.and_assoc, ← apOn, hon]

/-- The countdown of one boot. -/
def oneLess (n : Int8) : Int8 := if 0 < n then n - 1 else n

theorem restarts_countRestart (key : Key) (e : Int8) :
    restarts (countRestart key e params).2 key = oneLess (restarts params key) := by
  unfold countRestart oneLess
  dsimp only
  rw [← restarts]
  split
  · rw [restarts, Params.getInt8_setInt8]
    rfl
  · rfl

theorem restarts_congr {p q : Params} {k : Key} (h : p k = q k) : restarts p k = restarts q k := by
  rw [restarts, getInt8_congr h, restarts]

theorem wificfgInit_restarts {k : Key}
    (hk : k ∈ [.wifiStaDisabledRestarts, .wifiApDisabledRestarts]) :
    restarts (wificfgInit d params).params k = oneLess (restarts params k) := by
  simp only [List.mem_cons, List.not_mem_nil, or_false] at hk
  rcases hk with rfl | rfl
  · rw [restarts_congr (wificfgInit_counted d params (by decide)), counted,
      restarts_congr (countRestart_of_ne (by decide) _), restarts_countRestart,
      restarts_congr (setDefault_of_ne (by decide) _)]
  · rw [restarts_congr (wificfgInit_counted d params (by decide)), counted, restarts_countRestart,
      restarts_congr (countRestart_of_ne (by decide) _), restarts_congr (setDefault_of_ne (by decide) _)]

variable {params d} in
theorem apDefaults_eq_self (h : params.getString .wifiApSsid ≠ none ∨ d.ssid = none) :
    apDefaults d params = params := by
  unfold apDefaults
  cases hssid : params.getString .wifiApSsid with
  | some v => rfl
  | none =>
    rw [h.resolve_left (not_not.mpr hssid)]

variable {params d} in
theorem getString_apDefaults {ssid : CString} (hnone : params.getString .wifiApSsid = none)
    (hssid : d.ssid = some ssid) :
    (apDefaults d params).getString .wifiApSsid = if ssid.1 = [] then none else some ssid.1 := by
  unfold apDefaults
  rw [hnone, hssid]
  dsimp only
  rw [getString_congr (setDefault_of_ne (by decide) _), Params.getString_setString]

/-- Setting the defaults of the access point once is enough. -/
theorem apCredentials_apDefaults :
    apCredentials d (apDefaults d params) = apCredentials d params := by
  unfold apCredentials
  by_cases hset : params.getString .wifiApSsid ≠ none ∨ d.ssid = none
  · rw [apDefaults_eq_self hset, apDefaults_eq_self hset]
  · obtain ⟨hnone, hsome⟩ := not_or.mp hset
    obtain ⟨ssid, hssid⟩ := Option.ne_none_iff_exists'.mp hsome
    have honce := getString_apDefaults (not_not.mp hnone) hssid
    by_cases hempty : ssid.1 = []
    · -- an empty default is no name, however often it is set
      rw [if_pos hempty] at honce
      have htwice := getString_apDefaults honce hssid
      rw [if_pos hempty] at htwice
      rw [honce, htwice]
      rfl
    · rw [if_neg hempty] at honce
      rw [apDefaults_eq_self (.inl (by rw [honce]; exact Option.some_ne_none _))]

theorem apValid_wificfgInit : apValid d (wificfgInit d params).params = apValid d params := by
  have henable : (wificfgInit d params).params .wifiApEnable = params .wifiApEnable :=
    wificfgInit_of_not_mem d (by decide)
  obtain ⟨hssid, hpassword⟩ := counted_credentials d params
  -- the credentials behind the boot are those of before, or the defaults
  obtain ⟨p, hp, hvalid⟩ : ∃ p : Params,
      ((wificfgInit d params).params .wifiApSsid = p .wifiApSsid ∧
        (wificfgInit d params).params .wifiApPassword = p .wifiApPassword) ∧
      apCredentials d p = apCredentials d params := by
    rw [wificfgInit_prepared d params (by decide) (by decide),
      wificfgInit_prepared d params (by decide) (by decide), prepared]
    split
    · refine ⟨apDefaults d params, ⟨?_, ?_⟩, apCredentials_apDefaults d params⟩
      · exact apDefaults_congr hssid hpassword hssid
      · exact apDefaults_congr hssid hpassword hpassword
    · exact ⟨params, ⟨hssid, hpassword⟩, rfl⟩
  rw [apValid, ← apCredentials, getInt8_congr henable, apCredentials_congr d hp.1 hp.2, hvalid]
  rfl

theorem staValid_wificfgInit : staValid (wificfgInit d params).params = staValid params := by
  refine staValid_congr fun k hk => wificfgInit_of_not_mem d ?_
  revert hk
  cases k <;> decide

end Decisions

end EspOpenRtos.WifiCfg
