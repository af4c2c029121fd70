/-
# Posted forms

The handlers of posted forms store the fields they know, one after the other, as
they are read. Check boxes are not sent when they are not checked, so these values
are collected and stored only if the form was read to its end.
-/

import EspOpenRtos.Math.Runs
import EspOpenRtos.WifiCfg.Form
import EspOpenRtos.WifiCfg.Params

namespace EspOpenRtos.WifiCfg

open Math.CStrings Math.Runs

/-- `wificfg_content_type`. -/
inductive ContentType where
  | wwwFormUrlencoded
  | other
deriving DecidableEq

/-- `AUTH_MODE`, without the mode that the forms do not offer. -/
def AUTH_OPEN : ℕ := 0
def AUTH_WPA_PSK : ℕ := 2
def AUTH_WPA2_PSK : ℕ := 3
def AUTH_WPA_WPA2_PSK : ℕ := 4

/-- The value of a check box. -/
def checked (buf : List UInt8) : Bool := strtoul buf ≠ 0

/-- The parameter for a check box. -/
def flag (b : Bool) : Int8 := if b then 1 else 0

/-! ## The configuration password -/

/-- The fields of `handle_wificfg_index_post`. -/
def indexField (name : FormName) (buf : List UInt8) (params : Params) : Params :=
  match name with
  | .cfgEnable => params.setInt8 .cfgEnable (flag (checked buf))
  | .cfgPassword => params.setString .cfgPassword buf
  | _ => params

/-- `handle_wificfg_index_post`. -/
def handleWificfgIndexPost (contentLength : ℕ) (contentType : ContentType) (s : Socket)
    (params : Params) : Params :=
  if contentType ≠ .wwwFormUrlencoded then params
  else formLoop indexField false contentLength s params

/-- The fields of `handle_wificfg_challenge_post`. -/
def challengeField (password : List UInt8) (name : FormName) (buf : List UInt8)
    (params : Params) : Params :=
  match name with
  | .cfgPassword => if password = buf then params.setInt8 .cfgEnable 1 else params
  | _ => params

/-- `handle_wificfg_challenge_post`. -/
def handleWificfgChallengePost (contentLength : ℕ) (contentType : ContentType) (s : Socket)
    (params : Params) : Params :=
  if contentType ≠ .wwwFormUrlencoded then params
  else
    let enable := (params.getInt8 .cfgEnable).getD 1
    match params.getString .cfgPassword with
    | some password =>
      if enable = 0 ∧ password ≠ [] then
        formLoop (challengeField password) false contentLength s params
      else params
    | none => params

/-! ## The station -/

/-- The variables of `handle_wifi_station_post`. -/
structure StationForm where
  params : Params
  done : Bool
  staEnable : Bool
  mdnsEnable : Bool

/-- The fields of `handle_wifi_station_post`. -/
def stationField (name : FormName) (buf : List UInt8) (form : StationForm) : StationForm :=
  match name with
  | .staEnable => { form with staEnable := checked buf }
  | .staDisabledRestarts =>
    let restarts := strtoul buf
    if restarts ≤ 255 then
      { form with params := form.params.setInt8 .wifiStaDisabledRestarts (.ofNat restarts) }
    else form
  | .staSsid => { form with params := form.params.setString .wifiStaSsid buf }
  | .staPassword => { form with params := form.params.setString .wifiStaPassword buf }
  | .hostname => { form with params := form.params.setString .hostname buf }
  | .staDhcp => { form with params := form.params.setInt8 .wifiStaDhcp (flag (checked buf)) }
  | .staIpAddr => { form with params := form.params.setString .wifiStaIpAddr buf }
  | .staNetmask => { form with params := form.params.setString .wifiStaNetmask buf }
  | .staGateway => { form with params := form.params.setString .wifiStaGateway buf }
  | .staMdns => { form with mdnsEnable := checked buf }
  | .done => { form with done := true }
  | _ => form

/-- The end of `handle_wifi_station_post`. -/
def StationForm.commit (form : StationForm) : Params :=
  if form.done then
    (form.params.setInt8 .wifiStaEnable (flag form.staEnable)).setInt8 .wifiStaMdns
      (flag form.mdnsEnable)
  else form.params

/-- `handle_wifi_station_post`. -/
def handleWifiStationPost (contentLength : ℕ) (contentType : ContentType) (s : Socket)
    (params : Params) : Params :=
  if contentType ≠ .wwwFormUrlencoded then params
  else (formLoop stationField false contentLength s ⟨params, false, false, false⟩).commit

/-! ## The access point -/

/-- The variables of `handle_wifi_ap_post`. -/
structure ApForm where
  params : Params
  done : Bool
  apEnable : Bool
  apDisableIfSta : Bool
  ssidHidden : Bool
  dnsEnable : Bool
  mdnsEnable : Bool

/-- The fields of `handle_wifi_ap_post`. -/
def apField (name : FormName) (buf : List UInt8) (form : ApForm) : ApForm :=
  match name with
  | .apEnable => { form with apEnable := checked buf }
  | .apDisableIfSta => { form with apDisableIfSta := checked buf }
  | .apDisabledRestarts =>
    let restarts := strtoul buf
    if restarts ≤ 255 then
      { form with params := form.params.setInt8 .wifiApDisabledRestarts (.ofNat restarts) }
    else form
  | .apSsid => { form with params := form.params.setString .wifiApSsid buf }
  | .apPassword => { form with params := form.params.setString .wifiApPassword buf }
  | .apSsidHidden => { form with ssidHidden := checked buf }
  | .apChannel =>
    let channel := strtoul buf
    if channel ≥ 1 ∧ channel ≤ 14 then
      { form with params := form.params.setInt8 .wifiApChannel (.ofNat channel) }
    else form
  | .apAuthmode =>
    let mode := strtoul buf
    if mode = AUTH_OPEN ∨ mode = AUTH_WPA_PSK ∨ mode = AUTH_WPA2_PSK ∨
        mode = AUTH_WPA_WPA2_PSK then
      { form with params := form.params.setInt8 .wifiApAuthmode (.ofNat mode) }
    else form
  | .apMaxConn =>
    let maxConn := strtoul buf
    if maxConn ≤ 8 then
      { form with params := form.params.setInt8 .wifiApMaxConn (.ofNat maxConn) }
    else form
  | .apBeaconInterval =>
    let interval := strtoul buf
    if interval ≤ 10000 then
      { form with params := form.params.setInt32 .wifiApBeaconInterval (.ofNat interval) }
    else form
  | .apIpAddr => { form with params := form.params.setString .wifiApIpAddr buf }
  | .apNetmask => { form with params := form.params.setString .wifiApNetmask buf }
  | .apDhcpLeases =>
    let leases := strtoul buf
    if leases ≤ 16 then
      { form with params := form.params.setInt8 .wifiApDhcpLeases (.ofNat leases) }
    else form
  | .apDns => { form with dnsEnable := checked buf }
  | .apMdns => { form with mdnsEnable := checked buf }
  | .done => { form with done := true }
  | _ => form

/-- The end of `handle_wifi_ap_post`. -/
def ApForm.commit (form : ApForm) : Params :=
  if form.done then
    ((((form.params.setInt8 .wifiApEnable (flag form.apEnable)).setInt8 .wifiApDisableIfSta
      (flag form.apDisableIfSta)).setInt8 .wifiApSsidHidden (flag form.ssidHidden)).setInt8
        .wifiApDns (flag form.dnsEnable)).setInt8 .wifiApMdns (flag form.mdnsEnable)
  else form.params

/-- `handle_wifi_ap_post`. -/
def handleWifiApPost (contentLength : ℕ) (contentType : ContentType) (s : Socket)
    (params : Params) : Params :=
  if contentType ≠ .wwwFormUrlencoded then params
  else
    (formLoop apField false contentLength s
      ⟨params, false, false, false, false, false, false⟩).commit

/-! ## What a form stores -/

/-- What a field of the form leaves under a key: `none` if it does not touch it. -/
def fieldWrites {σ : Type} (onField : FormName → List UInt8 → σ → σ) (params : σ → Params)
    (key : Key) (writes : FormName × List UInt8 → Option (Option Param)) : Prop :=
  ∀ name buf form, params (onField name buf form) key =
    (writes (name, buf)).getD (params form key)

/-- After the form a key holds what the last field that writes it has left. -/
theorem formLoop_params {σ : Type} {onField : FormName → List UInt8 → σ → σ}
    {params : σ → Params} {key : Key} {writes : FormName × List UInt8 → Option (Option Param)}
    (h : fieldWrites onField params key writes) (valp : Bool) (rem : ℕ) (s : Socket) (form : σ) :
    params (formLoop onField valp rem s form) key =
      (((contentFields valp rem s).map seen).filterMap writes).getLast?.getD (params form key) := by
  rw [formLoop_eq_foldl]
  exact @run_last_write σ (FormName × List UInt8) (fun st f => onField f.1 f.2 st) _
    (fun st => params st key) writes (fun st f => h f.1 f.2 st) form _

/-! ## Conforming bodies -/

section Handlers

variable (fields : List Field) (s : Socket) (params : Params)

/-- The parameters after the station form was posted. -/
def stationPosted : Params :=
  handleWifiStationPost (body fields).length .wwwFormUrlencoded ((body fields).map some ++ s) params

/-- The parameters after the access point form was posted. -/
def apPosted : Params :=
  handleWifiApPost (body fields).length .wwwFormUrlencoded ((body fields).map some ++ s) params

theorem stationPosted_foldl : stationPosted fields s params =
    ((fields.map Field.seen).foldl (fun form f => stationField f.1 f.2 form)
      ⟨params, false, false, false⟩).commit := by
  rw [stationPosted, handleWifiStationPost, if_neg (by simp), formLoop_eq_foldl, seen_body]

theorem apPosted_foldl : apPosted fields s params =
    ((fields.map Field.seen).foldl (fun form f => apField f.1 f.2 form)
      ⟨params, false, false, false, false, false, false⟩).commit := by
  rw [apPosted, handleWifiApPost, if_neg (by simp), formLoop_eq_foldl, seen_body]

theorem stationPosted_eq {key : Key} {writes : FormName × List UInt8 → Option (Option Param)}
    (hwrites : fieldWrites stationField StationForm.params key writes)
    (hcommit : ∀ form : StationForm, form.commit key = form.params key) :
    stationPosted fields s params key =
      ((fields.map Field.seen).filterMap writes).getLast?.getD (params key) := by
  rw [stationPosted, handleWifiStationPost, if_neg (by simp), hcommit, formLoop_params hwrites,
    seen_body]

theorem apPosted_eq {key : Key} {writes : FormName × List UInt8 → Option (Option Param)}
    (hwrites : fieldWrites apField ApForm.params key writes)
    (hcommit : ∀ form : ApForm, form.commit key = form.params key) :
    apPosted fields s params key =
      ((fields.map Field.seen).filterMap writes).getLast?.getD (params key) := by
  rw [apPosted, handleWifiApPost, if_neg (by simp), hcommit, formLoop_params hwrites, seen_body]

end Handlers

/-- The keys of the check boxes are the only ones that are stored at the end. -/
theorem StationForm.commit_eq (form : StationForm) {key : Key} (henable : key ≠ .wifiStaEnable)
    (hmdns : key ≠ .wifiStaMdns) : form.commit key = form.params key := by
  rw [commit]
  split <;> simp [henable, hmdns]

theorem ApForm.commit_eq (form : ApForm) {key : Key}
    (hkey : key ∉ [.wifiApEnable, .wifiApDisableIfSta, .wifiApSsidHidden, .wifiApDns,
      .wifiApMdns]) : form.commit key = form.params key := by
  simp only [List.mem_cons, List.not_mem_nil, or_false, not_or] at hkey
  obtain ⟨henable, hdisable, hhidden, hdns, hmdns⟩ := hkey
  rw [commit]
  split <;> simp [henable, hdisable, hhidden, hdns, hmdns]

/-! ## Kinds of fields -/

/-- A field that is stored as a string. -/
def stringWrite (name : FormName) (field : FormName × List UInt8) : Option (Option Param) :=
  if field.1 = name then some (if field.2 = [] then none else some ⟨field.2, false⟩) else none

/-- A field that is stored as a number if it passes its check. -/
def numberWrite (name : FormName) (accepts : ℕ → Prop) [DecidablePred accepts]
    (param : ℕ → Param) (field : FormName × List UInt8) : Option (Option Param) :=
  if field.1 = name ∧ accepts (strtoul field.2) then some (some (param (strtoul field.2)))
  else none

end EspOpenRtos.WifiCfg
