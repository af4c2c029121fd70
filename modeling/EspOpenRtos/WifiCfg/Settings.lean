/-
# Numeric settings

A number that a form posts is checked by its handler and stored, and checked again
when the device boots. The two checks differ, and the restarts of an interface are
stored in a signed byte. So a number that was accepted takes effect only if the
second check lets it pass, and an interface stays off for the posted restarts only
if there are at most 127. For the access point there is one more exception: the
connection of the station may turn it off for another boot.
-/

import EspOpenRtos.WifiCfg.Boot
import EspOpenRtos.WifiCfg.Posts

namespace EspOpenRtos.WifiCfg

open Math.CStrings Math.FormEncoding Math.Runs

/-! ## Accepted numbers -/

/-- The number was posted under a name, and no field behind it replaced it. -/
def Accepted (fields : List Field) (form : FormName) (accepts : ℕ → Prop) (n : ℕ) : Prop :=
  ∃ before f behind, fields = before ++ f :: behind ∧ bytes f.value = numeral n ∧
    (f.seen.1 = form ∧ accepts (strtoul f.seen.2)) ∧
      ∀ g ∈ behind, ¬ (g.seen.1 = form ∧ accepts (strtoul g.seen.2))

theorem nul_not_mem_numeral (n : ℕ) : (0 : UInt8) ∉ numeral n := fun h =>
  absurd (isdigit_of_mem_numeral h) (by decide)

/-- A handler reads a posted number as it is, or as too large. -/
theorem strtoul_seen {f : Field} {n : ℕ} (hvalue : bytes f.value = numeral n) :
    strtoul f.seen.2 = min n (2 ^ 32 - 1) ∨ strtoul f.seen.2 = 2 ^ 32 - 1 := by
  have hnul : (0 : UInt8) ∉ kept (HTTP_BUFFER_SIZE - 1) f.value :=
    nul_not_mem_kept (hvalue ▸ nul_not_mem_numeral n)
  rw [f.seen_snd, cstr_of_not_mem hnul]
  by_cases hshort : (numeral n).length ≤ 17
  · left
    have hfits : (text f.value).length ≤ HTTP_BUFFER_SIZE - 1 := by
      have hle := length_text_le f.value
      rw [hvalue] at hle
      rw [HTTP_BUFFER_SIZE]
      omega
    rw [kept_eq_bytes hfits, hvalue, strtoul_numeral]
  · right
    refine strtoul_long (by omega) (n := n) ?_
    rw [take_kept f.value (by decide), hvalue]

/-- An accepted number is stored. -/
theorem Accepted.stored {fields : List Field} {form : FormName} {accepts : ℕ → Prop}
    [DecidablePred accepts] {n : ℕ} (h : Accepted fields form accepts n)
    (hsmall : ∀ m, accepts m → m ≤ 10000) (param : ℕ → Param) (old : Option Param) :
    accepts n ∧ ((fields.map Field.seen).filterMap (numberWrite form accepts param)).getLast?.getD
      old = some (param n) := by
  obtain ⟨before, f, behind, rfl, hvalue, haccepted, hbehind⟩ := h
  have hread : strtoul f.seen.2 = n := by
    have hle := hsmall _ haccepted.2
    rcases strtoul_seen hvalue with hn | hn <;> omega
  have hnone : (behind.map Field.seen).filterMap (numberWrite form accepts param) = [] := by
    rw [List.filterMap_eq_nil_iff]
    intro field hfield
    obtain ⟨g, hg, rfl⟩ := List.mem_map.mp hfield
    exact if_neg (hbehind g hg)
  have hsome : numberWrite form accepts param f.seen = some (some (param n)) := by
    rw [numberWrite, if_pos haccepted, hread]
  refine ⟨hread ▸ haccepted.2, ?_⟩
  rw [List.map_append, List.map_cons, List.filterMap_append, List.filterMap_cons_some hsome, hnone,
    List.getLast?_append]
  rfl

/-- The parameter for a small number. -/
def int8Param (n : ℕ) : Param := ⟨[(Int8.ofNat n).toUInt8], true⟩

def int32Param (n : ℕ) : Param :=
  ⟨Math.LittleEndian.encode 4 (Int32.ofNat n).toUInt32.toNat, true⟩

def ChannelOk (n : ℕ) : Prop := n ≥ 1 ∧ n ≤ 14
def AuthmodeOk (n : ℕ) : Prop :=
  n = AUTH_OPEN ∨ n = AUTH_WPA_PSK ∨ n = AUTH_WPA2_PSK ∨ n = AUTH_WPA_WPA2_PSK
def MaxConnOk (n : ℕ) : Prop := n ≤ 8
def BeaconIntervalOk (n : ℕ) : Prop := n ≤ 10000
def RestartsOk (n : ℕ) : Prop := n ≤ 255

instance : DecidablePred ChannelOk := fun _ => inferInstanceAs (Decidable (_ ∧ _))
instance : DecidablePred AuthmodeOk := fun _ => inferInstanceAs (Decidable (_ ∨ _ ∨ _ ∨ _))
instance : DecidablePred MaxConnOk := fun _ => inferInstanceAs (Decidable (_ ≤ _))
instance : DecidablePred BeaconIntervalOk := fun _ => inferInstanceAs (Decidable (_ ≤ _))
instance : DecidablePred RestartsOk := fun _ => inferInstanceAs (Decidable (_ ≤ _))

/-! ## The numbers of the forms -/

section Writes

theorem stationField_restarts :
    fieldWrites stationField StationForm.params .wifiStaDisabledRestarts
      (numberWrite .staDisabledRestarts RestartsOk int8Param) := by
  intro name buf form
  cases name <;> simp [stationField, numberWrite, RestartsOk, int8Param]
  split <;> simp

theorem apField_numbers :
    fieldWrites apField ApForm.params .wifiApDisabledRestarts
        (numberWrite .apDisabledRestarts RestartsOk int8Param) ∧
      fieldWrites apField ApForm.params .wifiApChannel
        (numberWrite .apChannel ChannelOk int8Param) ∧
      fieldWrites apField ApForm.params .wifiApAuthmode
        (numberWrite .apAuthmode AuthmodeOk int8Param) ∧
      fieldWrites apField ApForm.params .wifiApMaxConn
        (numberWrite .apMaxConn MaxConnOk int8Param) ∧
      fieldWrites apField ApForm.params .wifiApBeaconInterval
        (numberWrite .apBeaconInterval BeaconIntervalOk int32Param) := by
  refine ⟨?_, ?_, ?_, ?_, ?_⟩ <;> intro name buf form
  all_goals
    cases name <;> simp [apField, numberWrite, RestartsOk, ChannelOk, AuthmodeOk, MaxConnOk,
      BeaconIntervalOk, int8Param, int32Param] <;> split <;> simp

end Writes

/-! ## Histories -/

section Histories

variable {d : Defaults} {dev : Device} {k : Key}

/-- The keys that only a form sets keep their values. -/
theorem after_of_not_mem (hk : k ∉ bootKeys) (events : List Event) :
    (after d dev events).params k = dev.params k := by
  refine run_invariant (P := fun s => s.params k = dev.params k) ?_ rfl (along_true dev events)
  intro dev' event hdev _
  cases event with
  | boot => exact (wificfgInit_of_not_mem d hk).trans hdev
  | staConnect =>
    refine (gotStaConnect_of_ne ?_).trans hdev
    rintro rfl
    exact hk (by decide)

/-- What the access point is given. -/
theorem softap_eq {events : List Event} {c : SoftapConfig}
    (h : (nextBoot d dev events).softap = some c) :
    ∃ ssid password, c = softapConfig (nextBoot d dev events).params ssid password := by
  rw [nextBoot] at h ⊢
  have hap := wificfgInit_ap d (after d dev events).params
  dsimp only at hap
  rw [hap.2.2, ← hap.2.1] at h
  split at h
  · exact ⟨_, _, (Option.some.inj h).symm⟩
  · cases h

end Histories

/-! ## The configuration of the access point -/

section Config

variable {d : Defaults} {dev : Device} {events : List Event} {c : SoftapConfig} {n : ℕ}

/-- The parameter of a number that was stored, at any later boot. -/
theorem getInt8_nextBoot (d : Defaults) (events : List Event) {k : Key} (hk : k ∉ bootKeys)
    (h : dev.params k = some (int8Param n)) :
    (nextBoot d dev events).params.getInt8 k = some (Int8.ofNat n) := by
  rw [nextBoot, getInt8_congr (wificfgInit_of_not_mem d hk), Params.getInt8,
    after_of_not_mem hk, h]
  exact congrArg some (Int8.toInt8_toUInt8 _)

variable (hc : (nextBoot d dev events).softap = some c)
include hc

theorem nextBoot_channel (h : dev.params .wifiApChannel = some (int8Param n)) (hn : ChannelOk n) :
    c.channel.toNat = n ↔ n ≤ 13 := by
  obtain ⟨ssid, password, rfl⟩ := softap_eq hc
  have hget := getInt8_nextBoot d events (by decide) h
  obtain ⟨hlow, hhigh⟩ := hn
  simp only [softapConfig, apChannel, hget, Option.getD_some]
  interval_cases n <;> decide

theorem nextBoot_maxConn (h : dev.params .wifiApMaxConn = some (int8Param n)) (hn : MaxConnOk n) :
    c.maxConnection.toNat = n ↔ 1 ≤ n := by
  obtain ⟨ssid, password, rfl⟩ := softap_eq hc
  have hget := getInt8_nextBoot d events (by decide) h
  have hhigh : n ≤ 8 := hn
  simp only [softapConfig, apMaxConn, hget, Option.getD_some]
  interval_cases n <;> decide

theorem nextBoot_authmode (h : dev.params .wifiApAuthmode = some (int8Param n))
    (hn : AuthmodeOk n) : c.authmode.toInt = n := by
  obtain ⟨ssid, password, rfl⟩ := softap_eq hc
  have hget := getInt8_nextBoot d events (by decide) h
  simp only [softapConfig, apAuthmode, hget, Option.getD_some]
  rcases hn with rfl | rfl | rfl | rfl <;> decide

theorem nextBoot_beaconInterval (h : dev.params .wifiApBeaconInterval = some (int32Param n))
    (hn : BeaconIntervalOk n) : c.beaconInterval.toNat = n ↔ n ≤ 1000 := by
  obtain ⟨ssid, password, rfl⟩ := softap_eq hc
  have hget : (nextBoot d dev events).params.getInt32 .wifiApBeaconInterval =
      some (Int32.ofNat n) := by
    rw [nextBoot, Params.getInt32, wificfgInit_of_not_mem d (by decide),
      after_of_not_mem (by decide), h, int32Param]
    simp only [Math.LittleEndian.length_encode, ↓reduceIte]
    rw [Math.LittleEndian.ofNat_decode_encode, Int32.toInt32_toUInt32]
  have hhigh : n ≤ 10000 := hn
  have htoInt : (Int32.ofNat n).toInt = n := Int32.toInt_ofNat_of_lt (by omega)
  have htoNat : (Int32.ofNat n).toUInt32.toNat = n := by
    rw [show (Int32.ofNat n).toUInt32 = UInt32.ofNat n from rfl, UInt32.toNat_ofNat']
    omega
  have hcheck : Int32.ofNat n < 0 ∨ Int32.ofNat n > 1000 ↔ 1000 < n := by
    rw [gt_iff_lt, Int32.lt_iff_toInt_lt, Int32.lt_iff_toInt_lt, htoInt]
    have hzero : (0 : Int32).toInt = 0 := rfl
    have hthousand : (1000 : Int32).toInt = 1000 := rfl
    omega
  simp only [softapConfig, apBeaconInterval, hget, Option.getD_some]
  by_cases hlarge : 1000 < n
  · rw [if_pos (hcheck.mpr hlarge), show (100 : Int32).toUInt32.toNat = 100 by decide,
      show (UInt16.ofNat 100).toNat = 100 by decide]
    omega
  · rw [if_neg (fun h => hlarge (hcheck.mp h)), htoNat, UInt16.toNat_ofNat']
    omega

end Config

/-! ## Interfaces that stay off -/

inductive Interface where
  | station
  | softap

namespace Interface

/-- The parameter that counts the restarts. -/
def key : Interface → Key
  | station => .wifiStaDisabledRestarts
  | softap => .wifiApDisabledRestarts

def enabled : Interface → Boot → Bool
  | station => Boot.staEnable
  | softap => Boot.apEnable

/-- The interface is otherwise valid and enabled. -/
def valid (d : Defaults) (params : Params) : Interface → Bool
  | station => staValid params
  | softap => apValid d params

end Interface

/-- An interface is off in all boots of a history and on in the next one. -/
def OffThroughout (d : Defaults) (dev : Device) (i : Interface) (events : List Event) : Prop :=
  (∀ before behind, events = before ++ .boot :: behind →
    i.enabled (nextBoot d dev before) = false) ∧
  (i.enabled (nextBoot d dev events) = true ↔ i.valid d dev.params = true)

section Countdown

variable {d : Defaults} {dev : Device} {i : Interface} {events : List Event} {n : ℕ}

theorem enabled_wificfgInit (params : Params) :
    i.enabled (wificfgInit d params) =
      (!decide (0 < restarts params i.key) && i.valid d params) := by
  cases i with
  | station => exact wificfgInit_staEnable d params
  | softap => exact wificfgInit_apEnable d params

theorem valid_gotStaConnect : i.valid d (gotStaConnect dev).params = i.valid d dev.params := by
  have hk {k : Key} (hne : k ≠ .wifiApDisabledRestarts) :
      (gotStaConnect dev).params k = dev.params k := gotStaConnect_of_ne hne
  cases i with
  | station => exact staValid_congr fun k hmem => hk (by rintro rfl; exact absurd hmem (by decide))
  | softap =>
    rw [Interface.valid, Interface.valid, apValid, ← apCredentials, getInt8_congr (hk (by decide)),
      apCredentials_congr d (hk (by decide)) (hk (by decide))]
    rfl

theorem valid_after (events : List Event) :
    i.valid d (after d dev events).params = i.valid d dev.params := by
  refine run_invariant (P := fun s => i.valid d s.params = i.valid d dev.params) ?_ rfl
    (along_true dev events)
  intro dev' event hdev _
  cases event with
  | staConnect => exact valid_gotStaConnect.trans hdev
  | boot =>
    rw [← hdev]
    cases i with
    | station => exact staValid_wificfgInit d dev'.params
    | softap => exact apValid_wificfgInit d dev'.params

/-- What the counter has to do. -/
theorem offThroughout_iff :
    OffThroughout d dev i events ↔
      i.valid d dev.params = false ∨
        (∀ before behind, events = before ++ .boot :: behind →
          0 < restarts (after d dev before).params i.key) ∧
        ¬ 0 < restarts (after d dev events).params i.key := by
  unfold OffThroughout
  simp only [nextBoot, enabled_wificfgInit, valid_after]
  cases i.valid d dev.params with
  | false => simp
  | true => simp

/-! ### Counting down -/

theorem oneLess_of_not_pos {m : Int8} (h : ¬ 0 < m) : oneLess m = m := if_neg h

theorem pos_ofNat_iff (hn : n ≤ 127) : 0 < Int8.ofNat n ↔ 0 < n := by
  have hall : ∀ m < 128, (0 < Int8.ofNat m ↔ 0 < m) := by decide +kernel
  exact hall n (by omega)

theorem not_pos_ofNat (hlow : 128 ≤ n) (hhigh : n ≤ 255) : ¬ 0 < Int8.ofNat n := by
  have hall : ∀ m < 256, 128 ≤ m → ¬ 0 < Int8.ofNat m := by decide +kernel
  exact hall n (by omega) hlow

theorem oneLess_ofNat_succ (hn : n + 1 ≤ 127) : oneLess (Int8.ofNat (n + 1)) = Int8.ofNat n := by
  have hall : ∀ m < 127, oneLess (Int8.ofNat (m + 1)) = Int8.ofNat m := by decide +kernel
  exact hall n (by omega)

theorem ofNat_eq_zero_iff (hn : n ≤ 255) : Int8.ofNat n = 0 ↔ n = 0 := by
  have hall : ∀ m < 256, (Int8.ofNat m = 0 ↔ m = 0) := by decide +kernel
  exact hall n (by omega)

theorem restarts_boot (dev : Device) :
    restarts (Event.boot.apply d dev).params i.key = oneLess (restarts dev.params i.key) := by
  refine wificfgInit_restarts d dev.params ?_
  cases i <;> decide

theorem after_snoc (events : List Event) (event : Event) :
    after d dev (events ++ [event]) = event.apply d (after d dev events) := by
  rw [after, run_append]
  rfl

theorem boots_snoc (events : List Event) (event : Event) :
    boots (events ++ [event]) = boots events + if event = .boot then 1 else 0 := by
  rw [boots, List.count_append, List.count_singleton]
  simp [boots, beq_iff_eq]

theorem gotStaConnect_gotStaConnect (dev : Device) :
    (gotStaConnect dev).gotStaConnect = true := by
  unfold gotStaConnect
  dsimp only
  split_ifs with h
  · exact h
  · rfl
  · rfl
  · rfl

/-- The connection of the station is noted once, and only while nothing is counted. -/
theorem restarts_gotStaConnect (dev : Device) :
    restarts (gotStaConnect dev).params .wifiApDisabledRestarts =
      if dev.gotStaConnect = false ∧ (dev.params.getInt8 .wifiApEnable).getD 1 ≠ 0 ∧
          (dev.params.getInt8 .wifiApDisableIfSta).getD 1 ≠ 0 ∧
          restarts dev.params .wifiApDisabledRestarts = 0 then 1
      else restarts dev.params .wifiApDisabledRestarts := by
  unfold gotStaConnect
  dsimp only
  rw [← restarts]
  split_ifs with h1 h2 h3 h4 h5 h6 <;> simp_all [restarts, Params.getInt8_setInt8]

theorem restarts_staConnect_of_ne (dev : Device) (hne : restarts dev.params i.key ≠ 0) :
    restarts (Event.staConnect.apply d dev).params i.key = restarts dev.params i.key := by
  cases i with
  | station => exact restarts_congr (gotStaConnect_of_ne (by decide))
  | softap =>
    refine (restarts_gotStaConnect dev).trans (if_neg ?_)
    rintro ⟨-, -, -, hzero⟩
    exact hne hzero

/-- Where restarts are left, the counter holds them. -/
theorem restarts_after_of_lt (hn : n ≤ 127) (h : restarts dev.params i.key = Int8.ofNat n)
    (hlt : boots events < n) :
    restarts (after d dev events).params i.key = Int8.ofNat (n - boots events) := by
  induction events using List.reverseRecOn with
  | nil => exact h
  | append_singleton events event ih =>
    rw [boots_snoc] at hlt ⊢
    have hprev := ih (by omega)
    rw [after_snoc]
    cases event with
    | boot =>
      obtain ⟨m, hm⟩ : ∃ m, n - boots events = m + 1 := ⟨n - boots events - 1, by
        simp only [↓reduceIte] at hlt
        omega⟩
      rw [restarts_boot, hprev, hm, oneLess_ofNat_succ (by omega)]
      congr 1
      simp only [↓reduceIte]
      omega
    | staConnect =>
      simp only [reduceCtorEq, ↓reduceIte, Nat.add_zero] at hlt ⊢
      rw [restarts_staConnect_of_ne, hprev]
      rw [hprev, ne_eq, ofNat_eq_zero_iff (by omega)]
      omega

/-- A number that the signed byte takes for a negative one is never counted. -/
theorem restarts_after_of_negative (hlow : 128 ≤ n) (hhigh : n ≤ 255)
    (h : restarts dev.params i.key = Int8.ofNat n) (events : List Event) :
    restarts (after d dev events).params i.key = Int8.ofNat n := by
  refine run_invariant (P := fun s => restarts s.params i.key = Int8.ofNat n) ?_ h
    (along_true dev events)
  intro dev' event hdev _
  cases event with
  | boot => rw [restarts_boot, hdev, oneLess_of_not_pos (not_pos_ofNat hlow hhigh)]
  | staConnect =>
    rw [restarts_staConnect_of_ne, hdev]
    rw [hdev, ne_eq, ofNat_eq_zero_iff hhigh]
    omega

/-- The last restart brings the counter to zero. -/
theorem restarts_last (hn : n ≤ 127) (h : restarts dev.params i.key = Int8.ofNat n)
    (hboots : boots events + 1 = n) :
    restarts (Event.boot.apply d (after d dev events)).params i.key = 0 := by
  have hprev : restarts (after d dev events).params i.key = _ :=
    restarts_after_of_lt hn h (by omega)
  rw [restarts_boot, hprev, show n - boots events = 0 + 1 by omega, oneLess_ofNat_succ (by omega)]
  rfl

theorem staRestarts_after (hn : n ≤ 127)
    (h : restarts dev.params Interface.station.key = Int8.ofNat n) (hboots : boots events = n) :
    restarts (after d dev events).params Interface.station.key = 0 := by
  induction events using List.reverseRecOn with
  | nil =>
    obtain rfl : 0 = n := hboots
    exact h
  | append_singleton events event ih =>
    rw [boots_snoc] at hboots
    rw [after_snoc]
    cases event with
    | boot => exact restarts_last hn h (by simpa using hboots)
    | staConnect =>
      rw [← ih (by simpa using hboots)]
      exact restarts_congr (gotStaConnect_of_ne (by decide))

/-- The connection of the station in the last session turns the access point off
once more. -/
def TurnsOff (dev : Device) (n : ℕ) (events : List Event) : Prop :=
  events.getLast? = some .staConnect ∧ (n = 0 → dev.gotStaConnect = false) ∧
    (dev.params.getInt8 .wifiApDisableIfSta).getD 1 ≠ 0

instance (dev : Device) (n : ℕ) (events : List Event) : Decidable (TurnsOff dev n events) :=
  inferInstanceAs (Decidable (_ ∧ _ ∧ _))

/-- With the last restart the counter of the access point is at zero, or at one
more. -/
theorem apRestarts_after (hn : n ≤ 127)
    (h : restarts dev.params Interface.softap.key = Int8.ofNat n)
    (henable : (dev.params.getInt8 .wifiApEnable).getD 1 ≠ 0) (hboots : boots events = n) :
    restarts (after d dev events).params Interface.softap.key =
        (if TurnsOff dev n events then 1 else 0) ∧
      (after d dev events).gotStaConnect =
        if events.getLast? = some .staConnect then true
        else if n = 0 then dev.gotStaConnect else false := by
  induction events using List.reverseRecOn with
  | nil =>
    obtain rfl : 0 = n := hboots
    exact ⟨h, rfl⟩
  | append_singleton events event ih =>
    rw [boots_snoc] at hboots
    rw [after_snoc]
    cases event with
    | boot =>
      simp only [↓reduceIte] at hboots
      rw [restarts_last hn h hboots]
      have hne : n ≠ 0 := by omega
      simp [TurnsOff, hne, Event.apply]
    | staConnect =>
      obtain ⟨hprev, hgot⟩ := ih (by simpa using hboots)
      have hkey (k : Key) (hk : k ∈ [.wifiApEnable, .wifiApDisableIfSta]) :
          (after d dev events).params.getInt8 k = dev.params.getInt8 k := by
        refine getInt8_congr (after_of_not_mem ?_ events)
        revert hk
        cases k <;> decide
      have hstep := restarts_gotStaConnect (after d dev events)
      rw [hkey _ (by decide), hkey _ (by decide)] at hstep
      refine ⟨hstep.trans ?_, by simpa [Event.apply] using gotStaConnect_gotStaConnect _⟩
      have hturns : TurnsOff dev n (events ++ [.staConnect]) ↔
          (n = 0 → dev.gotStaConnect = false) ∧
            (dev.params.getInt8 .wifiApDisableIfSta).getD 1 ≠ 0 := by
        simp [TurnsOff]
      change restarts (after d dev events).params .wifiApDisabledRestarts = _ at hprev
      by_cases hlast : events.getLast? = some .staConnect
      · -- it was noted before
        rw [if_pos hlast] at hgot
        rw [hgot, if_neg (by simp), hprev]
        exact if_congr (by rw [hturns, TurnsOff, and_iff_right hlast]) rfl rfl
      · rw [if_neg hlast] at hgot
        rw [if_neg (fun h => hlast h.1)] at hprev
        rw [hprev]
        refine if_congr ?_ rfl rfl
        rw [hturns, hgot]
        split_ifs with hzero <;> simp [hzero, henable]

theorem boots_split {before behind : List Event} :
    boots (before ++ .boot :: behind) = boots before + 1 + boots behind := by
  rw [boots, List.count_append, List.count_cons_self, boots, boots]
  omega

/-- An interface that is otherwise on stays off for the posted restarts exactly if
they fit the signed byte and the counter ends at zero. -/
theorem offThroughout_iff_counter (hn : n ≤ 255)
    (h : restarts dev.params i.key = Int8.ofNat n) (hboots : boots events = n) :
    OffThroughout d dev i events ↔
      i.valid d dev.params = false ∨
        n ≤ 127 ∧ ¬ 0 < restarts (after d dev events).params i.key := by
  rw [offThroughout_iff]
  refine or_congr_right (and_congr_left' ⟨fun hoff => ?_, fun hle before behind hsplit => ?_⟩)
  · -- a negative number is on in the first boot
    by_contra hlarge
    have hmem : Event.boot ∈ events := List.count_pos_iff.mp (by rw [← boots]; omega)
    obtain ⟨before, behind, hsplit⟩ := List.append_of_mem hmem
    have hpos := hoff before behind hsplit
    rw [restarts_after_of_negative (by omega) hn h] at hpos
    exact not_pos_ofNat (by omega) hn hpos
  · rw [hsplit, boots_split] at hboots
    rw [restarts_after_of_lt hle h (by omega), pos_ofNat_iff (by omega)]
    omega

theorem offThroughout_station (hn : n ≤ 255)
    (h : restarts dev.params .wifiStaDisabledRestarts = Int8.ofNat n) (hboots : boots events = n) :
    OffThroughout d dev .station events ↔ n ≤ 127 ∨ staValid dev.params = false := by
  rw [offThroughout_iff_counter hn h hboots, or_comm]
  refine or_congr_left ⟨And.left, fun hle => ⟨hle, ?_⟩⟩
  rw [staRestarts_after hle h hboots]
  decide

theorem offThroughout_softap (hn : n ≤ 255)
    (h : restarts dev.params .wifiApDisabledRestarts = Int8.ofNat n) (hboots : boots events = n) :
    OffThroughout d dev .softap events ↔
      n ≤ 127 ∧ ¬ TurnsOff dev n events ∨ apValid d dev.params = false := by
  rw [offThroughout_iff_counter hn h hboots, or_comm]
  cases hvalid : apValid d dev.params with
  | false => exact iff_of_true (.inr hvalid) (.inr rfl)
  | true =>
    have henable : (dev.params.getInt8 .wifiApEnable).getD 1 ≠ 0 := by
      rw [apValid, Bool.and_eq_true] at hvalid
      exact of_decide_eq_true hvalid.1
    refine or_congr (and_congr_right fun hle => ?_) (by simp [Interface.valid, hvalid])
    rw [(apRestarts_after hle h henable hboots).1]
    split_ifs with hturns
    · exact iff_of_false (by decide) (not_not.mpr hturns)
    · exact iff_of_true (by decide) hturns

end Countdown

/-! ## Posted settings -/

section Posted

variable (fields : List Field) (s : Socket) (params : Params) {n : ℕ} {form : FormName}
  {accepts : ℕ → Prop} [DecidablePred accepts] {key : Key} {param : ℕ → Param}

theorem stationPosted_number
    (hwrites : fieldWrites stationField StationForm.params key (numberWrite form accepts param))
    (henable : key ≠ .wifiStaEnable) (hmdns : key ≠ .wifiStaMdns)
    (hsmall : ∀ m, accepts m → m ≤ 10000) (h : Accepted fields form accepts n) :
    accepts n ∧ stationPosted fields s params key = some (param n) := by
  rw [stationPosted_eq fields s params hwrites (·.commit_eq henable hmdns)]
  exact h.stored hsmall param _

theorem apPosted_number
    (hwrites : fieldWrites apField ApForm.params key (numberWrite form accepts param))
    (hkey : key ∉ [.wifiApEnable, .wifiApDisableIfSta, .wifiApSsidHidden, .wifiApDns,
      .wifiApMdns])
    (hsmall : ∀ m, accepts m → m ≤ 10000) (h : Accepted fields form accepts n) :
    accepts n ∧ apPosted fields s params key = some (param n) := by
  rw [apPosted_eq fields s params hwrites (·.commit_eq hkey)]
  exact h.stored hsmall param _

theorem restarts_int8Param {p : Params} (h : p key = some (int8Param n)) :
    restarts p key = Int8.ofNat n := by
  rw [restarts, Params.getInt8, h]
  exact Int8.toInt8_toUInt8 _

end Posted

/-- The numbers of the forms take effect exactly if the boot accepts them too, and
the restarts are counted exactly if they fit the signed byte and no connection of
the station adds one. -/
theorem settings_take_effect_iff (d : Defaults) (fields : List Field) (s : Socket)
    (params : Params) (got : Bool) (events : List Event) (n : ℕ) :
    (∀ c, (nextBoot d ⟨apPosted fields s params, got⟩ events).softap = some c →
      (Accepted fields .apChannel ChannelOk n → (c.channel.toNat = n ↔ n ≤ 13)) ∧
      (Accepted fields .apMaxConn MaxConnOk n → (c.maxConnection.toNat = n ↔ 1 ≤ n)) ∧
      (Accepted fields .apBeaconInterval BeaconIntervalOk n →
        (c.beaconInterval.toNat = n ↔ n ≤ 1000)) ∧
      (Accepted fields .apAuthmode AuthmodeOk n → c.authmode.toInt = n)) ∧
    (Accepted fields .staDisabledRestarts RestartsOk n → boots events = n →
      (OffThroughout d ⟨stationPosted fields s params, got⟩ .station events ↔
        n ≤ 127 ∨ staValid (stationPosted fields s params) = false)) ∧
    (Accepted fields .apDisabledRestarts RestartsOk n → boots events = n →
      (OffThroughout d ⟨apPosted fields s params, got⟩ .softap events ↔
        n ≤ 127 ∧ ¬ TurnsOff ⟨apPosted fields s params, got⟩ n events ∨
          apValid d (apPosted fields s params) = false)) := by
  obtain ⟨hrestarts, hchannel, hauthmode, hmaxConn, hbeacon⟩ := apField_numbers
  refine ⟨fun c hc => ⟨fun h => ?_, fun h => ?_, fun h => ?_, fun h => ?_⟩, fun h hboots => ?_,
    fun h hboots => ?_⟩
  · obtain ⟨hn, hstored⟩ := apPosted_number fields s params hchannel (by decide)
      (fun m hm => hm.2.trans (by decide)) h
    exact nextBoot_channel hc hstored hn
  · obtain ⟨hn, hstored⟩ := apPosted_number fields s params hmaxConn (by decide)
      (fun m hm => hm.trans (by decide)) h
    exact nextBoot_maxConn hc hstored hn
  · obtain ⟨hn, hstored⟩ := apPosted_number fields s params hbeacon (by decide)
      (fun m hm => hm) h
    exact nextBoot_beaconInterval hc hstored hn
  · obtain ⟨hn, hstored⟩ := apPosted_number fields s params hauthmode (by decide)
      (by rintro m (rfl | rfl | rfl | rfl) <;> decide) h
    exact nextBoot_authmode hc hstored hn
  · obtain ⟨hn, hstored⟩ := stationPosted_number fields s params stationField_restarts
      (by decide) (by decide) (fun m hm => hm.trans (by decide)) h
    exact offThroughout_station hn (restarts_int8Param hstored) hboots
  · obtain ⟨hn, hstored⟩ := apPosted_number fields s params hrestarts (by decide)
      (fun m hm => hm.trans (by decide)) h
    exact offThroughout_softap hn (restarts_int8Param hstored) hboots

/-- Both forms at once, with the number two in all fields. -/
def twoForm : List Field :=
  [plainField (ascii "ap_channel") (ascii "2") (by decide +kernel),
    plainField (ascii "ap_max_conn") (ascii "2") (by decide +kernel),
    plainField (ascii "ap_beacon_interval") (ascii "2") (by decide +kernel),
    plainField (ascii "ap_authmode") (ascii "2") (by decide +kernel),
    plainField (ascii "ap_disabled_restarts") (ascii "2") (by decide +kernel),
    plainField (ascii "sta_disabled_restarts") (ascii "2") (by decide +kernel)]

/-- The defaults of a program. -/
def someDefaults : Defaults :=
  ⟨none, some ⟨ascii "esp", by decide⟩, some ⟨ascii "password", by decide⟩⟩

theorem settings_take_effect_two :
    (∃ c, (nextBoot someDefaults ⟨apPosted twoForm [] fun _ => none, false⟩
        [.boot, .boot]).softap = some c ∧
      c.channel.toNat = 2 ∧ c.maxConnection.toNat = 2 ∧ c.beaconInterval.toNat = 2 ∧
        c.authmode.toInt = 2) ∧
    OffThroughout someDefaults ⟨stationPosted twoForm [] fun _ => none, false⟩ .station
      [.boot, .boot] ∧
    OffThroughout someDefaults ⟨apPosted twoForm [] fun _ => none, false⟩ .softap
      [.boot, .boot] := by
  have hsome : ((nextBoot someDefaults ⟨apPosted twoForm [] fun _ => none, false⟩
      [.boot, .boot]).softap).isSome = true := by
    rw [apPosted_foldl]
    decide +kernel
  obtain ⟨c, hc⟩ := Option.isSome_iff_exists.mp hsome
  obtain ⟨hconfig, hsta, hap⟩ := settings_take_effect_iff someDefaults twoForm []
    (fun _ => none) false [.boot, .boot] 2
  obtain ⟨hchannel, hmaxConn, hbeacon, hauthmode⟩ := hconfig c hc
  refine ⟨⟨c, hc, (hchannel ?_).mpr (by decide), (hmaxConn ?_).mpr (by decide),
    (hbeacon ?_).mpr (by decide), hauthmode ?_⟩, (hsta ?_ rfl).mpr (.inl (by decide)),
    (hap ?_ rfl).mpr (.inl ⟨by decide, fun h => absurd h.1 (by decide)⟩)⟩
  · exact ⟨[], _, _, rfl, by decide +kernel, by decide +kernel, by decide +kernel⟩
  · exact ⟨twoForm.take 1, _, _, rfl, by decide +kernel, by decide +kernel, by decide +kernel⟩
  · exact ⟨twoForm.take 2, _, _, rfl, by decide +kernel, by decide +kernel, by decide +kernel⟩
  · exact ⟨twoForm.take 3, _, _, rfl, by decide +kernel, by decide +kernel, by decide +kernel⟩
  · exact ⟨twoForm.take 5, _, _, rfl, by decide +kernel, by decide +kernel, by decide +kernel⟩
  · exact ⟨twoForm.take 4, _, _, rfl, by decide +kernel, by decide +kernel, by decide +kernel⟩

/-- Settings that their handlers accept. -/
def boldApForm : List Field :=
  [plainField (ascii "ap_channel") (ascii "14") (by decide +kernel),
    plainField (ascii "ap_max_conn") (ascii "0") (by decide +kernel),
    plainField (ascii "ap_beacon_interval") (ascii "5000") (by decide +kernel)]

theorem staSsid_allowed : ∀ b ∈ ascii "sta_ssid" ++ ascii "net", b ∉ reserved := by decide +kernel

theorem staPassword_allowed :
    ∀ b ∈ ascii "sta_password" ++ ascii "password", b ∉ reserved := by decide +kernel

def boldStationForm : List Field :=
  [plainField (ascii "sta_ssid") (ascii "net") staSsid_allowed,
    plainField (ascii "sta_password") (ascii "password") staPassword_allowed,
    plainField (ascii "sta_disabled_restarts") (ascii "200") (by decide +kernel)]

/-- The settings are stored, but the next boot replaces them and does not turn the
station off. -/
theorem bold_settings_replaced :
    apPosted boldApForm [] (fun _ => none) .wifiApChannel = some (int8Param 14) ∧
      apPosted boldApForm [] (fun _ => none) .wifiApMaxConn = some (int8Param 0) ∧
      apPosted boldApForm [] (fun _ => none) .wifiApBeaconInterval = some (int32Param 5000) ∧
      (nextBoot someDefaults ⟨apPosted boldApForm [] fun _ => none, false⟩ []).softap.map
          (fun c => (c.channel, c.maxConnection, c.beaconInterval)) = some (13, 3, 100) ∧
      stationPosted boldStationForm [] (fun _ => none) .wifiStaDisabledRestarts =
        some (int8Param 200) ∧
      (nextBoot someDefaults ⟨stationPosted boldStationForm [] fun _ => none, false⟩
        []).staEnable = true := by
  rw [apPosted_foldl, stationPosted_foldl]
  decide +kernel

end EspOpenRtos.WifiCfg
