/-
# Posted credentials

A network name and a password are posted as fields of a form, in any of the ways
to write their bytes. They are stored exactly if their text fits the buffer. A
longer text loses its end, with one curious exception: where only the end of an
escaped `%` is lost and the remaining characters spell the same bytes. A field
behind them whose name has a NUL after theirs replaces them.
-/

import EspOpenRtos.WifiCfg.Posts

namespace EspOpenRtos.WifiCfg

open Math.CStrings Math.FormEncoding

/-! ## Fields of a body -/

/-- A field of the body with this name, with the fields around it, none of which
has the name. -/
structure Carried (fields : List Field) (name : String) where
  before : List Field
  field : Field
  behind : List Field
  split : fields = before ++ field :: behind
  named : bytes field.name = ascii name
  single : ∀ g ∈ before ++ behind, bytes g.name ≠ ascii name

namespace Carried

variable {fields : List Field} {name : String} (c : Carried fields name)

def value : List UInt8 := bytes c.field.value

/-- The value reaches its parameter: its text survives the cut. Where a field
behind it reads as the same name, that one must show the same string. -/
def Survives : Prop :=
  match (c.behind.filter (ReadsAs name)).getLast? with
  | none => SurvivesCut (HTTP_BUFFER_SIZE - 1) c.field.value
  | some g => cstr (kept (HTTP_BUFFER_SIZE - 1) g.value) = c.value

end Carried

/-- A string that is stored under a name. -/
structure Credential (value : List UInt8) (shortest longest : ℕ) : Prop where
  nulFree : (0 : UInt8) ∉ value
  le : shortest ≤ value.length
  ge : value.length ≤ longest

/-! ## What is stored -/

section Stored

variable {fields : List Field} {name : String} {form : FormName}

theorem stringWrite_seen (hentry : (name, form) ∈ formNameTable)
    (hshort : (ascii name).length ≤ 16) (f : Field) :
    stringWrite form f.seen =
      if ReadsAs name f then
        some (if f.seen.2 = [] then none else some ⟨f.seen.2, false⟩)
      else none := by
  have hname := f.seen_fst_eq_iff hentry hshort
  rw [stringWrite]
  exact if_congr hname rfl rfl

/-- The last field of the name decides. -/
theorem getLast_stringWrite (hentry : (name, form) ∈ formNameTable)
    (hshort : (ascii name).length ≤ 16) (fields : List Field) :
    ((fields.map Field.seen).filterMap (stringWrite form)).getLast? =
      ((fields.filter (ReadsAs name)).getLast?).map fun f =>
        if f.seen.2 = [] then none else some ⟨f.seen.2, false⟩ := by
  rw [← List.getLast?_map]
  congr 1
  induction fields with
  | nil => rfl
  | cons f fields ih =>
    have hf := stringWrite_seen hentry hshort f
    rw [List.map_cons]
    cases hreads : ReadsAs name f with
    | true =>
      rw [hreads, if_pos rfl] at hf
      rw [List.filterMap_cons_some hf, List.filter_cons_of_pos hreads, List.map_cons, ih]
    | false =>
      rw [hreads] at hf
      rw [List.filterMap_cons_none hf, List.filter_cons_of_neg (by simp [hreads]), ih]

theorem Carried.survives_iff (c : Carried fields name) (hentry : (name, form) ∈ formNameTable)
    (hshort : (ascii name).length ≤ 16) (hnul : (0 : UInt8) ∉ c.value) (hne : c.value ≠ [])
    (old : Option Param) :
    ((fields.map Field.seen).filterMap (stringWrite form)).getLast?.getD old =
        some ⟨c.value, false⟩ ↔ c.Survives := by
  -- an empty value is not the one that was posted
  have hstored (f : Field) : ((if f.seen.2 = [] then none else some ⟨f.seen.2, false⟩) =
      some (⟨c.value, false⟩ : Param)) ↔
        cstr (kept (HTTP_BUFFER_SIZE - 1) f.value) = c.value := by
    rw [← f.seen_snd]
    split
    · next h => simp [h, hne.symm]
    · simp
  have hreads : ReadsAs name c.field = true := readsAs_of_named hentry c.named
  have hfilter : fields.filter (ReadsAs name) =
      c.before.filter (ReadsAs name) ++
        c.field :: c.behind.filter (ReadsAs name) := by
    rw [← List.filter_cons_of_pos hreads, ← List.filter_append, ← c.split]
  rw [getLast_stringWrite hentry hshort, hfilter, Carried.Survives, List.getLast?_append,
    List.getLast?_cons, Option.some_or]
  cases (c.behind.filter (ReadsAs name)).getLast? with
  | none =>
    rw [Option.getD_none, Option.map_some, Option.getD_some, hstored, ← kept_eq_bytes_iff,
      cstr_of_not_mem (nul_not_mem_kept hnul)]
    rfl
  | some g => rw [Option.getD_some, Option.map_some, Option.getD_some, hstored]

end Stored

/-! ## The two handlers -/

theorem stationField_ssid :
    fieldWrites stationField StationForm.params .wifiStaSsid (stringWrite .staSsid) := by
  intro name buf form
  cases name <;> simp [stationField, stringWrite]
  split <;> simp

theorem stationField_password :
    fieldWrites stationField StationForm.params .wifiStaPassword (stringWrite .staPassword) := by
  intro name buf form
  cases name <;> simp [stationField, stringWrite]
  split <;> simp

theorem apField_ssid :
    fieldWrites apField ApForm.params .wifiApSsid (stringWrite .apSsid) := by
  intro name buf form
  cases name <;> simp [apField, stringWrite] <;> split <;> simp

theorem apField_password :
    fieldWrites apField ApForm.params .wifiApPassword (stringWrite .apPassword) := by
  intro name buf form
  cases name <;> simp [apField, stringWrite] <;> split <;> simp

theorem Credential.ne_nil {value : List UInt8} {shortest longest : ℕ}
    (h : Credential value (shortest + 1) longest) : value ≠ [] := by
  rintro rfl
  exact absurd h.le (by simp)

/-- The credentials of a form are stored exactly if they survive the buffer. -/
theorem credentials_stored_iff (fields : List Field) (s : Socket) (params : Params) :
    (∀ (ssid : Carried fields "sta_ssid") (password : Carried fields "sta_password"),
      Credential ssid.value 1 32 → Credential password.value 8 63 →
        (stationPosted fields s params .wifiStaSsid = some ⟨ssid.value, false⟩ ∧
            stationPosted fields s params .wifiStaPassword = some ⟨password.value, false⟩ ↔
          ssid.Survives ∧ password.Survives)) ∧
    ∀ (ssid : Carried fields "ap_ssid") (password : Carried fields "ap_password"),
      Credential ssid.value 1 31 → Credential password.value 8 63 →
        (apPosted fields s params .wifiApSsid = some ⟨ssid.value, false⟩ ∧
            apPosted fields s params .wifiApPassword = some ⟨password.value, false⟩ ↔
          ssid.Survives ∧ password.Survives) := by
  constructor
  · intro ssid password hssid hpassword
    rw [stationPosted_eq fields s params stationField_ssid (·.commit_eq (by decide) (by decide)),
      stationPosted_eq fields s params stationField_password (·.commit_eq (by decide) (by decide)),
      ssid.survives_iff (by decide) (by decide) hssid.nulFree hssid.ne_nil,
      password.survives_iff (by decide) (by decide) hpassword.nulFree hpassword.ne_nil]
  · intro ssid password hssid hpassword
    rw [apPosted_eq fields s params apField_ssid (·.commit_eq (by decide)),
      apPosted_eq fields s params apField_password (·.commit_eq (by decide)),
      ssid.survives_iff (by decide) (by decide) hssid.nulFree hssid.ne_nil,
      password.survives_iff (by decide) (by decide) hpassword.nulFree hpassword.ne_nil]

/-- A form with short credentials. -/
def shortForm : List Field :=
  [plainField (ascii "sta_ssid") (ascii "net") (by decide +kernel),
    plainField (ascii "sta_password") (ascii "password") (by decide +kernel),
    plainField (ascii "ap_ssid") (ascii "net") (by decide +kernel),
    plainField (ascii "ap_password") (ascii "password") (by decide +kernel)]

def shortForm.staSsid : Carried shortForm "sta_ssid" :=
  ⟨[], _, _, rfl, by decide +kernel, by decide +kernel⟩

def shortForm.staPassword : Carried shortForm "sta_password" :=
  ⟨shortForm.take 1, _, _, rfl, by decide +kernel, by decide +kernel⟩

def shortForm.apSsid : Carried shortForm "ap_ssid" :=
  ⟨shortForm.take 2, _, _, rfl, by decide +kernel, by decide +kernel⟩

def shortForm.apPassword : Carried shortForm "ap_password" :=
  ⟨shortForm.take 3, _, _, rfl, by decide +kernel, by decide +kernel⟩

theorem credentials_stored_short :
    (stationPosted shortForm [] (fun _ => none) .wifiStaSsid = some ⟨ascii "net", false⟩ ∧
        stationPosted shortForm [] (fun _ => none) .wifiStaPassword =
          some ⟨ascii "password", false⟩) ∧
      apPosted shortForm [] (fun _ => none) .wifiApSsid = some ⟨ascii "net", false⟩ ∧
        apPosted shortForm [] (fun _ => none) .wifiApPassword =
          some ⟨ascii "password", false⟩ :=
  ⟨((credentials_stored_iff shortForm [] fun _ => none).1 shortForm.staSsid shortForm.staPassword
      ⟨by decide +kernel, by decide +kernel, by decide +kernel⟩
      ⟨by decide +kernel, by decide +kernel, by decide +kernel⟩).mpr
      ⟨.inl (by decide +kernel), .inl (by decide +kernel)⟩,
    ((credentials_stored_iff shortForm [] fun _ => none).2 shortForm.apSsid shortForm.apPassword
      ⟨by decide +kernel, by decide +kernel, by decide +kernel⟩
      ⟨by decide +kernel, by decide +kernel, by decide +kernel⟩).mpr
      ⟨.inl (by decide +kernel), .inl (by decide +kernel)⟩⟩

/-- A password of 63 letters, the longest there is. -/
def longForm : List Field :=
  [plainField (ascii "sta_ssid") (ascii "net") (by decide +kernel),
    plainField (ascii "sta_password") (List.replicate 63 0x61) (by decide +kernel)]

/-- A long password loses its end. -/
theorem long_password_cut :
    bytes (plainField (ascii "sta_password") (List.replicate 63 0x61) (by decide +kernel)).value =
        List.replicate 63 0x61 ∧
      stationPosted longForm [] (fun _ => none) .wifiStaPassword =
        some ⟨List.replicate 53 0x61, false⟩ := by
  refine ⟨by decide, ?_⟩
  rw [stationPosted_eq longForm [] _ stationField_password
    (·.commit_eq (by decide) (by decide))]
  decide +kernel

end EspOpenRtos.WifiCfg
