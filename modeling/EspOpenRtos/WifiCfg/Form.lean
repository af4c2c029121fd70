/-
# Reading forms

The handlers of posted forms read names and values from the socket into one small
buffer, character by character. A text that is longer than the buffer is cut
before it is decoded. What a handler sees of a body is therefore a list of fields,
each with the start of its name and of its value.
-/

import EspOpenRtos.Math.FormEncoding

namespace EspOpenRtos.WifiCfg

open Math.CStrings Math.FormEncoding

/-- The size of the buffer of the server. -/
def HTTP_BUFFER_SIZE : ℕ := 54

/-- What the next reads of one character give. A read fails when the peer is
silent for too long, and always after the end of the connection. -/
abbrev Socket := List (Option UInt8)

/-! ## Names and values -/

/-- What `wificfg_form_name_value` has read: the characters, the delimiter that
ended them (`=` or not), what remains of the content and the socket. -/
structure Piece where
  chars : List UInt8
  stop : Option Bool
  rem : ℕ
  socket : Socket

/-- The loop of `wificfg_form_name_value`. Only a name ends at `=`. -/
def formPiece (isName : Bool) : (rem : ℕ) → Socket → Option Piece
  | 0, s => some ⟨[], none, 0, s⟩
  | _ + 1, [] => none
  | _ + 1, none :: _ => none
  | rem + 1, some c :: s =>
    if isName && c == 0x3D then some ⟨[], some true, rem, s⟩
    else if c == 0x26 then some ⟨[], some false, rem, s⟩
    else (formPiece isName rem s).map fun p => { p with chars := c :: p.chars }

/-- `wificfg_form_url_decode`. -/
def formUrlDecode : List UInt8 → List UInt8
  | [] => []
  | [c] => [if c = 0x2B then 0x20 else c]
  | [c, c1] => (if c = 0x2B then 0x20 else c) :: formUrlDecode [c1]
  | c :: c1 :: c2 :: rest =>
    if c = 0x2B then 0x20 :: formUrlDecode (c1 :: c2 :: rest)
    else if c = 0x25 ∧ isxdigit c1 ∧ isxdigit c2 then
      ((hexValue c1 <<< 4) + hexValue c2) :: formUrlDecode rest
    else c :: formUrlDecode (c1 :: c2 :: rest)

/-- The string in the buffer after `wificfg_form_name_value` and
`wificfg_form_url_decode`. -/
def buffered (chars : List UInt8) : List UInt8 :=
  cstr (formUrlDecode (cstr (chars.take (HTTP_BUFFER_SIZE - 1))))

/-! ## Form names -/

/-- `form_name`. -/
inductive FormName where
  | cfgEnable | cfgPassword | hostname
  | staEnable | staDisabledRestarts | staSsid | staPassword | staDhcp | staIpAddr | staNetmask
  | staGateway | staMdns
  | apEnable | apDisableIfSta | apDisabledRestarts | apSsid | apPassword | apSsidHidden | apChannel
  | apAuthmode | apMaxConn | apBeaconInterval | apIpAddr | apNetmask | apDhcpLeases | apDns | apMdns
  | done | none
deriving DecidableEq

/-- `form_name_table`. -/
def formNameTable : List (String × FormName) :=
  [("cfg_enable", .cfgEnable), ("cfg_password", .cfgPassword), ("hostname", .hostname),
    ("sta_enable", .staEnable), ("sta_disabled_restarts", .staDisabledRestarts),
    ("sta_ssid", .staSsid), ("sta_dhcp", .staDhcp), ("sta_password", .staPassword),
    ("sta_ip_addr", .staIpAddr), ("sta_netmask", .staNetmask), ("sta_gateway", .staGateway),
    ("sta_mdns", .staMdns), ("ap_enable", .apEnable), ("ap_disable_if_sta", .apDisableIfSta),
    ("ap_disabled_restarts", .apDisabledRestarts), ("ap_ssid", .apSsid),
    ("ap_password", .apPassword), ("ap_ssid_hidden", .apSsidHidden), ("ap_channel", .apChannel),
    ("ap_authmode", .apAuthmode), ("ap_max_conn", .apMaxConn),
    ("ap_beacon_interval", .apBeaconInterval), ("ap_ip_addr", .apIpAddr),
    ("ap_netmask", .apNetmask), ("ap_dhcp_leases", .apDhcpLeases), ("ap_dns", .apDns),
    ("ap_mdns", .apMdns), ("done", .done)]

/-- `intern_form_name`. -/
def internFormName (str : List UInt8) : FormName :=
  match formNameTable.find? fun entry => ascii entry.1 == str with
  | some entry => entry.2
  | Option.none => .none

/-! ## The loop of the handlers -/

theorem formPiece_rem_lt {isName : Bool} {rem : ℕ} {s : Socket} {p : Piece}
    (h : formPiece isName rem s = some p) (hpos : 0 < rem) : p.rem < rem := by
  fun_induction formPiece isName rem s generalizing p with
  | case1 => omega
  | case2 => simp at h
  | case3 => simp at h
  | case4 rem c s | case5 rem c s =>
    obtain rfl := Option.some.inj h
    exact Nat.lt_succ_self rem
  | case6 rem c s hname hamp ih =>
    obtain ⟨q, hq, rfl⟩ := Option.map_eq_some_iff.mp h
    rcases Nat.eq_zero_or_pos rem with rfl | hrem
    · obtain rfl := Option.some.inj hq
      exact Nat.one_pos
    · exact (ih hq hrem).trans (Nat.lt_succ_self rem)

theorem formPiece_rem_le {isName : Bool} {rem : ℕ} {s : Socket} {p : Piece}
    (h : formPiece isName rem s = some p) : p.rem ≤ rem := by
  rcases Nat.eq_zero_or_pos rem with rfl | hpos
  · rw [formPiece] at h
    obtain rfl := Option.some.inj h
    exact le_rfl
  · exact (formPiece_rem_lt h hpos).le

/-- The loop over the fields that all handlers of posted forms have. A name at the
very end of the content has no delimiter, and `valp` keeps its value. -/
def formLoop {σ : Type} (onField : FormName → List UInt8 → σ → σ) (valp : Bool) (rem : ℕ)
    (s : Socket) (state : σ) : σ :=
  if _hpos : 0 < rem then
    match _hname : formPiece true rem s with
    | Option.none => state
    | some name =>
      let valp := name.stop.getD valp
      if valp then
        match _hvalue : formPiece false name.rem name.socket with
        | Option.none => state
        | some value =>
          formLoop onField valp value.rem value.socket
            (onField (internFormName (buffered name.chars)) (buffered value.chars) state)
      else formLoop onField valp name.rem name.socket state
  else state
termination_by rem
decreasing_by
  · exact (formPiece_rem_le _hvalue).trans_lt (formPiece_rem_lt _hname _hpos)
  · exact formPiece_rem_lt _hname _hpos

/-- The fields of the content, each with its whole name and value. -/
def contentFields (valp : Bool) (rem : ℕ) (s : Socket) : List (List UInt8 × List UInt8) :=
  if _hpos : 0 < rem then
    match _hname : formPiece true rem s with
    | Option.none => []
    | some name =>
      let valp := name.stop.getD valp
      if valp then
        match _hvalue : formPiece false name.rem name.socket with
        | Option.none => []
        | some value => (name.chars, value.chars) :: contentFields valp value.rem value.socket
      else contentFields valp name.rem name.socket
  else []
termination_by rem
decreasing_by
  · exact (formPiece_rem_le _hvalue).trans_lt (formPiece_rem_lt _hname _hpos)
  · exact formPiece_rem_lt _hname _hpos

section Fields

variable {valp : Bool} {rem : ℕ} {s : Socket}

@[simp]
theorem contentFields_zero : contentFields valp 0 s = [] := by
  rw [contentFields, dif_neg (lt_irrefl 0)]

/-- One field of the content. -/
theorem contentFields_eq (hpos : 0 < rem) :
    contentFields valp rem s =
      match formPiece true rem s with
      | Option.none => []
      | some name =>
        if name.stop.getD valp then
          match formPiece false name.rem name.socket with
          | Option.none => []
          | some value => (name.chars, value.chars) :: contentFields true value.rem value.socket
        else contentFields false name.rem name.socket := by
  rw [contentFields, dif_pos hpos]
  split
  · next hname => rw [hname]
  · next name hname =>
    rw [hname]
    cases hvalp : name.stop.getD valp with
    | false => simp [hvalp]
    | true =>
      simp only [hvalp, if_true]
      split <;> next hvalue => rw [hvalue]

end Fields

/-- A field as a handler sees it. -/
def seen (field : List UInt8 × List UInt8) : FormName × List UInt8 :=
  (internFormName (buffered field.1), buffered field.2)

/-- A handler works through the fields one after the other. -/
theorem formLoop_eq_foldl {σ : Type} (onField : FormName → List UInt8 → σ → σ) (valp : Bool)
    (rem : ℕ) (s : Socket) (state : σ) :
    formLoop onField valp rem s state =
      ((contentFields valp rem s).map seen).foldl (fun st f => onField f.1 f.2 st) state := by
  fun_induction formLoop onField valp rem s state with
  | case1 valp rem s state hpos hname => rw [contentFields_eq hpos, hname]; rfl
  | case2 valp rem s state hpos name hname valp' hvalp hvalue =>
    rw [contentFields_eq hpos, hname]
    simp only [show name.stop.getD valp = true from hvalp, hvalue]
    rfl
  | case3 valp rem s state hpos name hname valp' hvalp value hvalue ih =>
    rw [contentFields_eq hpos, hname, ih, hvalp]
    simp only [show name.stop.getD valp = true from hvalp, hvalue]
    rfl
  | case4 valp rem s state hpos name hname valp' hvalp ih =>
    rw [contentFields_eq hpos, hname, ih, Bool.eq_false_iff.mpr hvalp]
    simp only [if_neg (show ¬name.stop.getD valp = true from hvalp)]
  | case5 valp rem s state hpos =>
    obtain rfl : rem = 0 := by omega
    rw [contentFields_zero]
    rfl

/-! ## Decoding -/

section Decode

variable {c : UInt8} {rest : List UInt8}

theorem formUrlDecode_plain (hplus : c ≠ 0x2B) (hescape : c ≠ 0x25) :
    formUrlDecode (c :: rest) = c :: formUrlDecode rest := by
  match rest with
  | [] | [_] => simp [formUrlDecode, hplus]
  | _ :: _ :: _ => simp [formUrlDecode, hplus, hescape]

theorem formUrlDecode_plus : formUrlDecode (0x2B :: rest) = 0x20 :: formUrlDecode rest := by
  match rest with
  | [] => rfl
  | [_] => rfl
  | _ :: _ :: _ => simp [formUrlDecode]

theorem formUrlDecode_sent (x : Sent) :
    formUrlDecode (x.text ++ rest) = x.byte :: formUrlDecode rest := by
  cases x with
  | literal b allowed =>
    refine formUrlDecode_plain ?_ ?_ <;> rintro rfl <;> exact allowed (by decide)
  | plus => exact formUrlDecode_plus
  | escape hi lo => simp [Sent.text, formUrlDecode, hi.2, lo.2, Sent.byte]

/-- The start of an escape is not decoded. -/
theorem formUrlDecode_cut {n : ℕ} (x : Sent) (hcut : n < x.text.length) :
    formUrlDecode (x.text.take n) = x.text.take n := by
  cases x with
  | literal b allowed | plus =>
    obtain rfl : n = 0 := by simpa [Sent.text] using hcut
    rfl
  | escape hi lo =>
    have hplain : hi.1 ≠ 0x2B := fun h => isxdigit_not_reserved hi (by rw [h]; decide)
    have hn : n < 3 := hcut
    interval_cases n
    · rfl
    · rfl
    · simp [Sent.text, formUrlDecode, hplain]

/-- A text is decoded as far as it was read. -/
theorem formUrlDecode_take (n : ℕ) (sent : List Sent) :
    formUrlDecode ((text sent).take n) = kept n sent := by
  induction sent generalizing n with
  | nil => simp [text, formUrlDecode, kept]
  | cons x sent ih =>
    rw [text_cons, kept]
    split
    · next hfits =>
      rw [List.take_append, List.take_of_length_le hfits, formUrlDecode_sent, ih]
    · next hcut =>
      rw [List.take_append_of_le_length (by omega), formUrlDecode_cut x (by omega)]

theorem buffered_text (sent : List Sent) :
    buffered (text sent) = cstr (kept (HTTP_BUFFER_SIZE - 1) sent) := by
  have hnul : (0 : UInt8) ∉ (text sent).take (HTTP_BUFFER_SIZE - 1) := fun h =>
    (text_ne (List.mem_of_mem_take h)).1 rfl
  rw [buffered, cstr_of_not_mem hnul, formUrlDecode_take]

end Decode

/-! ## Conforming bodies -/

/-- A field as it is sent. -/
structure Field where
  name : List Sent
  value : List Sent

/-- A field that needs no escapes. -/
def plainField (name value : List UInt8)
    (allowed : ∀ b ∈ name ++ value, b ∉ reserved) : Field where
  name := literals name fun b hb => allowed b (List.mem_append_left _ hb)
  value := literals value fun b hb => allowed b (List.mem_append_right _ hb)

/-- The body of a form: fields `name=value` between ampersands. -/
def body : List Field → List UInt8
  | [] => []
  | [f] => text f.name ++ 0x3D :: text f.value
  | f :: fields => text f.name ++ 0x3D :: text f.value ++ 0x26 :: body fields

/-- The name of a field is this one up to a NUL. -/
def ReadsAs (name : String) (f : Field) : Bool := cstr (bytes f.name) == ascii name

/-- A field as a handler sees it. -/
def Field.seen (f : Field) : FormName × List UInt8 := WifiCfg.seen (text f.name, text f.value)

section Body

variable {chars : List UInt8} {s : Socket}

/-- Characters that are no delimiters are read. -/
theorem formPiece_append {isName : Bool}
    (hplain : ∀ c ∈ chars, c ≠ 0x26 ∧ (isName = true → c ≠ 0x3D)) (rem : ℕ) (s : Socket) :
    formPiece isName (chars.length + rem) (chars.map some ++ s) =
      (formPiece isName rem s).map fun p => { p with chars := chars ++ p.chars } := by
  induction chars with
  | nil => simp
  | cons c chars ih =>
    obtain ⟨hamp, heq⟩ := hplain c List.mem_cons_self
    have hrest := ih fun c hc => hplain c (List.mem_cons_of_mem _ hc)
    rw [List.length_cons, Nat.add_right_comm, List.map_cons, List.cons_append, formPiece,
      if_neg (by simpa using heq), if_neg (by simpa using hamp), hrest, Option.map_map]
    rfl

theorem text_plain (isName : Bool) (sent : List Sent) :
    ∀ c ∈ text sent, c ≠ 0x26 ∧ (isName = true → c ≠ 0x3D) :=
  fun _ hc => ⟨(text_ne hc).2.1, fun _ => (text_ne hc).2.2⟩

theorem contentFields_field (valp : Bool) {m : ℕ} {value : Piece} (name : List Sent)
    (hvalue : formPiece false m s = some value) :
    contentFields valp ((text name).length + (m + 1)) ((text name).map some ++ some 0x3D :: s) =
      (text name, value.chars) :: contentFields true value.rem value.socket := by
  rw [contentFields_eq (by omega), formPiece_append (text_plain true name)]
  simp [formPiece, hvalue]

/-- The fields of a conforming body are read one by one. -/
theorem contentFields_body (valp : Bool) (fields : List Field) (s : Socket) :
    contentFields valp (body fields).length ((body fields).map some ++ s) =
      fields.map fun f => (text f.name, text f.value) := by
  induction fields generalizing valp with
  | nil => exact contentFields_zero
  | cons f fields ih =>
    have hvalue := formPiece_append (text_plain false f.value)
    cases fields with
    | nil =>
      have hread := contentFields_field valp f.name (hvalue 0 s)
      simpa [body] using hread
    | cons g fields =>
      have hread := contentFields_field valp f.name
        (hvalue ((body (g :: fields)).length + 1) (some 0x26 :: ((body (g :: fields)).map some ++ s)))
      rw [ih true] at hread
      simpa [body, Nat.add_assoc] using hread

/-- A handler sees the fields of a conforming body. -/
theorem seen_body (fields : List Field) (s : Socket) :
    (contentFields false (body fields).length ((body fields).map some ++ s)).map seen =
      fields.map Field.seen := by
  rw [contentFields_body, List.map_map]
  rfl

end Body

/-! ## Names -/

section Names

variable {name : String} {form : FormName}

theorem internFormName_eq_iff (hentry : (name, form) ∈ formNameTable) (str : List UInt8) :
    internFormName str = form ↔ str = ascii name := by
  have hself : ∀ e ∈ formNameTable, internFormName (ascii e.1) = e.2 := by decide +kernel
  have hinj : ∀ e ∈ formNameTable, ∀ e' ∈ formNameTable, e.2 = e'.2 → e = e' := by decide +kernel
  have hnone : ∀ e ∈ formNameTable, e.2 ≠ .none := by decide
  constructor
  · intro h
    unfold internFormName at h
    split at h
    · next e hfind =>
      obtain rfl := hinj e (List.mem_of_find?_eq_some hfind) _ hentry h
      have hstr := List.find?_some hfind
      exact (beq_iff_eq.mp hstr).symm
    · exact absurd h.symm (hnone _ hentry)
  · rintro rfl
    exact hself _ hentry

theorem Field.seen_snd (f : Field) :
    f.seen.2 = cstr (kept (HTTP_BUFFER_SIZE - 1) f.value) := buffered_text f.value

/-- A short name is recognised however it is written. -/
theorem Field.seen_fst_eq_iff (f : Field) (hentry : (name, form) ∈ formNameTable)
    (hshort : (ascii name).length ≤ 16) : f.seen.1 = form ↔ ReadsAs name f = true := by
  have hname := internFormName_eq_iff hentry (buffered (text f.name))
  have hcut : 3 * ((ascii name).length + 1) ≤ HTTP_BUFFER_SIZE - 1 := by
    rw [HTTP_BUFFER_SIZE]
    omega
  rw [buffered_text, cstr_kept_eq_iff hcut] at hname
  rw [ReadsAs, beq_iff_eq, ← hname, ← buffered_text]
  rfl

theorem readsAs_of_named {f : Field} (hentry : (name, form) ∈ formNameTable)
    (hname : bytes f.name = ascii name) : ReadsAs name f = true := by
  have hnul : ∀ e ∈ formNameTable, (0 : UInt8) ∉ ascii e.1 := by decide +kernel
  rw [ReadsAs, beq_iff_eq, hname, cstr_of_not_mem (hnul _ hentry)]

end Names

end EspOpenRtos.WifiCfg
