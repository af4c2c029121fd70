/-
# The lock

While the configuration is locked, no request runs a secure handler, and only a
challenge that shows the password unlocks it. What counts is what the handler sees:
the start of the name and of the value, decoded and read up to a NUL. So a longer
value that starts with the password unlocks the configuration too, and all others
leave it locked.
-/

import EspOpenRtos.WifiCfg.Request

namespace EspOpenRtos.WifiCfg

open Math.CStrings Math.FormEncoding Math.Runs

/-- The configuration is locked with a password. -/
structure Locked (p : List UInt8) (dev : Device) : Prop where
  disabled : dev.params.getInt8 .cfgEnable = some 0
  password : dev.params.getString .cfgPassword = some p
  nonempty : p ≠ []

/-- The connection runs no secure handler and leaves the lock alone. -/
structure KeepsLock (srv : Server) (dev : Device) (conn : Connection) : Prop where
  handler : ∀ h, (serve srv dev conn).handler = some h → h.secure = false
  enable : (serve srv dev conn).device.params .cfgEnable = dev.params .cfgEnable
  password : (serve srv dev conn).device.params .cfgPassword = dev.params .cfgPassword

/-- What a handler sees of a field is the password. -/
def ShowsPassword (p : List UInt8) (field : List UInt8 × List UInt8) : Prop :=
  buffered field.1 = ascii "cfg_password" ∧ buffered field.2 = p

/-- The connection posts a form to the challenge page, one field of which shows the
password. -/
def Unlocks (srv : Server) (p : List UInt8) (conn : Connection) : Prop :=
  ∃ line s, readCrlfLine conn.socket = (some line, s) ∧ 5 ≤ line.length ∧
    requestLine line = (.post, ascii "/challenge.html") ∧
    let (h, content) := readHeaders srv.hostnameLocal s ⟨.other, false, false, 0⟩
    h.hostRedirect = false ∧ h.contentType = .wwwFormUrlencoded ∧
      ∃ field ∈ contentFields false h.contentLength content, ShowsPassword p field

/-! ## The challenge -/

section Challenge

variable {p : List UInt8} {dev : Device}

/-- A field that shows the password enables the configuration. -/
def challengeWrite (p : List UInt8) (field : FormName × List UInt8) : Option (Option Param) :=
  if field.1 = .cfgPassword ∧ p = field.2 then some (some ⟨[1], true⟩) else none

theorem challengeField_enable (p : List UInt8) :
    fieldWrites (challengeField p) id .cfgEnable (challengeWrite p) := by
  intro name buf params
  cases name <;> simp [challengeField, challengeWrite]
  split
  · simp
    rfl
  · rfl

theorem challengeField_of_ne (p : List UInt8) {k : Key} (hk : k ≠ .cfgEnable) :
    fieldWrites (challengeField p) id k fun _ => none := by
  intro name buf params
  cases name <;> simp [challengeField]
  split <;> simp [hk]

theorem challengeWrite_seen {field : List UInt8 × List UInt8} :
    challengeWrite p (seen field) = some (some ⟨[1], true⟩) ↔ ShowsPassword p field := by
  have hname : (seen field).1 = .cfgPassword ↔ buffered field.1 = ascii "cfg_password" :=
    internFormName_eq_iff (by decide) _
  have hvalue : p = (seen field).2 ↔ buffered field.2 = p := eq_comm
  rw [ShowsPassword, ← hname, ← hvalue, challengeWrite]
  split
  · next h => exact iff_of_true rfl h
  · next h => exact iff_of_false (by simp) h

variable (locked : Locked p dev) (contentLength : ℕ) (s : Socket)
include locked

theorem challengePost_eq :
    handleWificfgChallengePost contentLength .wwwFormUrlencoded s dev.params =
      formLoop (challengeField p) false contentLength s dev.params := by
  rw [handleWificfgChallengePost, if_neg (by simp)]
  simp [locked.disabled, locked.password, locked.nonempty]

theorem challengePost_password (contentType : ContentType) :
    handleWificfgChallengePost contentLength contentType s dev.params .cfgPassword =
      dev.params .cfgPassword := by
  cases contentType with
  | other => rfl
  | wwwFormUrlencoded =>
    rw [challengePost_eq locked]
    have h := formLoop_params (challengeField_of_ne p (k := .cfgPassword) (by decide)) false
      contentLength s dev.params
    simpa using h

theorem challengePost_enable :
    handleWificfgChallengePost contentLength .wwwFormUrlencoded s dev.params .cfgEnable =
      (((contentFields false contentLength s).map seen).filterMap
        (challengeWrite p)).getLast?.getD (dev.params .cfgEnable) := by
  rw [challengePost_eq locked]
  exact formLoop_params (challengeField_enable p) false contentLength s dev.params

/-- A field that shows the password unlocks the configuration. -/
theorem challengePost_unlocks (h : ∃ field ∈ contentFields false contentLength s,
      ShowsPassword p field) :
    handleWificfgChallengePost contentLength .wwwFormUrlencoded s dev.params .cfgEnable =
      some ⟨[1], true⟩ := by
  obtain ⟨field, hmem, hshows⟩ := h
  rw [challengePost_enable locked]
  have hwrite : some ⟨[1], true⟩ ∈ ((contentFields false contentLength s).map seen).filterMap
      (challengeWrite p) :=
    List.mem_filterMap.mpr ⟨seen field, List.mem_map_of_mem hmem,
      challengeWrite_seen.mpr hshows⟩
  obtain ⟨last, hlast⟩ := Option.ne_none_iff_exists'.mp
    (mt List.getLast?_eq_none_iff.mp (List.ne_nil_of_mem hwrite))
  rw [hlast, Option.getD_some]
  -- there is only one value to write
  obtain ⟨f, -, hf⟩ := List.mem_filterMap.mp (List.mem_of_getLast? hlast)
  unfold challengeWrite at hf
  split at hf
  · exact (Option.some.inj hf).symm
  · cases hf

/-- Other fields leave it alone. -/
theorem challengePost_keeps (contentType : ContentType)
    (h : contentType = .wwwFormUrlencoded →
      ¬ ∃ field ∈ contentFields false contentLength s, ShowsPassword p field) :
    handleWificfgChallengePost contentLength contentType s dev.params .cfgEnable =
      dev.params .cfgEnable := by
  cases contentType with
  | other => rfl
  | wwwFormUrlencoded =>
    have hnone : ((contentFields false contentLength s).map seen).filterMap
        (challengeWrite p) = [] := by
      rw [List.filterMap_eq_nil_iff]
      intro f hf
      obtain ⟨field, hmem, rfl⟩ := List.mem_map.mp hf
      refine if_neg fun hcond => h rfl ⟨field, hmem, ?_⟩
      exact challengeWrite_seen.mp (if_pos hcond)
    rw [challengePost_enable locked, hnone]
    rfl

end Challenge

/-! ## One connection -/

section Connection

variable {srv : Server} {p : List UInt8} {dev : Device} {conn : Connection}

/-- The connection of the station does not touch the lock. -/
theorem serve_params {k : Key} (hk : k ≠ .wifiApDisabledRestarts) :
    (serve srv dev conn).device.params k = (serveRequest srv dev conn.socket).device.params k := by
  unfold serve
  dsimp only
  split
  · exact gotStaConnect_of_ne hk
  · rfl

theorem serve_handler :
    (serve srv dev conn).handler = (serveRequest srv dev conn.socket).handler := by
  unfold serve
  dsimp only
  split <;> rfl

/-- While the configuration is locked, a secure page is not authorized. -/
theorem Locked.authorize (locked : Locked p dev) {e e' : Dispatch}
    (h : authorize dev.params e = some e') :
    e' = wificfgChallengeDispatch ∨ e' = e ∧ e.secure = false := by
  unfold WifiCfg.authorize at h
  rw [locked.disabled, locked.password] at h
  split at h
  · split at h
    · exact .inl (Option.some.inj h).symm
    · cases h
  · next hcond =>
    refine .inr ⟨(Option.some.inj h).symm, ?_⟩
    simpa using hcond

theorem dispatch_not_secure :
    ∀ (useTraceFacility : Bool), ∀ e ∈ wificfgDispatchList useTraceFacility, e.secure = false →
      e.handler.secure = false ∧
        (e.handler = .wificfgChallengePost → e.path = "/challenge.html" ∧ e.method = .post) := by
  decide

/-- The handlers that a locked configuration runs. -/
theorem Locked.lookup (locked : Locked p dev) {method : Method} {path : List UInt8} {e : Dispatch}
    (h : (srv.lookup method path).bind (WifiCfg.authorize dev.params) = some e) :
    e.handler.secure = false ∧
      (e.handler = .wificfgChallengePost → method = .post ∧ path = ascii "/challenge.html") := by
  obtain ⟨entry, hfind, hauth⟩ := Option.bind_eq_some_iff.mp h
  rcases locked.authorize hauth with rfl | ⟨rfl, hsecure⟩
  · exact ⟨by decide, fun h => absurd h (by decide)⟩
  · have hmem := List.mem_of_find?_eq_some hfind
    have hmatch := List.find?_some hfind
    rw [Bool.and_eq_true, beq_iff_eq, beq_iff_eq] at hmatch
    obtain ⟨hhandler, hpost⟩ := dispatch_not_secure srv.useTraceFacility e hmem hsecure
    refine ⟨hhandler, fun h => ?_⟩
    obtain ⟨hpath, hmethod⟩ := hpost h
    exact ⟨hmatch.2.symm.trans hmethod, by rw [← hmatch.1, hpath]⟩

theorem Handler.run_of_not_secure {h : Handler} (hsecure : h.secure = false)
    (hne : h ≠ .wificfgChallengePost) {contentLength : ℕ} {contentType : ContentType}
    {s : Socket} : h.run srv dev contentLength contentType s = dev := by
  cases h with
  | wificfgChallengePost => exact absurd rfl hne
  | wificfgIndexPost | wifiStationPost | wifiApPost | restartPost | erasePost =>
    exact absurd hsecure (by decide)
  | _ => rfl

/-- A challenge is run for every post to the challenge page. -/
theorem lookup_challenge (srv : Server) (params : Params) :
    ∃ e, (srv.lookup .post (ascii "/challenge.html")).bind (WifiCfg.authorize params) = some e ∧
      e.handler = .wificfgChallengePost := by
  refine ⟨⟨"/challenge.html", .post, .wificfgChallengePost, false⟩, ?_, rfl⟩
  have hfind : srv.lookup .post (ascii "/challenge.html") =
      some ⟨"/challenge.html", .post, .wificfgChallengePost, false⟩ := by
    rw [Server.lookup]
    cases srv.useTraceFacility <;> rfl
  rw [hfind]
  rfl

/-- What a connection does. -/
theorem serveRequest_cases (srv : Server) (dev : Device) (socket : Socket) :
    serveRequest srv dev socket = ⟨dev, none⟩ ∨
      ∃ line s e, readCrlfLine socket = (some line, s) ∧ 5 ≤ line.length ∧
        (srv.lookup (requestLine line).1 (requestLine line).2).bind
          (WifiCfg.authorize dev.params) = some e ∧
        (readHeaders srv.hostnameLocal s ⟨.other, false, false, 0⟩).1.hostRedirect = false ∧
        serveRequest srv dev socket =
          let h := readHeaders srv.hostnameLocal s ⟨.other, false, false, 0⟩
          ⟨e.handler.run srv dev h.1.contentLength h.1.contentType h.2, some e.handler⟩ := by
  unfold serveRequest
  split
  · exact .inl rfl
  · next line s hline =>
    split
    · exact .inl rfl
    · next hlen =>
      dsimp only
      split
      · exact .inl rfl
      · next hredirect =>
        split
        · exact .inl rfl
        · next e he =>
          exact .inr ⟨line, s, e, hline, by omega, he, by simpa using hredirect, rfl⟩

/-- The request of a challenge. -/
theorem serveRequest_challenge {line : List UInt8} {s : Socket} {socket : Socket}
    (hline : readCrlfLine socket = (some line, s)) (hlen : 5 ≤ line.length)
    (hrequest : requestLine line = (.post, ascii "/challenge.html"))
    (hredirect :
      (readHeaders srv.hostnameLocal s ⟨.other, false, false, 0⟩).1.hostRedirect = false) :
    serveRequest srv dev socket =
      let h := readHeaders srv.hostnameLocal s ⟨.other, false, false, 0⟩
      ⟨Handler.run srv dev h.1.contentLength h.1.contentType h.2 .wificfgChallengePost,
        some .wificfgChallengePost⟩ := by
  obtain ⟨e, he, hhandler⟩ := lookup_challenge srv dev.params
  unfold serveRequest
  rw [hline]
  dsimp only
  rw [if_neg (by omega), hrequest]
  dsimp only
  rw [he, if_neg (by simp [hredirect])]
  dsimp only
  rw [hhandler]

theorem Locked.unlocks (locked : Locked p dev) (h : Unlocks srv p conn) :
    (serve srv dev conn).device.params .cfgEnable = some ⟨[1], true⟩ := by
  obtain ⟨line, s, hline, hlen, hrequest, hredirect, htype, hfield⟩ := h
  rw [serve_params (by decide), serveRequest_challenge hline hlen hrequest hredirect]
  dsimp only [Handler.run]
  rw [htype]
  exact challengePost_unlocks locked _ _ hfield

/-- A locked configuration stays locked exactly if the connection does not unlock it. -/
theorem Locked.keepsLock_iff (locked : Locked p dev) :
    KeepsLock srv dev conn ↔ ¬ Unlocks srv p conn := by
  constructor
  · intro keeps h
    have henable := keeps.enable
    rw [locked.unlocks h] at henable
    have hdisabled := locked.disabled
    rw [Params.getInt8, ← henable] at hdisabled
    exact absurd hdisabled (by decide)
  · intro hnot
    rcases serveRequest_cases srv dev conn.socket with hnone |
      ⟨line, s, e, hline, hlen, hentry, hredirect, hserved⟩
    · refine ⟨fun h hh => ?_, ?_, ?_⟩
      · rw [serve_handler, hnone] at hh
        cases hh
      · rw [serve_params (by decide), hnone]
      · rw [serve_params (by decide), hnone]
    · obtain ⟨hsecure, hpost⟩ := locked.lookup hentry
      have hlock {k : Key} (hk : k ∈ [.cfgEnable, .cfgPassword]) :
          (serve srv dev conn).device.params k = dev.params k := by
        have hne : k ≠ .wifiApDisabledRestarts := by
          rintro rfl
          exact absurd hk (by decide)
        rw [serve_params hne, hserved]
        dsimp only
        by_cases hchallenge : e.handler = .wificfgChallengePost
        · obtain ⟨hmethod, hpath⟩ := hpost hchallenge
          rw [hchallenge]
          simp only [List.mem_cons, List.not_mem_nil, or_false] at hk
          rcases hk with rfl | rfl
          · refine challengePost_keeps locked _ _ _ fun htype hfield => hnot ?_
            exact ⟨line, s, hline, hlen, Prod.ext hmethod hpath, hredirect, htype, hfield⟩
          · exact challengePost_password locked _ _ _
        · rw [Handler.run_of_not_secure hsecure hchallenge]
      refine ⟨fun h hh => ?_, hlock (by decide), hlock (by decide)⟩
      rw [serve_handler, hserved] at hh
      obtain rfl := Option.some.inj hh
      exact hsecure

end Connection

/-! ## Runs -/

/-- A connection that keeps the lock leaves the configuration locked. -/
theorem Locked.serve {srv : Server} {p : List UInt8} {dev : Device} {conn : Connection}
    (locked : Locked p dev) (keeps : KeepsLock srv dev conn) :
    Locked p (serve srv dev conn).device where
  disabled := (getInt8_congr keeps.enable).trans locked.disabled
  password := (getString_congr keeps.password).trans locked.password
  nonempty := locked.nonempty

theorem Locked.along_iff {srv : Server} {p : List UInt8} {dev : Device} (locked : Locked p dev)
    (conns : List Connection) :
    Along (fun dev conn => (WifiCfg.serve srv dev conn).device) (KeepsLock srv) dev conns ↔
      ∀ conn ∈ conns, ¬ Unlocks srv p conn := by
  induction conns generalizing dev with
  | nil => simp [Along]
  | cons conn conns ih =>
    rw [Along, locked.keepsLock_iff, List.forall_mem_cons]
    refine and_congr_right fun hnot => ?_
    exact ih (locked.serve (locked.keepsLock_iff.mpr hnot))

/-! ## Unlocking -/

/-- A challenge with a field that shows the password. -/
theorem ChallengePost.unlocks (c : ChallengePost) {p : List UInt8} {f : Field} (hmem : f ∈ c.fields)
    (hshows : ShowsPassword p (text f.name, text f.value)) (srv : Server) (rest : Socket)
    (gotIp : Bool) : Unlocks srv p ⟨c.request.map some ++ rest, gotIp⟩ := by
  have hlen : 5 ≤ ((challengeLine c.version).map tolower).length := by simp [challengeLine, ascii]
  refine ⟨_, _, c.readCrlfLine rest, hlen, requestLine_challenge c.version, ?_⟩
  rw [readHeaders_eq srv.hostnameLocal c.headers]
  obtain ⟨hredirect, htype, hlength⟩ := c.noted srv.hostnameLocal
  dsimp only
  refine ⟨hredirect, htype, (text f.name, text f.value), ?_, hshows⟩
  rw [hlength, contentFields_body]
  exact List.mem_map_of_mem hmem

/-- A challenge carries the password in a text that fits the buffer. -/
structure Answers (c : ChallengePost) (p : List UInt8) (f : Field) : Prop where
  mem : f ∈ c.fields
  name : bytes f.name = ascii "cfg_password"
  value : bytes f.value = p
  short : (text f.value).length ≤ 53

theorem Answers.shows {c : ChallengePost} {p : List UInt8} {f : Field} (answers : Answers c p f)
    (hnul : (0 : UInt8) ∉ p) : ShowsPassword p (text f.name, text f.value) := by
  constructor
  · rw [buffered_text, cstr_kept_eq_iff (by decide), answers.name]
    decide
  · have hshort : (text f.value).length ≤ HTTP_BUFFER_SIZE - 1 := answers.short
    rw [buffered_text, kept_eq_bytes hshort, answers.value, cstr_of_not_mem hnul]

theorem Locked.nulFree {p : List UInt8} {dev : Device} (locked : Locked p dev) :
    (0 : UInt8) ∉ p := by
  have h := locked.password
  unfold Params.getString at h
  split at h
  · rw [← Option.some.inj h]
    exact not_mem_cstr _
  · cases h

/-- The value of the unlocked parameter. -/
theorem getInt8_of_unlocked {params : Params} (h : params .cfgEnable = some ⟨[1], true⟩) :
    params.getInt8 .cfgEnable = some 1 := by
  rw [Params.getInt8, h]
  rfl

/-- A locked configuration stays locked exactly as long as no challenge shows the
password, and a challenge that carries a short password unlocks it. -/
theorem locked_iff {p : List UInt8} {dev : Device} (locked : Locked p dev) (srv : Server) :
    (∀ conns, Along (fun dev conn => (serve srv dev conn).device) (KeepsLock srv) dev conns ↔
      ∀ conn ∈ conns, ¬ Unlocks srv p conn) ∧
    ∀ c f, Answers c p f → ∀ rest gotIp,
      (serve srv dev ⟨c.request.map some ++ rest, gotIp⟩).device.params.getInt8 .cfgEnable =
        some 1 := by
  refine ⟨locked.along_iff, fun c f answers rest gotIp => getInt8_of_unlocked ?_⟩
  exact locked.unlocks (c.unlocks answers.mem (answers.shows locked.nulFree) srv rest gotIp)

/-- A device that is locked with a password. -/
def lockedDevice (p : List UInt8) : Device where
  params := fun
    | .cfgEnable => some ⟨[0], true⟩
    | .cfgPassword => some ⟨p, false⟩
    | _ => none
  gotStaConnect := false

theorem locked_lockedDevice {p : List UInt8} (hnul : (0 : UInt8) ∉ p) (hne : p ≠ []) :
    Locked p (lockedDevice p) :=
  ⟨rfl, congrArg some (cstr_of_not_mem hnul), hne⟩

/-- A header with one space before its value. -/
def plainHeader (name value : List UInt8) (token : ∀ c ∈ name, Printable c ∧ c ≠ 0x3A)
    (printable : ∀ c ∈ value, Printable c) : HeaderField := ⟨name, 1, value, token, printable⟩

/-- The headers of a browser for a form of `n` bytes. -/
def browserHeaders (n : ℕ) : List HeaderField :=
  [plainHeader (ascii "Host") (ascii "192.168.4.1") (by decide +kernel) (by decide +kernel),
    plainHeader (ascii "Content-Type") (ascii "application/x-www-form-urlencoded")
      (by decide +kernel) (by decide +kernel),
    plainHeader (ascii "Content-Length") (numeral n) (by decide +kernel) fun _ hc =>
      printable_of_isdigit (isdigit_of_mem_numeral hc)]

theorem formHeader_browserHeaders {n : ℕ} (hn : n < 100) :
    ∀ h ∈ browserHeaders n, FormHeader n h := by
  have hshort : ∀ m < 100, (numeral m).length ≤ 2 := by decide +kernel
  intro h hh
  simp only [browserHeaders, List.mem_cons, List.not_mem_nil, or_false] at hh
  rcases hh with rfl | rfl | rfl
  · refine ⟨fun _ => ⟨192, 168, 4, 1, none, by decide +kernel⟩, fun h => ?_, fun h => ?_, ?_⟩
    · exact absurd h (by decide)
    · exact absurd h (by decide)
    · decide
  · refine ⟨fun h => ?_, fun _ => rfl, fun h => ?_, ?_⟩
    · exact absurd h (by decide)
    · exact absurd h (by decide)
    · decide
  · have hname (name : String) (hne : (ascii "Content-Length").map tolower ≠ ascii name) :
        ¬ (plainHeader (ascii "Content-Length") (numeral n) (by decide +kernel) fun _ hc =>
          printable_of_isdigit (isdigit_of_mem_numeral hc)).IsNamed name = true :=
      fun h => hne (beq_iff_eq.mp h)
    refine ⟨fun h => ?_, fun h => ?_, fun _ => rfl, fun _ => ?_⟩
    · exact absurd h (hname "host" (by decide))
    · exact absurd h (hname "content-type" (by decide))
    · have hle := hshort n hn
      simp [HeaderField.line, plainHeader, HTTP_BUFFER_SIZE, ascii]
      omega

/-- A small challenge. -/
def browserPost (fields : List Field) (hsmall : (body fields).length < 100) : ChallengePost where
  version := ascii "HTTP/1.1"
  headers := browserHeaders (body fields).length
  fields := fields
  printable := by decide +kernel
  form := formHeader_browserHeaders hsmall
  typed := rfl
  sized := rfl
  representable := by omega

/-- The field for a password. -/
def passwordField (p : List UInt8) (allowed : ∀ b ∈ ascii "cfg_password" ++ p, b ∉ reserved) :
    Field := plainField (ascii "cfg_password") p allowed

/-- A server without a name. -/
def namelessServer : Server := ⟨none, false, ⟨none, none, none⟩⟩

theorem locked_secret :
    (serve namelessServer (lockedDevice (ascii "secret")) ⟨(browserPost
      [passwordField (ascii "secret") (by decide +kernel)] (by decide +kernel)).request.map some,
        false⟩).device.params.getInt8 .cfgEnable = some 1 := by
  have h := (locked_iff (locked_lockedDevice (p := ascii "secret") (by decide) (by decide))
    namelessServer).2
    (browserPost [passwordField (ascii "secret") (by decide +kernel)] (by decide +kernel))
    (passwordField (ascii "secret") (by decide +kernel))
    ⟨by simp [browserPost], by decide +kernel, by decide +kernel, by decide +kernel⟩ [] false
  rwa [List.append_nil] at h

/-- A password of 53 letters, and a longer value. -/
def longPassword : List UInt8 := List.replicate 53 0x61

def longerField : Field := passwordField (List.replicate 54 0x61) (by decide +kernel)

/-- A longer value that starts with the password unlocks the configuration. -/
theorem longer_value_unlocks :
    Locked longPassword (lockedDevice longPassword) ∧ bytes longerField.value ≠ longPassword ∧
      (serve namelessServer (lockedDevice longPassword)
        ⟨(browserPost [longerField] (by decide +kernel)).request.map some,
          false⟩).device.params.getInt8 .cfgEnable = some 1 := by
  exact ⟨locked_lockedDevice (by decide) (by decide), by decide +kernel, by decide +kernel⟩

end EspOpenRtos.WifiCfg
