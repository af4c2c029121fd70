/-
# The server

The server answers one request for each connection. It reads the request line and
decides from it which handler is to run, reads the headers and notes those it
knows, and lets the handler read the rest. Lines go through the same small buffer
as the forms, in lower case. A page that is marked secure is replaced by the
challenge page, or not found, while the configuration is locked.
-/

import EspOpenRtos.WifiCfg.Boot
import EspOpenRtos.WifiCfg.Posts

namespace EspOpenRtos.WifiCfg

open Math.CStrings

/-! ## Lines -/

/-- `read_crlf_line`: the characters of the line, of which the buffer holds the
first, and the socket behind it. There is no line if a read fails before its end. -/
def readCrlfLine : Socket → Option (List UInt8) × Socket
  | [] => (none, [])
  | none :: s => (none, s)
  | some c :: s =>
    if c = 0x0A then (some [], s)
    else if c < 0x20 ∨ c > 0x7E then readCrlfLine s
    else ((readCrlfLine s).1.map (tolower c :: ·), (readCrlfLine s).2)

/-- The string in the buffer. -/
def lineBuf (line : List UInt8) : List UInt8 := line.take (HTTP_BUFFER_SIZE - 1)

/-- `wificfg_method`. -/
inductive Method where
  | get | post | head | other
deriving DecidableEq

/-- `intern_http_method`. -/
def internHttpMethod (str : List UInt8) : Method :=
  if str = ascii "get" then .get
  else if str = ascii "post" then .post
  else if str = ascii "head" then .head
  else .other

/-- The method and the path of a request line. -/
def requestLine (line : List UInt8) : Method × List UInt8 :=
  let buf := lineBuf line
  let method := buf.takeWhile (!isspace ·)
  let path := ((buf.drop method.length).dropWhile isspace).takeWhile (!isspace ·)
  (internHttpMethod method, path)

/-! ## Headers -/

/-- `http_header`. -/
inductive HttpHeader where
  | host | contentLength | contentType | connection | other
deriving DecidableEq

/-- `intern_http_header`. -/
def internHttpHeader (str : List UInt8) : HttpHeader :=
  if str = ascii "host" then .host
  else if str = ascii "content-length" then .contentLength
  else if str = ascii "content-type" then .contentType
  else if str = ascii "connection" then .connection
  else .other

/-- `intern_http_content_type`. -/
def internHttpContentType (str : List UInt8) : ContentType :=
  if str = ascii "application/x-www-form-urlencoded" then .wwwFormUrlencoded else .other

/-- `host_is_name`. -/
def hostIsName (host : List UInt8) : Bool :=
  let first := host.headD 0
  let last := host.getLastD 0
  if host.length < 4 then true
  else if first = 0x5B ∧ last = 0x5D then false
  else if isdigit first ∧ isdigit last then false
  else true

/-- What is noted of the headers. -/
structure Headers where
  contentType : ContentType
  connectionClose : Bool
  hostRedirect : Bool
  contentLength : ℕ

/-- A header with its value. -/
def noteValue (hostnameLocal : Option (List UInt8)) (name value : List UInt8) (h : Headers) :
    Headers :=
  match internHttpHeader name with
  | .host =>
    if hostIsName value ∧ hostnameLocal ≠ some value then { h with hostRedirect := true } else h
  | .contentLength => { h with contentLength := strtoul value }
  | .contentType => { h with contentType := internHttpContentType value }
  | .connection => { h with connectionClose := value = ascii "close" }
  | .other => h

/-- One header line. -/
def noteHeader (hostnameLocal : Option (List UInt8)) (line : List UInt8) (h : Headers) : Headers :=
  let buf := lineBuf line
  let name := buf.takeWhile (· ≠ 0x3A)
  match buf.drop name.length with
  | [] => h
  | _ :: rest => noteValue hostnameLocal name (rest.dropWhile isspace) h

theorem readCrlfLine_length_le (s : Socket) : (readCrlfLine s).2.length ≤ s.length := by
  fun_induction readCrlfLine s with
  | case1 => exact le_rfl
  | case2 s => exact Nat.le_succ _
  | case3 s => exact Nat.le_succ _
  | case4 c s _ _ ih | case5 c s _ _ ih => exact ih.trans (Nat.le_succ _)

theorem readCrlfLine_length_lt {s : Socket} {line : List UInt8}
    (h : (readCrlfLine s).1 = some line) : (readCrlfLine s).2.length < s.length := by
  cases s with
  | nil => cases h
  | cons x s =>
    cases x with
    | none => exact Nat.lt_succ_self _
    | some c =>
      rw [readCrlfLine] at h ⊢
      split_ifs at h ⊢
      · exact Nat.lt_succ_self _
      · exact Nat.lt_succ_of_le (readCrlfLine_length_le s)
      · exact Nat.lt_succ_of_le (readCrlfLine_length_le s)

/-- The loop over the headers. It ends at an empty line, and when a read fails. -/
def readHeaders (hostnameLocal : Option (List UInt8)) (s : Socket) (h : Headers) :
    Headers × Socket :=
  match _hline : (readCrlfLine s).1 with
  | some (c :: line) =>
    readHeaders hostnameLocal (readCrlfLine s).2 (noteHeader hostnameLocal (c :: line) h)
  | _ => (h, (readCrlfLine s).2)
termination_by s.length
decreasing_by exact readCrlfLine_length_lt _hline

/-! ## Dispatch -/

/-- The handlers. -/
inductive Handler where
  | favicon | style | script | wificfgRedirect | wificfgIndex | wificfgIndexPost
  | wifiStation | wifiStationPost | wifiAp | wifiApPost | wificfgChallenge | wificfgChallengePost
  | restartPost | erasePost | tasks
deriving DecidableEq

/-- `wificfg_dispatch`. -/
structure Dispatch where
  path : String
  method : Method
  handler : Handler
  secure : Bool

/-- `wificfg_dispatch_list`. The pages about tasks depend on how the program is
built. -/
def wificfgDispatchList (useTraceFacility : Bool) : List Dispatch :=
  [⟨"/favicon.ico", .get, .favicon, false⟩,
    ⟨"/style.css", .get, .style, false⟩,
    ⟨"/script.js", .get, .script, false⟩,
    ⟨"/", .get, .wificfgRedirect, false⟩,
    ⟨"/index.html", .get, .wificfgRedirect, false⟩,
    ⟨"/wificfg/", .get, .wificfgIndex, true⟩,
    ⟨"/wificfg/", .post, .wificfgIndexPost, true⟩,
    ⟨"/wificfg/sta.html", .get, .wifiStation, true⟩,
    ⟨"/wificfg/sta.html", .post, .wifiStationPost, true⟩,
    ⟨"/wificfg/ap.html", .get, .wifiAp, true⟩,
    ⟨"/wificfg/ap.html", .post, .wifiApPost, true⟩,
    ⟨"/challenge.html", .get, .wificfgChallenge, false⟩,
    ⟨"/challenge.html", .post, .wificfgChallengePost, false⟩,
    ⟨"/wificfg/restart.html", .post, .restartPost, true⟩,
    ⟨"/wificfg/erase.html", .post, .erasePost, true⟩] ++
  if useTraceFacility then
    [⟨"/tasks", .get, .tasks, false⟩, ⟨"/tasks.html", .get, .tasks, false⟩]
  else []

/-- `wificfg_challenge_dispatch`. -/
def wificfgChallengeDispatch : Dispatch := ⟨"/challenge.html", .get, .wificfgChallenge, false⟩

/-- A running server: the name by which clients address it, and how the program was
built. There is no application dispatch table. -/
structure Server where
  hostnameLocal : Option (List UInt8)
  useTraceFacility : Bool
  defaults : Defaults

/-- The entry for a request. -/
def Server.lookup (srv : Server) (method : Method) (path : List UInt8) : Option Dispatch :=
  (wificfgDispatchList srv.useTraceFacility).find? fun e =>
    ascii e.path == path && e.method == method

/-- The check of secure pages. -/
def authorize (params : Params) (entry : Dispatch) : Option Dispatch :=
  if entry.secure ∧ (params.getInt8 .cfgEnable).getD 1 = 0 then
    match params.getString .cfgPassword with
    | some (_ :: _) => some wificfgChallengeDispatch
    | _ => none
  else some entry

/-! ## Handlers -/

/-- What a handler does to the device. Pages change nothing. -/
def Handler.run (srv : Server) (dev : Device) (contentLength : ℕ) (contentType : ContentType)
    (s : Socket) : Handler → Device
  | .wificfgIndexPost =>
    { dev with params := handleWificfgIndexPost contentLength contentType s dev.params }
  | .wifiStationPost =>
    { dev with params := handleWifiStationPost contentLength contentType s dev.params }
  | .wifiApPost => { dev with params := handleWifiApPost contentLength contentType s dev.params }
  | .wificfgChallengePost =>
    { dev with params := handleWificfgChallengePost contentLength contentType s dev.params }
  | .restartPost => Event.boot.apply srv.defaults dev
  | .erasePost => Event.boot.apply srv.defaults { dev with params := fun _ => none }
  | _ => dev

/-- A connection: what is read from it, and whether the station has an address when
it is closed. -/
structure Connection where
  socket : Socket
  gotIp : Bool

/-- The device after a connection, and the handler that was run. -/
structure Served where
  device : Device
  handler : Option Handler

/-- One connection of `server_task`, up to its end. -/
def serveRequest (srv : Server) (dev : Device) (socket : Socket) : Served :=
  match readCrlfLine socket with
  | (none, _) => ⟨dev, none⟩
  | (some line, s) =>
    if line.length < 5 then ⟨dev, none⟩
    else
      let request := requestLine line
      let entry := (srv.lookup request.1 request.2).bind (authorize dev.params)
      let (h, s) := readHeaders srv.hostnameLocal s ⟨.other, false, false, 0⟩
      if h.hostRedirect then ⟨dev, none⟩
      else
        match entry with
        | none => ⟨dev, none⟩
        | some e => ⟨e.handler.run srv dev h.contentLength h.contentType s, some e.handler⟩

/-- The handlers that do not return. -/
def Handler.restarts : Handler → Bool
  | .restartPost | .erasePost => true
  | _ => false

/-- One connection of `server_task`. -/
def serve (srv : Server) (dev : Device) (conn : Connection) : Served :=
  let served := serveRequest srv dev conn.socket
  if conn.gotIp ∧ served.handler.all (!·.restarts) then
    { served with device := gotStaConnect served.device }
  else served

/-- The handlers that are marked secure. -/
def Handler.secure (h : Handler) : Bool :=
  (wificfgDispatchList true).any fun e => e.handler == h && e.secure

end EspOpenRtos.WifiCfg
