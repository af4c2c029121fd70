/-
# The lookup of a set

Before it writes anything, `sysparam_set_data` looks for the key and its current
value, compares the value, and counts what a compaction would gain. This module
says what these variables are in terms of the log.
-/

import EspOpenRtos.Sysparam.Appending
import EspOpenRtos.Sysparam.CompactSpec

namespace EspOpenRtos.Sysparam

open Math Math.NorFlash Math.KeyedLog

/-- A scan that goes on from a context to the end counts the given items. -/
def Resumes (d : Device) (info : Info) (ctx : Context) (R : Items) : Prop :=
  ∀ ctx₀ J, ctx₀.addr = ctx.addr → ctx₀.entry = ctx.entry → ctx₀.Counted J →
    ∃ ctx' info', findEntry d info ctx₀ entryIdEnd false = (.ok, ctx', info') ∧ ctx'.Counted (J ++ R)

/-- The variables of a set after the lookup of its key. Only a log that ends one
byte before its region makes the lookup set the force-compaction flag. -/
structure Located (a : Area) (s : Sys) (second : Bool) (I : Items) (k : Payload) (t : Setting) :
    Prop where
  dev : t.sys.dev = s.dev
  info : s.info.UpToFlag t.sys.info
  calm : a.logEnd second I + 1 ≠ a.region second + a.size → t.sys.info = s.info
  keyId : t.keyId = KeyedLog.keyId I k
  lastId : KeyedLog.keyId I k = none → t.ctx.maxKeyId = KeyedLog.lastId I
  unused : KeyedLog.keyId I k = none → t.ctx.unusedKeys = KeyedLog.unused I
  rest : a.logEnd second I + 6 ≤ a.region second + a.size →
    ∃ P R, I = P ++ R ∧ t.ctx.Counted P ∧ Resumes t.sys.dev t.sys.info t.ctx R

/-- The key has a value, and the variables say where. -/
structure OldValue (a : Area) (f : Image) (second : Bool) (I : Items) (k : Payload)
    (content : Content) (t : Setting) (id : ℕ) (A S : Items) : Prop where
  lookup : KeyedLog.lookup I k = some content
  keyId : KeyedLog.keyId I k = some id
  split : I = A ++ .value id content :: S
  delete : KeyedLog.delete itemSize k I = A ++ .dead (itemSize (.value id content)) :: S
  oldValueAddr : t.oldValueAddr = a.logEnd second A
  entry : ∃ e : Entry, e.item = .value id content ∧ t.ctx.entry = e.header ∧
    t.ctx.addr = a.logEnd second A ∧ read f (a.logEnd second A) e.size = e.bytes

/-- What is known of the value that the key has now. -/
def Sought (a : Area) (f : Image) (second : Bool) (I : Items) (k : Payload) (t : Setting) : Prop :=
  lookup I k = none ∧ t.oldValueAddr = 0 ∨
    ∃ content id A S, OldValue a f second I k content t id A S

theorem Sought.of_lookup {a : Area} {f : Image} {second : Bool} {I : Items} {k : Payload}
    {t : Setting} {status : Status} (h : status = .notFound ∧ lookup I k = none ∧ t.oldValueAddr = 0 ∨
      status = .ok ∧ ∃ content id A S, OldValue a f second I k content t id A S) :
    Sought a f second I k t :=
  h.imp And.right And.right

section Lookup

variable {a : Area} {s : Sys} {second : Bool} {I : Items} {k : Payload}

theorem findValue_masked {d : Device} {info : Info} {ctx : Context} {e : Entry} {id : ℕ}
    (hentry : ctx.entry = e.header) (hkey : e.item = .key id k) :
    findValue d info ctx (ctx.entry.idflags &&& entryMaskId) = findEntry d info ctx id true := by
  rw [← findValue_key hentry hkey, findValue, findValue, UInt16.and_assoc, UInt16.and_self]

/-- A live entry that the walk sees is one of the log. -/
theorem split_of_live {L T P R : List Entry} {e : Entry} (h : L ++ T = P ++ e :: R)
    (hdead : Dead (items T)) (hlive : ∀ n, e.item ≠ .dead n) :
    ∃ R', L = P ++ e :: R' ∧ R = R' ++ T := by
  have hT : e ∉ T := fun hmem =>
    (hdead _ (List.mem_map_of_mem hmem)).elim hlive
  rcases List.append_eq_append_iff.mp h with ⟨M, -, rfl⟩ | ⟨M, hL, hM⟩
  · exact absurd (by simp) hT
  · cases M with
    | nil =>
      obtain rfl : e :: R = T := hM
      exact absurd List.mem_cons_self hT
    | cons m M =>
      obtain ⟨rfl, rfl⟩ : e = m ∧ R = M ++ T := by simpa using hM
      exact ⟨M, hL, rfl⟩

theorem Region.resumes {d : Device} {info : Info} {ctx : Context} {hi : ℕ} {P R : List Entry} {e : Entry}
    (h : Region d info hi (P ++ e :: R)) (haddr : ctx.addr = info.addrAfter P)
    (hentry : ctx.entry = e.header) : Resumes d info ctx (items R) := by
  intro ctx₀ J haddr₀ hentry₀ hcounted
  have hnext := Context.next_of_entry Info.curBase_lt_addrAfter (haddr₀.trans haddr)
    (hentry₀.trans hentry)
  have hskip := h.isMatch_end
  rw [List.append_cons] at h hskip
  have hwalk := h.walk_after
  rw [Info.addrAfter_append] at hwalk
  have hsize : logSize (items [e]) = e.size := by simp
  rw [hsize] at hwalk
  have hscan : Scanning d info hi ctx₀ (info.addrAfter P + e.size) J R :=
    ⟨hwalk, h.covers, h.readable, Nat.lt_add_right _ Info.curBase_lt_addrAfter, hnext, hcounted⟩
  obtain ⟨ctx', hfind, -, hend⟩ := hscan.findEntry_none entryIdEnd false
    fun x hx => hskip x (List.mem_append_right _ hx)
  exact ⟨ctx', _, hfind, hend.counted⟩

/-- A scan that goes on after a search without success looks at the erased space
four bytes behind the log. In a log that ends five bytes before the end of the
area, the byte behind the area must not complete a live entry there. -/
def Shielded (a : Area) (f : Image) (second : Bool) (I : Items) : Prop :=
  a.logEnd second I + 5 = a.top → Inert (f a.top)

theorem shielded_of_room {f : Image}
    (hroom : a.logEnd second I + 6 ≤ a.region second + a.size) : Shielded a f second I := by
  intro hlast
  have htop := a.region_add_size_le second
  omega

/-- Behind the log there is nothing live to count. -/
theorem Opened.resumes_end {ctx : Context} (h : Opened a s second I)
    (hshielded : Shielded a s.dev.bytes second I) (haddr : ctx.addr = a.logEnd second I)
    (hentry : ctx.entry = ⟨0, 0⟩) :
    ∃ D, Resumes s.dev s.info ctx D ∧ (∀ item ∈ D, ∃ n, item = .dead n) ∧
      (a.logEnd second I + 6 ≤ a.region second + a.size → D = []) := by
  obtain ⟨L, rfl, hlayout⟩ := h.holds.log
  have htop := h.top_eq
  have hlimit := a.region_add_size_le second
  have hlogEnd : a.logEnd second (items L) = a.region second + regionHeaderSize + logSize (items L) := rfl
  have hinert : a.logEnd second (items L) + 4 + 1 = s.info.top → Inert (s.dev.bytes s.info.top) := by
    intro hlast
    rw [htop] at hlast ⊢
    cases second with
    | false => exact inert_spare h.spare
    | true =>
      have harea : a.region true + a.size = a.top := by simp [Area.top]; omega
      rw [harea] at hlast ⊢
      exact hshielded hlast
  obtain ⟨T, (hwalk : Walk _ _ a.limit _ T), hdead, hT⟩ := walk_of_erased
    (fun x hlo hhi => hlayout.erased x (by omega) (by omega)) hinert
  refine ⟨items T, ?_, hdead, ?_⟩
  · intro ctx₀ J haddr₀ hentry₀ hcounted
    have hnext : ctx₀.Next s.info (a.logEnd second (items L) + 4) := by
      rw [Context.Next, advance, haddr₀, haddr, hentry₀, hentry,
        if_neg (by rw [h.curBase, hlogEnd, regionHeaderSize]; omega)]
      rfl
    have hskip : ∀ x ∈ T, x.header.isMatch entryIdEnd false = false := by
      intro x hx
      by_contra hmatch
      obtain ⟨name, hkey⟩ := Entry.isMatch_end (by simpa using hmatch)
      obtain ⟨n, hn⟩ := hdead x.item (List.mem_map_of_mem hx)
      rw [hkey] at hn
      cases hn
    have hscan : Scanning s.dev s.info a.limit ctx₀ (a.logEnd second (items L) + 4) J T :=
      ⟨hwalk, h.covers, by rw [htop, Area.limit]; omega,
        by rw [h.curBase, hlogEnd, regionHeaderSize]; omega, hnext, hcounted⟩
    obtain ⟨ctx', hfind, -, hend⟩ := hscan.findEntry_none entryIdEnd false hskip
    exact ⟨ctx', _, hfind, hend.counted⟩
  · intro hroom
    rcases hT with rfl | ⟨hlast, -⟩
    · rfl
    · omega

/-- A scan that goes on behind the lookup counts the rest of the log. Near the
end of the region it may count dead entries that are not part of it. -/
def Remaining (a : Area) (second : Bool) (I : Items) (t : Setting) : Prop :=
  ∃ P R D, P ++ R = I ++ D ∧ (∀ item ∈ D, ∃ n, item = .dead n) ∧
    (a.logEnd second I + 6 ≤ a.region second + a.size → D = []) ∧
    t.ctx.Counted P ∧ Resumes t.sys.dev t.sys.info t.ctx R

theorem Remaining.split {t : Setting} (h : Remaining a second I t)
    (hroom : a.logEnd second I + 6 ≤ a.region second + a.size) :
    ∃ P R, I = P ++ R ∧ t.ctx.Counted P ∧ Resumes t.sys.dev t.sys.info t.ctx R := by
  obtain ⟨P, R, D, hsplit, -, hnone, hcounted, hresumes⟩ := h
  rw [hnone hroom, List.append_nil] at hsplit
  exact ⟨P, R, hsplit.symm, hcounted, hresumes⟩

/-- The lookup finds what the log has for the key, and a scan can go on from there. -/
theorem Opened.lookupKey_remaining (h : Opened a s second I)
    (hsealed : Sealed a s.dev.bytes second I) (k : Payload) :
    ∃ status t, lookupKey s k.1 = (status, t) ∧ Located a s second I k t ∧
      ((lookup I k = none → Shielded a s.dev.bytes second I) → Remaining a second I t) ∧
      (status = .notFound ∧ lookup I k = none ∧ t.oldValueAddr = 0 ∨
        status = .ok ∧ ∃ content id A S, OldValue a s.dev.bytes second I k content t id A S) := by
  obtain ⟨L, T, rfl, hlayout, hregion, hdead, hT⟩ := h.region hsealed
  have haddr (P : List Entry) : s.info.addrAfter P = a.logEnd second (items P) := by
    rw [Info.addrAfter, h.curBase, Area.logEnd]
  have htop := h.top_eq
  -- the dead entry behind the log makes no difference
  have hkeyId : keyId (items (L ++ T)) k = keyId (items L) k := by
    rw [items_append, keyId_append_dead hdead]
  have hlookup : lookup (items (L ++ T)) k = lookup (items L) k := by
    rw [items_append, lookup_append_dead hdead]
  have hcalm (hne : a.logEnd second (items L) + 1 ≠ a.region second + a.size) :
      s.info.truncatedAt (s.info.addrAfter (L ++ T)) = s.info := by
    rcases hT with rfl | ⟨hlast, -⟩
    · rw [List.append_nil]
      exact Info.truncatedAt_of_le (by rw [haddr, htop]; exact hlayout.fits)
    · exact absurd hlast hne
  have hplain (hroom : a.logEnd second (items L) + 6 ≤ a.region second + a.size) : T = [] := by
    refine hT.resolve_right fun hlast => ?_
    rw [Area.logEnd] at hroom
    omega
  -- a search without success ends behind the log, and a scan can go on from there
  have hmissing {ctx start : Context} {P R : List Entry} {J : Items} {id : Option ℕ}
      (hid : keyId (items L) k = id) (hL : L = P ++ R)
      (hend : ctx.AtEnd start s.info.top (s.info.addrAfter P) J (R ++ T))
      (hentry : ctx.entry = ⟨0, 0⟩) (hcounted : ctx.Counted (items (L ++ T))) :
      Located a s second (items L) k
          ⟨⟨s.dev, s.info.truncatedAt (s.info.addrAfter (L ++ T))⟩, ctx, id, 0⟩ ∧
        (Shielded a s.dev.bytes second (items L) → Remaining a second (items L)
          ⟨⟨s.dev, s.info.truncatedAt (s.info.addrAfter (L ++ T))⟩, ctx, id, 0⟩) := by
    have hflag := s.info.upToFlag_truncatedAt (s.info.addrAfter (L ++ T))
    have hlogEnd : s.info.addrAfter P + logSize (items R) = a.logEnd second (items L) := by
      rw [← Info.addrAfter_append, ← hL, haddr]
    have hstop : ctx.addr = a.logEnd second (items L) := by
      rcases hT with rfl | ⟨hlast, x, rfl⟩
      · have hfull := hend.full
        rw [List.append_nil, hlogEnd] at hfull
        exact hfull (htop ▸ hlayout.fits)
      · exact (hend.addr_of_past (by rw [hlogEnd, Area.logEnd]; omega)).trans hlogEnd
    have hrest (hshielded : Shielded a s.dev.bytes second (items L)) : Remaining a second (items L)
        ⟨⟨s.dev, s.info.truncatedAt (s.info.addrAfter (L ++ T))⟩, ctx, id, 0⟩ := by
      have hopened : Opened a ⟨s.dev, s.info.truncatedAt _⟩ second (items L) := h.of_flag rfl hflag
      obtain ⟨D, hresumes, hD, hroomD⟩ := hopened.resumes_end hshielded hstop hentry
      refine ⟨items (L ++ T), D, items T ++ D, by simp, fun item hitem => ?_, fun hroom => ?_,
        hcounted, hresumes⟩
      · exact (List.mem_append.mp hitem).elim (hdead item) (hD item)
      · rw [hplain hroom, hroomD hroom]
        rfl
    refine ⟨⟨rfl, hflag, hcalm, hid.symm, fun _ => ?_, fun _ => ?_,
      fun hroom => (hrest (shielded_of_room hroom)).split hroom⟩, hrest⟩
    · exact hcounted.last.trans (by rw [items_append, lastId_append_dead hdead])
    · exact hcounted.unused.trans (by rw [items_append, unused_append_dead hdead])
  simp only [Sysparam.lookupKey]
  cases hfind : find k (items (L ++ T)) with
  | none =>
    obtain ⟨ctx, hnone, hentry, hend⟩ := hregion.findKey_none hfind
    have hnoKey : keyId (items L) k = none := by
      rw [← hkeyId, keyId, hfind]
      rfl
    have hcounted := hend.counted
    rw [List.nil_append] at hcounted
    rw [hnone]
    obtain ⟨hlocated, hrest⟩ := hmissing hnoKey (List.nil_append _).symm hend hentry hcounted
    have hvalue := lookup_of_keyId_none hnoKey
    exact ⟨_, _, rfl, hlocated, fun hshielded => hrest (hshielded hvalue), Or.inl ⟨rfl, hvalue, rfl⟩⟩
  | some p =>
    obtain ⟨id, rest⟩ := p
    have hid : keyId (items (L ++ T)) k = some id := by rw [keyId, hfind]; rfl
    have hrange := hregion.id_le hid
    rw [hkeyId] at hid
    have hnotNone : keyId (items L) k ≠ none := by simp [hid]
    have hcandidates : lookup (items L) k = (values id rest).head? := by
      rw [← hlookup, lookup, candidates, hfind]
    obtain ⟨P, e, R, ctx, hW, hkey, rfl, hfound, -, hentry, hafter, hskip⟩ :=
      hregion.findKey_some hfind
    obtain ⟨heid, -⟩ := Entry.item_eq_key hkey
    have hctxId : ctx.entry.id = id := by rw [hentry, heid]
    rw [hfound]
    simp only [findValue_masked hentry hkey, hctxId]
    rw [hW, List.append_cons] at hregion
    cases hvalues : values id (items R) with
    | nil =>
      obtain ⟨ctx', hnone, hentry', hend⟩ := hregion.findEntry_no_value hafter
        (by simp only [entryIdEnd, maxKeyId] at hrange ⊢; omega) hvalues
      rw [hnone]
      rw [← List.append_cons, ← hW]
      have hcounted := hend.counted
      rw [← items_append, ← List.append_cons, ← hW] at hcounted
      -- the key is one of the log
      obtain ⟨R', hL, rfl⟩ := split_of_live hW hdead (by simp [hkey])
      rw [List.append_cons] at hL
      obtain ⟨hlocated, hrest⟩ := hmissing hid hL hend hentry' hcounted
      have hvalue : lookup (items L) k = none := by rw [hcandidates, hvalues]; rfl
      exact ⟨_, _, rfl, hlocated, fun hshielded => hrest (hshielded hvalue), Or.inl ⟨rfl, hvalue, rfl⟩⟩
    | cons content rest =>
      obtain ⟨Q, v, S, ctx', rfl, hvalue, -, hQ, hfound', haddr', hentry', hafter'⟩ :=
        hregion.findEntry_value hafter
          (by simp only [entryIdAny, maxKeyId] at hrange ⊢; omega) hvalues
      rw [hfound']
      -- the value is one of the log
      have hsplit : L ++ T = (P ++ [e] ++ Q) ++ v :: S := by simpa using hW
      obtain ⟨S', hL, hS⟩ := split_of_live hsplit hdead (by simp [hvalue])
      have hrest : Remaining a second (items L) ⟨s, ctx', some id, ctx'.addr⟩ := by
        rw [← List.append_assoc] at hregion
        refine ⟨items (P ++ [e] ++ Q ++ [v]), items S, items T, ?_, hdead, fun hroom => ?_,
          hafter'.counted, hregion.resumes haddr' hentry'⟩
        · rw [← items_append, ← items_append, hsplit]
          simp
        · rw [hplain hroom]
          rfl
      refine ⟨_, _, rfl, ⟨rfl, .refl _, fun _ => rfl, hid.symm,
        fun hnone => absurd hnone hnotNone, fun hnone => absurd hnone hnotNone, hrest.split⟩,
        fun _ => hrest, Or.inr ⟨rfl, content, id, items (P ++ [e] ++ Q), items S', ?_, hid, ?_, ?_, ?_, v, hvalue,
          hentry', ?_, ?_⟩⟩
      · rw [hcandidates, hvalues]
        rfl
      · rw [hL, items_append (P ++ [e] ++ Q), items_cons, hvalue]
      · have hdelete : delete itemSize k
            (items P ++ .key id k :: (items Q ++ .value id content :: items S')) = _ :=
          delete_split
          (fun item hitem i => by
            obtain ⟨x, hx, rfl⟩ := List.mem_map.mp hitem
            exact hskip x hx i)
          (fun item hitem c => by
            obtain ⟨x, hx, rfl⟩ := List.mem_map.mp hitem
            exact hQ x hx c)
        rw [hL]
        simpa [items, hvalue, hkey] using hdelete
      · exact haddr' ▸ haddr _
      · exact haddr'.trans (haddr _)
      · have hstored := hlayout.stored
        rw [hL] at hstored
        exact (stored_append.mp hstored).2.1

/-- The lookup finds what the log has for the key. -/
theorem Opened.lookupKey (h : Opened a s second I) (hsealed : Sealed a s.dev.bytes second I)
    (k : Payload) :
    ∃ status t, lookupKey s k.1 = (status, t) ∧ Located a s second I k t ∧
      (status = .notFound ∧ lookup I k = none ∧ t.oldValueAddr = 0 ∨
        status = .ok ∧ ∃ content id A S, OldValue a s.dev.bytes second I k content t id A S) := by
  obtain ⟨status, t, hlookup, hlocated, -, hresult⟩ := h.lookupKey_remaining hsealed k
  exact ⟨status, t, hlookup, hlocated, hresult⟩

/-- The comparison with the current value. -/
theorem OldValue.sameValue {content : Content} {t : Setting} {id : ℕ} {A S : Items}
    (h : OldValue a t.sys.dev.bytes second I k content t id A S)
    (hholds : Holds a t.sys.dev.bytes second I) (hcovers : t.sys.dev.Covers a.limit) (v : Payload)
    (isBinary : Bool) :
    sameValue t v.1 isBinary = if content = (v, isBinary) then .ok else .notFound := by
  obtain ⟨e, hitem, hentry, haddr, hread⟩ := h.entry
  obtain ⟨-, hpayload, hbinary, -, -⟩ := Entry.item_eq_value hitem
  have hpos : t.oldValueAddr ≠ 0 := by
    rw [h.oldValueAddr, Area.logEnd, regionHeaderSize]
    omega
  have hrange : a.logEnd second A + e.size ≤ a.limit := by
    have hfits := hholds.logSize_le
    have hlimit := a.region_add_size_le second
    rw [h.split, logSize_append, logSize_cons, ← hitem, Entry.itemSize_item] at hfits
    rw [Area.logEnd, Area.limit]
    omega
  have hcompare := comparePayload_spec hcovers hread haddr hentry hrange v.1
  rw [Sysparam.sameValue, hcompare, hentry, hbinary, Entry.len_header, hpayload]
  by_cases hsame : content = (v, isBinary)
  · subst hsame
    simp [hpos]
  · rw [if_neg hsame]
    split_ifs with hcond hcontent
    · exact absurd (Prod.ext (Subtype.ext hcontent) hcond.2.1) hsame
    · rfl
    · rfl

theorem sameValue_of_zero {t : Setting} (h : t.oldValueAddr = 0) (value : List UInt8)
    (isBinary : Bool) : sameValue t value isBinary = .notFound := by
  rw [Sysparam.sameValue, if_neg (fun hcond => hcond.1 h)]

theorem Located.sameValue {t : Setting} (h : Located a s second I k t) (hopened : Opened a s second I)
    (hsought : Sought a s.dev.bytes second I k t) (v : Payload) (isBinary : Bool) :
    sameValue t v.1 isBinary = if lookup I k = some (v, isBinary) then .ok else .notFound := by
  rcases hsought with ⟨hnone, hzero⟩ | ⟨old, id, A, S, hold⟩
  · rw [sameValue_of_zero hzero, hnone, if_neg (by simp)]
  · have hopened' := hopened.of_flag h.dev h.info
    rw [OldValue.sameValue (h.dev ▸ hold) hopened'.holds hopened'.covers, hold.lookup]
    simp only [Option.some.injEq]

end Lookup

end EspOpenRtos.Sysparam
