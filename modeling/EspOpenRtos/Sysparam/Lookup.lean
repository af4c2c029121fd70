/-
# Reading the map

A region stands for a keyed log, and `sysparam_get_data` reads the map that the
log stands for. The lookup at the start of `sysparam_set_data` finds the same
key and value and remembers where they are.
-/

import EspOpenRtos.Sysparam.Api
import EspOpenRtos.Sysparam.ScanSpec

namespace EspOpenRtos.Sysparam

open Math Math.KeyedLog

/-! ## Entries behind items -/

section Split

variable {L : List Entry} {k : Payload} {id : ℕ}

theorem exists_key_of_find {rest : Items} (h : find k (items L) = some (id, rest)) :
    ∃ P e R, L = P ++ e :: R ∧ e.item = .key id k ∧ items R = rest ∧
      ∀ x ∈ P, ∀ i, x.item ≠ .key i k := by
  induction L with
  | nil => simp [find] at h
  | cons x L ih =>
    rw [items_cons] at h
    by_cases hx : ∃ i, x.item = .key i k
    · obtain ⟨i, hx⟩ := hx
      simp only [hx, find, if_true, Option.some.injEq, Prod.mk.injEq] at h
      exact ⟨[], x, L, rfl, by rw [hx, h.1], h.2, by simp⟩
    · have hskip : find k (items L) = some (id, rest) := by
        cases hitem : x.item with
        | key i name =>
          have hname : name ≠ k := fun hname => hx ⟨i, by rw [hitem, hname]⟩
          simpa [hitem, find, hname] using h
        | value i content | dead n => simpa [hitem, find] using h
      obtain ⟨P, e, R, rfl, hkey, hrest, hP⟩ := ih hskip
      refine ⟨x :: P, e, R, rfl, hkey, hrest, ?_⟩
      intro y hy i hi
      rcases List.mem_cons.mp hy with rfl | hy
      · exact hx ⟨i, hi⟩
      · exact hP y hy i hi

theorem no_key_of_find (h : find k (items L) = none) : ∀ x ∈ L, ∀ i, x.item ≠ .key i k := by
  intro x hx i hi
  have hnone : keyId (items L) k = none := by rw [keyId, h]; rfl
  apply keyId_eq_none_iff.mp hnone
  have hmem : x.item ∈ items L := List.mem_map_of_mem hx
  rw [hi] at hmem
  have hkey : (i, k) ∈ keys (items L) := List.mem_filterMap.mpr ⟨_, hmem, rfl⟩
  exact List.mem_map_of_mem (f := Prod.snd) hkey

theorem exists_value_of_values {content : Content} {rest : List Content}
    (h : values id (items L) = content :: rest) :
    ∃ Q e R, L = Q ++ e :: R ∧ e.item = .value id content ∧
      values id (items R) = rest ∧ ∀ x ∈ Q, ∀ c, x.item ≠ .value id c := by
  rw [values, items, List.filterMap_map, List.filterMap_eq_cons_iff] at h
  obtain ⟨Q, e, R, rfl, hQ, hvalue, hrest⟩ := h
  refine ⟨Q, e, R, rfl, Item.asValue_eq_some.mp hvalue, ?_, fun x hx c hc => ?_⟩
  · rw [values, items, List.filterMap_map, hrest]
  · exact absurd (hQ x hx) (by simp [Item.asValue_eq_some.mpr hc])

theorem no_value_of_values (h : values id (items L) = []) :
    ∀ x ∈ L, ∀ c, x.item ≠ .value id c := by
  intro x hx c hc
  rw [values, items, List.filterMap_map, List.filterMap_eq_nil_iff] at h
  exact absurd (h x hx) (by simp [Item.asValue_eq_some.mpr hc])

end Split

/-! ## Searching a region -/

/-- The address behind the first entries of a region. -/
def Info.addrAfter (info : Info) (P : List Entry) : ℕ :=
  info.curBase + regionHeaderSize + logSize (items P)

/-- What the searches of the active region walk over. -/
structure Region (d : Device) (info : Info) (hi : ℕ) (W : List Entry) : Prop where
  walk : Walk d.bytes info.top hi (info.addrAfter []) W
  covers : d.Covers hi
  readable : info.top + 3 ≤ hi
  size : regionHeaderSize < info.regionSize
  inv : KeyedLog.Inv maxKeyId (items W)

/-- The context has passed the first entries of a region. -/
structure Context.After (ctx : Context) (info : Info) (P : List Entry) : Prop where
  next : ctx.Next info (info.addrAfter P)
  counted : ctx.Counted (items P)

section Region

variable {d : Device} {info : Info} {ctx : Context} {hi id : ℕ} {k : Payload} {e : Entry}
  {W P Q R : List Entry}

theorem Info.curBase_lt_addrAfter : info.curBase < info.addrAfter P := by
  simp only [Info.addrAfter, regionHeaderSize]
  omega

theorem Info.addrAfter_append : info.addrAfter (P ++ Q) = info.addrAfter P + logSize (items Q) := by
  simp [Info.addrAfter, Nat.add_assoc]

theorem Region.init_after (h : Region d info hi W) : (initContext info).After info [] := by
  refine ⟨?_, initContext_counted⟩
  simpa [Info.addrAfter] using initContext_next h.size

theorem Region.walk_after (h : Region d info hi (P ++ R)) :
    Walk d.bytes info.top hi (info.addrAfter P) R := by
  simpa [Info.addrAfter] using walk_append h.walk

theorem Region.scanning (h : Region d info hi (P ++ R)) (hafter : ctx.After info P) :
    Scanning d info hi ctx (info.addrAfter P) (items P) R :=
  ⟨h.walk_after, h.covers, h.readable, Info.curBase_lt_addrAfter, hafter.next, hafter.counted⟩

theorem Region.scanning_init (h : Region d info hi W) :
    Scanning d info hi (initContext info) (info.addrAfter []) [] W := h.scanning h.init_after

/-- The ids in use are neither of the special ones. -/
theorem Region.id_le (h : Region d info hi W) (hid : keyId (items W) k = some id) :
    1 ≤ id ∧ id ≤ maxKeyId := h.inv.range _ (mem_keys_of_keyId hid)

/-- No entry matches the id that stands for the end. -/
theorem Region.isMatch_end (h : Region d info hi W) :
    ∀ x ∈ W, x.header.isMatch entryIdEnd false = false := by
  intro x hx
  by_contra hmatch
  obtain ⟨name, hkey⟩ := Entry.isMatch_end (by simpa using hmatch)
  have hmem : (entryIdEnd, name) ∈ keys (items W) :=
    List.mem_filterMap.mpr ⟨_, List.mem_map_of_mem hx, by rw [hkey]; rfl⟩
  exact absurd (h.inv.range _ hmem).2 (show ¬entryIdEnd ≤ maxKeyId by decide)

theorem Context.After.at_entry (haddr : ctx.addr = info.addrAfter P) (hentry : ctx.entry = e.header)
    (hcount : ctx.Counted (items (P ++ [e]))) : ctx.After info (P ++ [e]) := by
  refine ⟨?_, hcount⟩
  have hnext := Context.next_of_entry Info.curBase_lt_addrAfter haddr hentry
  simpa [Info.addrAfter_append] using hnext

/-- Where the search for a key stops. -/
theorem Region.findKey_some {rest : Items} (h : Region d info hi W)
    (hfind : find k (items W) = some (id, rest)) :
    ∃ P e R ctx, W = P ++ e :: R ∧ e.item = .key id k ∧ items R = rest ∧
      findKey d info (initContext info) (some k.1) = (.ok, ctx, info) ∧
      ctx.addr = info.addrAfter P ∧ ctx.entry = e.header ∧ ctx.After info (P ++ [e]) ∧
      ∀ x ∈ P, ∀ i, x.item ≠ .key i k := by
  obtain ⟨P, e, R, rfl, hkey, hrest, hskip⟩ := exists_key_of_find hfind
  obtain ⟨ctx, hfound, haddr, hentry, hcount⟩ := h.scanning_init.findKey_found hskip hkey
  rw [← Info.addrAfter_append, List.nil_append] at haddr
  exact ⟨P, e, R, ctx, rfl, hkey, hrest, hfound, haddr, hentry, .at_entry haddr hentry hcount, hskip⟩

theorem Region.findKey_none (h : Region d info hi W) (hfind : find k (items W) = none) :
    ∃ ctx, findKey d info (initContext info) (some k.1) =
        (.notFound, ctx, info.truncatedAt (info.addrAfter W)) ∧
      ctx.entry = ⟨0, 0⟩ ∧ ctx.AtEnd (initContext info) info.top (info.addrAfter []) [] W := by
  have hnone := h.scanning_init.findKey_none (no_key_of_find hfind)
  rwa [← Info.addrAfter_append, List.nil_append] at hnone

/-- Where the search for a value stops. -/
theorem Region.findEntry_value {content : Content} {rest : List Content}
    (h : Region d info hi (P ++ R)) (hafter : ctx.After info P) (hid : id < entryIdAny)
    (hvalues : values id (items R) = content :: rest) :
    ∃ Q e S ctx', R = Q ++ e :: S ∧ e.item = .value id content ∧
      values id (items S) = rest ∧ (∀ x ∈ Q, ∀ c, x.item ≠ .value id c) ∧
      findEntry d info ctx id true = (.ok, ctx', info) ∧ ctx'.addr = info.addrAfter (P ++ Q) ∧
      ctx'.entry = e.header ∧ ctx'.After info (P ++ Q ++ [e]) := by
  obtain ⟨Q, e, S, rfl, hvalue, hrest, hskip⟩ := exists_value_of_values hvalues
  obtain ⟨ctx', hfound, haddr, hentry, hcount⟩ := (h.scanning hafter).findEntry_found
    (fun x hx => by simpa using mt (Entry.isMatch_value hid.ne).mp fun ⟨c, hc⟩ => hskip x hx c hc)
    ((Entry.isMatch_value hid.ne).mpr ⟨content, hvalue⟩)
  rw [← Info.addrAfter_append] at haddr
  refine ⟨Q, e, S, ctx', rfl, hvalue, hrest, hskip, hfound, haddr, hentry, ?_⟩
  exact .at_entry haddr hentry (by simpa using hcount)

theorem Region.findEntry_no_value (h : Region d info hi (P ++ R)) (hafter : ctx.After info P)
    (hid : id < entryIdEnd) (hvalues : values id (items R) = []) :
    ∃ ctx', findEntry d info ctx id true =
        (.notFound, ctx', info.truncatedAt (info.addrAfter (P ++ R))) ∧
      ctx'.entry = ⟨0, 0⟩ ∧ ctx'.AtEnd ctx info.top (info.addrAfter P) (items P) R := by
  have hany : id ≠ entryIdAny := by simp only [entryIdEnd, entryIdAny] at hid ⊢; omega
  obtain ⟨ctx', hfind, hentry, hend⟩ := (h.scanning hafter).findEntry_none id true fun x hx => by
      simpa using mt (Entry.isMatch_value hany).mp fun ⟨c, hc⟩ => no_value_of_values hvalues x hx c hc
  rw [← Info.addrAfter_append, if_neg hid.ne] at hfind
  exact ⟨ctx', hfind, hentry hid.ne, hend⟩

/-! ## Reading a value -/

/-- The answer of `sysparam_get_data` for a content of the map. -/
def getAnswer : Option Content → GetResult
  | some content => (.ok, some (content.1.1, content.2))
  | none => (.notFound, none)

theorem findValue_key (hentry : ctx.entry = e.header) (hkey : e.item = .key id k) :
    findValue d info ctx ctx.entry.idflags = findEntry d info ctx id true := by
  obtain ⟨hid, -⟩ := Entry.item_eq_key hkey
  rw [findValue, hentry, ← hid]
  rfl

/-- The payload of an entry that a search has found. -/
theorem Region.readPayload_entry (h : Region d info hi (P ++ e :: R))
    (hlive : e.header.live = true) (haddr : ctx.addr = info.addrAfter P) :
    readPayload d ctx e.payload.1.length = some e.payload.1 := by
  obtain ⟨-, hread, hfits, -⟩ := h.walk_after
  have hrange := hfits hlive
  simp only [Entry.size, entrySize] at hrange
  rw [readPayload, haddr, spiflashRead_of_covers h.covers (by omega), (read_entry hread).2]

/-- The lookup of a key that is common to all readers ends at this value. -/
structure LiveValue (s : Sys) (key : List UInt8) (ctx : Context) : Prop where
  opened : s.info.curBase ≠ 0
  found : ∃ ctxKey, findKey s.dev s.info (initContext s.info)
      (some (key.take (key.length % 0x10000))) = (.ok, ctxKey, s.info) ∧
    findValue s.dev s.info ctxKey ctxKey.entry.idflags = (.ok, ctx, s.info)

/-- The key is missing, or it has no value. -/
structure NoValue (s : Sys) (key : List UInt8) (info : Info) : Prop where
  opened : s.info.curBase ≠ 0
  missing : ∃ ctx, findKey s.dev s.info (initContext s.info)
      (some (key.take (key.length % 0x10000))) = (.notFound, ctx, info) ∨
    ∃ ctxKey, findKey s.dev s.info (initContext s.info)
        (some (key.take (key.length % 0x10000))) = (.ok, ctxKey, s.info) ∧
      findValue s.dev s.info ctxKey ctxKey.entry.idflags = (.notFound, ctx, info)

theorem LiveValue.getData {s : Sys} {key : List UInt8} (h : LiveValue s key ctx) :
    sysparamGetData s key =
      match readPayload s.dev ctx ctx.entry.len.toNat with
      | some buffer => ((.ok, some (buffer, ctx.entry.isBinary)), s)
      | none => ((.errIo, none), s) := by
  obtain ⟨ctxKey, hkey, hvalue⟩ := h.found
  cases hread : readPayload s.dev ctx ctx.entry.len.toNat <;>
    simp only [sysparamGetData, if_neg h.opened, hkey, hvalue, hread]

theorem NoValue.getData {s : Sys} {key : List UInt8} (h : NoValue s key info) :
    sysparamGetData s key = ((.notFound, none), { s with info := info }) := by
  obtain ⟨ctx, hkey | ⟨ctxKey, hkey, hvalue⟩⟩ := h.missing
  · simp only [sysparamGetData, if_neg h.opened, hkey]
  · simp only [sysparamGetData, if_neg h.opened, hkey, hvalue]

/-- Where the lookup of a key ends. -/
theorem Region.search (h : Region d info hi W) (hbase : info.curBase ≠ 0) (k : Payload) :
    (∃ P e S ctx id content, W = P ++ e :: S ∧ e.item = .value id content ∧
      lookup (items W) k = some content ∧ LiveValue ⟨d, info⟩ k.1 ctx ∧
      ctx.addr = info.addrAfter P ∧ ctx.entry = e.header) ∨
    ∃ info', lookup (items W) k = none ∧ NoValue ⟨d, info⟩ k.1 info' ∧
      info.UpToFlag info' := by
  have hkey : k.1.take (k.1.length % 0x10000) = k.1 := by
    rw [Nat.mod_eq_of_lt k.2, List.take_length]
  cases hfind : find k (items W) with
  | none =>
    obtain ⟨ctx, hnone, -, -⟩ := h.findKey_none hfind
    rw [← hkey] at hnone
    exact .inr ⟨_, by simp [lookup, candidates, hfind],
      ⟨hbase, ctx, .inl hnone⟩, info.upToFlag_truncatedAt _⟩
  | some p =>
    obtain ⟨id, rest⟩ := p
    have hid := h.id_le (show keyId (items W) k = some id by simp [keyId, hfind])
    have hlookup : lookup (items W) k = (values id rest).head? := by
      simp [lookup, candidates, hfind]
    obtain ⟨P, e, R, ctxKey, rfl, hitem, rfl, hfound, -, hentry, hafter, -⟩ :=
      h.findKey_some hfind
    rw [List.append_cons] at h
    rw [← hkey] at hfound
    cases hvalues : values id (items R) with
    | nil =>
      obtain ⟨ctx, hnone, -, -⟩ := h.findEntry_no_value hafter
        (by simp only [entryIdEnd, maxKeyId] at hid ⊢; omega) hvalues
      exact .inr ⟨_, by rw [hlookup, hvalues]; rfl,
        ⟨hbase, ctx, .inr ⟨ctxKey, hfound, (findValue_key hentry hitem).trans hnone⟩⟩,
        info.upToFlag_truncatedAt _⟩
    | cons content rest =>
      obtain ⟨Q, v, S, ctx, rfl, hvalue, -, -, hfound', haddr', hentry', -⟩ := h.findEntry_value
        hafter (by simp only [entryIdAny, maxKeyId] at hid ⊢; omega) hvalues
      exact .inl ⟨P ++ [e] ++ Q, v, S, ctx, id, content, by simp, hvalue,
        by rw [hlookup, hvalues]; rfl,
        ⟨hbase, ctxKey, hfound, (findValue_key hentry hitem).trans hfound'⟩, haddr', hentry'⟩

/-- Reading a key gives what the log has for it, and changes at most the
force-compaction flag. -/
theorem Region.getData (h : Region d info hi W) (hbase : info.curBase ≠ 0) (k : Payload) :
    ∃ info', sysparamGetData ⟨d, info⟩ k.1 =
        (getAnswer (lookup (items W) k), ⟨d, info'⟩) ∧ info.UpToFlag info' := by
  rcases h.search hbase k with ⟨P, e, S, ctx, id, content, rfl, hvalue, hlookup, hlive, haddr, hentry⟩ |
    ⟨info', hlookup, hmissing, hflag⟩
  · obtain ⟨-, hpayload, hbinary, hliveHeader, -⟩ := Entry.item_eq_value hvalue
    refine ⟨info, ?_, .refl info⟩
    rw [hlive.getData, hentry, Entry.len_header, h.readPayload_entry hliveHeader haddr, hlookup]
    simp [getAnswer, hpayload, hbinary]
  · exact ⟨info', by rw [hmissing.getData, hlookup]; rfl, hflag⟩

end Region

end EspOpenRtos.Sysparam
