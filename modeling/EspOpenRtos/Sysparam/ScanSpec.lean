/-
# What the searches find

Every search is a walk over the items of a region. The results here say where
each search stops and what its counters are then, in terms of the log: a search
that finds something has counted the items up to there, and one that does not
has counted everything.
-/

import EspOpenRtos.Sysparam.Layout
import EspOpenRtos.Sysparam.Scan

namespace EspOpenRtos.Sysparam

open Math Math.NorFlash Math.KeyedLog

/-- The driver accepts every access below an address. -/
def Device.Covers (d : Device) (hi : ℕ) : Prop := ∀ a n, a + n ≤ hi → d.accepts a n = true

theorem Device.Covers.of_accepts {d d' : Device} {hi : ℕ} (h : d.Covers hi)
    (haccepts : d'.accepts = d.accepts) : d'.Covers hi := by
  rw [Device.Covers, haccepts]
  exact h

/-- The end of the active region. -/
abbrev Info.top (info : Info) : ℕ := info.curBase + info.regionSize

/-- The next entry a search looks at is at the given address, if there is one. -/
def Context.Next (ctx : Context) (info : Info) (addr : ℕ) : Prop :=
  advance info ctx =
    if addr > info.top then .truncated else if addr = info.top then .full addr else .entry addr

/-- The counters of a context after a walk over the given items. -/
structure Context.Counted (ctx : Context) (I : Items) : Prop where
  unused : ctx.unusedKeys = KeyedLog.unused I
  dead : ctx.compactable = KeyedLog.deadSize I
  last : ctx.maxKeyId = KeyedLog.lastId I

section Context

variable {info : Info} {ctx : Context} {addr : ℕ} {e : Entry} {I : Items}

theorem initContext_next (h : regionHeaderSize < info.regionSize) :
    (initContext info).Next info (info.curBase + regionHeaderSize) := by
  simp only [Context.Next, advance, initContext, if_true, Info.top]
  rw [if_neg (by omega), if_neg (by omega)]

theorem initContext_counted : (initContext info).Counted [] := ⟨rfl, rfl, rfl⟩

/-- A context at an entry goes on behind it. -/
theorem Context.next_of_entry (h : info.curBase < addr) (haddr : ctx.addr = addr)
    (hentry : ctx.entry = e.header) : ctx.Next info (addr + e.size) := by
  simp only [Context.Next, advance, haddr, hentry, Entry.len_header, if_neg h.ne', Entry.size]
  rfl

/-- Each visit counts one more item. -/
theorem Context.Counted.visit (h : ctx.Counted I) :
    (ctx.visit addr e.header).Counted (I ++ [e.item]) := by
  obtain ⟨hunused, hdead, hlast⟩ := h
  simp only [Context.visit, Entry.item]
  split_ifs
  · constructor <;> simp [hunused, hdead, hlast, KeyedLog.unused, deadSize,
      lastId, Item.isValue, Item.deadSize]
    omega
  · constructor <;> simp [hunused, hdead, KeyedLog.unused, deadSize,
      lastId, Item.isValue, Item.deadSize]
    omega
  · constructor <;> simp [hunused, hdead, hlast, KeyedLog.unused, deadSize,
      lastId, Item.isValue, Item.deadSize, Entry.size]

theorem Context.Counted.moved (h : ctx.Counted I) (addr : ℕ) (entry : EntryHeader) :
    Context.Counted { ctx with addr := addr, entry := entry } I := ⟨h.unused, h.dead, h.last⟩

end Context

/-- The context in which a walk over `W` from an address ends: everything is
counted, and the address is the end of the entries, or that of the last one if
it does not fit the region. -/
structure Context.AtEnd (ctx start : Context) (top addr : ℕ) (I : Items) (W : List Entry) :
    Prop where
  counted : ctx.Counted (I ++ items W)
  full : addr + logSize (items W) ≤ top → ctx.addr = addr + logSize (items W)
  past : addr + logSize (items W) > top → ∀ V x, W = V ++ [x] → ctx.addr = addr + logSize (items V)
  stuck : addr > top → ctx.addr = start.addr

theorem Context.AtEnd.cons {ctx start : Context} {top addr : ℕ} {I : Items} {e : Entry}
    {W : List Entry} (haddr : addr < top)
    (h : ctx.AtEnd (start.visit addr e.header) top (addr + e.size) (I ++ [e.item]) W) :
    ctx.AtEnd start top addr I (e :: W) := by
  have hsize : addr + logSize (items (e :: W)) = addr + e.size + logSize (items W) := by
    simp [Nat.add_assoc]
  refine ⟨by simpa using h.counted, hsize ▸ h.full, fun hpast V x hsplit => ?_, by omega⟩
  rw [hsize] at hpast
  cases V with
  | nil =>
    obtain ⟨rfl, rfl⟩ : e = x ∧ W = [] := by simpa using hsplit
    simpa using h.stuck (by simpa using hpast)
  | cons v V =>
    obtain ⟨rfl, rfl⟩ : e = v ∧ W = V ++ [x] := by simpa using hsplit
    simpa [Nat.add_assoc] using h.past hpast V x rfl

/-- The walk stops in front of an entry that does not fit the region. -/
theorem Context.AtEnd.addr_of_past {ctx start : Context} {top addr : ℕ} {I : Items} {x : Entry}
    {V : List Entry} (h : ctx.AtEnd start top addr I (V ++ [x]))
    (hpast : top < addr + logSize (items V) + 4) : ctx.addr = addr + logSize (items V) := by
  have hsize := x.four_le_size
  refine h.past ?_ V x rfl
  rw [items_append, logSize_append, ← Nat.add_assoc]
  simp only [items_cons, items_nil, logSize_cons, logSize_nil, Entry.itemSize_item]
  omega

/-- The flag that a walk past the end of the region sets. -/
def Info.truncatedAt (info : Info) (addr : ℕ) : Info :=
  if addr > info.top then { info with forceCompact := true } else info

theorem Info.truncatedAt_of_le {info : Info} {addr : ℕ} (h : addr ≤ info.top) :
    info.truncatedAt addr = info := if_neg (by omega)

theorem Info.truncatedAt_of_gt {info : Info} {addr : ℕ} (h : addr > info.top) :
    info.truncatedAt addr = { info with forceCompact := true } := if_pos h

/-- Searching changes nothing in memory but the force-compaction flag. -/
def Info.UpToFlag (info info' : Info) : Prop :=
  info' = info ∨ info' = { info with forceCompact := true }

theorem Info.UpToFlag.refl (info : Info) : info.UpToFlag info := Or.inl rfl

theorem Info.UpToFlag.trans {info info' info'' : Info} (h : info.UpToFlag info')
    (h' : info'.UpToFlag info'') : info.UpToFlag info'' := by
  rcases h with rfl | rfl
  · exact h'
  · exact Or.inr (by simpa [Info.UpToFlag] using h')

theorem Info.upToFlag_truncatedAt (info : Info) (addr : ℕ) : info.UpToFlag (info.truncatedAt addr) := by
  rcases le_or_gt addr info.top with haddr | haddr
  · exact Or.inl (Info.truncatedAt_of_le haddr)
  · exact Or.inr (Info.truncatedAt_of_gt haddr)

section FindEntry

variable {d : Device} {info : Info} {ctx : Context} {addr hi matchId : ℕ} {findValue : Bool}
  {e : Entry} {P R W : List Entry} {I : Items}

theorem readEntryHeader_of_read (hcovers : d.Covers hi) (hhi : info.top + 3 ≤ hi) (haddr : addr < info.top)
    (hread : read d.bytes addr e.size = e.bytes) : readEntryHeader d addr = some e.header := by
  have haccepts : d.accepts addr entryHeaderSize = true :=
    hcovers addr entryHeaderSize (by simp only [entryHeaderSize]; omega)
  simp [readEntryHeader, spiflashRead, haccepts, (read_entry hread).1]

/-- One step of the walk. -/
theorem findEntry_step {h : EntryHeader} (hadvance : advance info ctx = .entry addr)
    (hread : readEntryHeader d addr = some h) (hwritten : h.idflags ≠ 0xffff) :
    findEntry d info ctx matchId findValue =
      if h.isMatch matchId findValue then (.ok, ctx.visit addr h, info)
      else findEntry d info (ctx.visit addr h) matchId findValue := by
  rw [findEntry]
  split
  · simp_all
  · simp_all
  · rename_i addr' hstep
    obtain rfl : addr = addr' := by simpa [hadvance] using hstep
    simp [hread, hwritten]

theorem findEntry_truncated (hadvance : advance info ctx = .truncated) :
    findEntry d info ctx matchId findValue =
      endOfEntries ctx { info with forceCompact := true } matchId := by
  rw [findEntry]
  split <;> simp_all

theorem findEntry_full (hadvance : advance info ctx = .full addr) :
    findEntry d info ctx matchId findValue = endOfEntries { ctx with addr := addr } info matchId := by
  rw [findEntry]
  split <;> simp_all

theorem findEntry_unwritten {h : EntryHeader} (hadvance : advance info ctx = .entry addr)
    (hread : readEntryHeader d addr = some h) (hunwritten : h.idflags = 0xffff) :
    findEntry d info ctx matchId findValue =
      endOfEntries { ctx with addr := addr, entry := h } info matchId := by
  rw [findEntry]
  split
  · simp_all
  · simp_all
  · rename_i addr' hstep
    obtain rfl : addr = addr' := by simpa [hadvance] using hstep
    simp [hread, hunwritten]

/-- What a search finds it finds in a longer region too. -/
theorem findEntry_longer {info info' info₁ : Info} {ctx ctx' : Context}
    (hbase : info'.curBase = info.curBase) (hsize : info.regionSize ≤ info'.regionSize)
    (hid : matchId ≠ entryIdEnd) (h : findEntry d info ctx matchId findValue = (.ok, ctx', info₁)) :
    findEntry d info' ctx matchId findValue = (.ok, ctx', info') ∧ info₁ = info := by
  have hadvance {ctx : Context} {addr : ℕ} (hstep : advance info ctx = .entry addr) :
      advance info' ctx = .entry addr := by
    simp only [advance, hbase] at hstep ⊢
    split_ifs at hstep ⊢ <;> first | exact hstep | omega
  fun_induction findEntry d info ctx matchId findValue with
  | case1 | case2 | case4 => simp [endOfEntries, hid] at h
  | case3 => simp at h
  | case5 ctx addr hstep entry hread hwritten hmatch =>
    obtain ⟨rfl, rfl⟩ : ctx.visit addr entry = ctx' ∧ info = info₁ := by simpa using h
    exact ⟨by rw [findEntry_step (hadvance hstep) hread hwritten, if_pos hmatch], rfl⟩
  | case6 ctx addr hstep entry hread hwritten hmatch ih =>
    rw [findEntry_step (hadvance hstep) hread hwritten, if_neg hmatch]
    exact ih h

/-- The end of a search, wherever it is. -/
theorem endOfEntries_spec (hcount : ctx.Counted I) :
    ∃ ctx', endOfEntries ctx info matchId =
        (if matchId = entryIdEnd then .ok else .notFound, ctx', info) ∧
      (matchId ≠ entryIdEnd → ctx'.entry = ⟨0, 0⟩) ∧ ctx'.Counted I ∧ ctx'.addr = ctx.addr := by
  simp only [endOfEntries]
  split_ifs with h
  · exact ⟨ctx, rfl, absurd h, hcount, rfl⟩
  · exact ⟨_, rfl, fun _ => rfl, hcount.moved _ _, rfl⟩

theorem Context.Next.advance_eq (h : ctx.Next info addr) (haddr : addr < info.top) :
    advance info ctx = .entry addr := by
  rw [h, if_neg (by omega), if_neg (by omega)]

/-- A search is about to look at the entries from an address on. -/
structure Scanning (d : Device) (info : Info) (hi : ℕ) (ctx : Context) (addr : ℕ) (I : Items)
    (W : List Entry) : Prop where
  walk : Walk d.bytes info.top hi addr W
  covers : d.Covers hi
  readable : info.top + 3 ≤ hi
  base : info.curBase < addr
  next : ctx.Next info addr
  counted : ctx.Counted I

theorem Scanning.visit (h : Scanning d info hi ctx addr I (e :: W)) :
    Scanning d info hi (ctx.visit addr e.header) (addr + e.size) (I ++ [e.item]) W :=
  ⟨h.walk.2.2.2, h.covers, h.readable, Nat.lt_add_right _ h.base,
    Context.next_of_entry h.base (by simp) (by simp), h.counted.visit⟩

variable (matchId findValue) in
theorem Scanning.findEntry_step (h : Scanning d info hi ctx addr I (e :: W)) :
    findEntry d info ctx matchId findValue =
      if e.header.isMatch matchId findValue then (.ok, ctx.visit addr e.header, info)
      else findEntry d info (ctx.visit addr e.header) matchId findValue :=
  have hread := readEntryHeader_of_read h.covers h.readable h.walk.1 h.walk.2.1
  Sysparam.findEntry_step (h.next.advance_eq h.walk.1) hread e.written

/-- A search that passes over the first entries goes on behind them. -/
theorem Scanning.pass {α : Type*} (search : Context → α) (h : Scanning d info hi ctx addr I (P ++ R))
    (hskip : ∀ x ∈ P, ∀ ctx addr I W, Scanning d info hi ctx addr I (x :: W) →
      search ctx = search (ctx.visit addr x.header)) :
    ∃ ctx', search ctx = search ctx' ∧
      Scanning d info hi ctx' (addr + logSize (items P)) (I ++ items P) R ∧
      ∀ c : Context, c.AtEnd ctx' info.top (addr + logSize (items P)) (I ++ items P) [] →
        c.AtEnd ctx info.top addr I P := by
  induction P generalizing addr ctx I with
  | nil => exact ⟨ctx, rfl, by simpa using h, fun c hc => by simpa using hc⟩
  | cons x P ih =>
    obtain ⟨ctx', hsearch, hscan, hend⟩ := ih h.visit fun y hy => hskip y (List.mem_cons_of_mem x hy)
    refine ⟨ctx', (hskip x List.mem_cons_self _ _ _ _ h).trans hsearch, ?_, fun c hc => ?_⟩
    · simpa [Nat.add_assoc] using hscan
    · exact (hend c (by simpa [Nat.add_assoc] using hc)).cons h.walk.1

/-- A search stops at the first entry that matches. -/
theorem Scanning.findEntry_found (h : Scanning d info hi ctx addr I (P ++ e :: R))
    (hskip : ∀ x ∈ P, x.header.isMatch matchId findValue = false)
    (hmatch : e.header.isMatch matchId findValue = true) :
    ∃ ctx', findEntry d info ctx matchId findValue = (.ok, ctx', info) ∧
      ctx'.addr = addr + logSize (items P) ∧ ctx'.entry = e.header ∧
      ctx'.Counted (I ++ items (P ++ [e])) := by
  obtain ⟨ctx', hsearch, hscan, -⟩ := h.pass (findEntry d info · matchId findValue)
    fun x hx _ _ _ _ hscan => by rw [hscan.findEntry_step, hskip x hx]; rfl
  refine ⟨ctx'.visit (addr + logSize (items P)) e.header, ?_, by simp, by simp, ?_⟩
  swap
  · simpa using hscan.counted.visit
  rw [hsearch, hscan.findEntry_step, if_pos hmatch]

variable (matchId findValue) in
/-- A search without a match ends behind the last entry that fits. -/
theorem Scanning.findEntry_none (h : Scanning d info hi ctx addr I W)
    (hskip : ∀ x ∈ W, x.header.isMatch matchId findValue = false) :
    ∃ ctx', findEntry d info ctx matchId findValue =
        (if matchId = entryIdEnd then .ok else .notFound, ctx',
          info.truncatedAt (addr + logSize (items W))) ∧
      (matchId ≠ entryIdEnd → ctx'.entry = ⟨0, 0⟩) ∧ ctx'.AtEnd ctx info.top addr I W := by
  rw [← List.append_nil W] at h
  obtain ⟨ctx₁, hsearch, ⟨hwalk, hcovers, hhi, -, hnext, hcount⟩, hlast⟩ :=
    h.pass (findEntry d info · matchId findValue)
      fun x hx _ _ _ _ hscan => by rw [hscan.findEntry_step, hskip x hx]; rfl
  rw [hsearch]
  generalize addr + logSize (items W) = addr₁ at *
  rcases lt_trichotomy addr₁ info.top with haddr | haddr | haddr
  · -- unwritten space
    have hheader : readEntryHeader d addr₁ =
        some (EntryHeader.ofBytes (read d.bytes addr₁ entryHeaderSize)) := by
      have haccepts : d.accepts addr₁ entryHeaderSize = true :=
        hcovers addr₁ entryHeaderSize (by simp only [entryHeaderSize]; omega)
      simp [readEntryHeader, spiflashRead, haccepts]
    rw [findEntry_unwritten (hnext.advance_eq haddr) hheader (hwalk haddr),
      Info.truncatedAt_of_le haddr.le]
    obtain ⟨ctx', hend, hentry, hcount', haddr'⟩ := endOfEntries_spec (hcount.moved addr₁ _)
    exact ⟨ctx', hend, hentry, hlast _ ⟨by simpa using hcount', fun _ => haddr', by simp, by omega⟩⟩
  · -- the last entry exactly fits
    have hadvance : advance info ctx₁ = .full addr₁ := by
      rw [hnext, if_neg (by omega), if_pos haddr]
    rw [findEntry_full hadvance, Info.truncatedAt_of_le haddr.le]
    obtain ⟨ctx', hend, hentry, hcount', haddr'⟩ :=
      endOfEntries_spec (hcount.moved addr₁ ctx₁.entry)
    exact ⟨ctx', hend, hentry, hlast _ ⟨by simpa using hcount', fun _ => haddr', by simp, by omega⟩⟩
  · -- the last entry does not fit
    have hadvance : advance info ctx₁ = .truncated := by rw [hnext, if_pos haddr]
    rw [findEntry_truncated hadvance, Info.truncatedAt_of_gt haddr]
    obtain ⟨ctx', hend, hentry, hcount', haddr'⟩ := endOfEntries_spec hcount
    exact ⟨ctx', hend, hentry, hlast _ ⟨by simpa using hcount', by simp; omega, by simp,
      fun _ => haddr'⟩⟩

end FindEntry

/-! ## Keys by name -/

section FindKey

variable {d : Device} {info : Info} {ctx : Context} {addr hi : ℕ} {key : Option (List UInt8)}
  {e x : Entry} {k : Payload} {P R W : List Entry} {I : Items}

theorem spiflashRead_of_covers {n : ℕ} (hcovers : d.Covers hi) (hrange : addr + n ≤ hi) :
    spiflashRead d addr n = some (read d.bytes addr n) := if_pos (Or.inr (hcovers addr n hrange))

theorem compareBytes_nil : compareBytes d addr [] = .ok := by
  rw [compareBytes]
  simp

theorem compareBytes_spec (hcovers : d.Covers hi) (value : List UInt8) (addr : ℕ)
    (hrange : addr + value.length ≤ hi) :
    compareBytes d addr value =
      if read d.bytes addr value.length = value then .ok else .notFound := by
  fun_induction compareBytes d addr value with
  | case1 => simp
  | case2 addr value hne hread =>
    rw [spiflashRead_of_covers hcovers (by omega)] at hread
    simp at hread
  | case3 addr value hne bounce hread hdiff =>
    rw [spiflashRead_of_covers hcovers (by omega), Option.some.injEq] at hread
    rw [if_neg]
    intro hsame
    apply hdiff
    rw [← hread, Nat.min_comm, ← take_read, hsame]
  | case4 addr value hne bounce hread hsame ih =>
    rw [spiflashRead_of_covers hcovers (by omega), Option.some.injEq] at hread
    rw [not_not] at hsame
    rcases le_total value.length bounceBufferSize with hlen | hlen
    · -- the last chunk
      rw [Nat.min_eq_left hlen] at hread
      rw [List.take_of_length_le hlen] at hsame
      rw [List.drop_eq_nil_of_le hlen, compareBytes_nil, if_pos (hread.trans hsame.symm)]
    · rw [Nat.min_eq_right hlen] at hread
      rw [ih (by rw [List.length_drop]; omega)]
      have hsplit : read d.bytes addr value.length =
          value.take bounceBufferSize ++
            read d.bytes (addr + bounceBufferSize) (value.drop bounceBufferSize).length := by
        rw [hsame, ← hread, ← read_add, List.length_drop, Nat.add_sub_cancel' hlen]
      rw [hsplit]
      have hiff (rest : List UInt8) : value.take bounceBufferSize ++ rest = value ↔
          rest = value.drop bounceBufferSize := by
        conv_lhs => rhs; rw [← List.take_append_drop bounceBufferSize value]
        exact List.append_right_inj _
      simp only [hiff]

theorem findKey_eq (d : Device) (info : Info) (ctx : Context) (key : Option (List UInt8)) :
    findKey d info ctx key =
      match findEntry d info ctx entryIdAny false with
      | (.ok, ctx', info') =>
        match key with
        | none => (.ok, ctx', info')
        | some name =>
          if ctx'.entry.len.toNat = name.length then
            match comparePayload d ctx' name with
            | .ok => (.ok, ctx', info')
            | .notFound => findKey d info' ctx' (some name)
            | status => (status, ctx', info')
          else findKey d info' ctx' (some name)
      | (status, ctx', info') => (status, ctx', info') := by
  rw [findKey]
  split <;> rename_i hfind
  · rewrite [hfind]
    cases key <;> rfl
  · simp [hfind]

theorem findKey_longer {info info' info₁ : Info} {ctx ctx' : Context}
    (hbase : info'.curBase = info.curBase) (hsize : info.regionSize ≤ info'.regionSize)
    (h : findKey d info ctx key = (.ok, ctx', info₁)) :
    findKey d info' ctx key = (.ok, ctx', info') ∧ info₁ = info := by
  fun_induction findKey d info ctx key with
  | case1 info ctx ctx₂ info₂ hfind =>
    obtain ⟨hfind', rfl⟩ := findEntry_longer hbase hsize (by decide) hfind
    obtain ⟨rfl, rfl⟩ : ctx₂ = ctx' ∧ info₂ = info₁ := by simpa using h
    rw [findKey_eq, hfind']
    exact ⟨rfl, rfl⟩
  | case2 info ctx ctx₂ info₂ hfind name hlen hcompare =>
    obtain ⟨hfind', rfl⟩ := findEntry_longer hbase hsize (by decide) hfind
    obtain ⟨rfl, rfl⟩ : ctx₂ = ctx' ∧ info₂ = info₁ := by simpa using h
    rw [findKey_eq, hfind']
    simp only [hlen, if_true, hcompare, and_self]
  | case3 info ctx ctx₂ info₂ hfind name hlen hcompare ih =>
    obtain ⟨hfind', rfl⟩ := findEntry_longer hbase hsize (by decide) hfind
    rw [findKey_eq, hfind']
    simp only [hlen, if_true, hcompare]
    exact ih hbase hsize h
  | case4 info ctx ctx₂ info₂ hfind name hlen hok => exact absurd (congrArg Prod.fst h) hok
  | case5 info ctx ctx₂ info₂ hfind name hlen ih =>
    obtain ⟨hfind', rfl⟩ := findEntry_longer hbase hsize (by decide) hfind
    rw [findKey_eq, hfind']
    simp only [if_neg hlen]
    exact ih hbase hsize h
  | case6 info ctx key status ctx₂ info₂ hstatus =>
    exact absurd (congrArg Prod.fst h) hstatus

/-- Whether a stored key has the given name. -/
theorem comparePayload_spec (hcovers : d.Covers hi) (hread : read d.bytes addr e.size = e.bytes)
    (haddr : ctx.addr = addr) (hentry : ctx.entry = e.header) (hrange : addr + e.size ≤ hi)
    (value : List UInt8) :
    comparePayload d ctx value = if e.payload.1 = value then .ok else .notFound := by
  have hpayload := (read_entry hread).2
  simp only [Entry.size, entrySize, entryHeaderSize] at hrange hpayload
  simp only [comparePayload, haddr, hentry, Entry.len_header, entryHeaderSize]
  by_cases hlen : e.payload.1.length = value.length
  · rw [if_neg (by simpa using hlen), compareBytes_spec hcovers value _ (by omega), ← hlen, hpayload]
  · rw [if_pos (by simpa using hlen), if_neg (fun h => hlen (by rw [h]))]

/-- Entries that are no keys, and keys of another name, are passed over. -/
theorem Scanning.findKey_skip (h : Scanning d info hi ctx addr I (x :: W))
    (hskip : ∀ id, x.item ≠ .key id k) :
    findKey d info ctx (some k.1) = findKey d info (ctx.visit addr x.header) (some k.1) := by
  obtain ⟨-, hread, hlive, -⟩ := h.walk
  rw [findKey_eq, h.findEntry_step]
  by_cases hkey : x.header.isMatch entryIdAny false = true
  · -- a key of another name
    obtain ⟨id, name, hitem⟩ := Entry.isMatch_any.mp hkey
    obtain ⟨-, hpayload, hlive', -⟩ := Entry.item_eq_key hitem
    have hname : x.payload.1 ≠ k.1 := by
      intro hsame
      exact hskip id (by rw [hitem, ← hpayload, Subtype.ext hsame])
    have hcompare : comparePayload d (ctx.visit addr x.header) k.1 = .notFound := by
      rw [comparePayload_spec h.covers hread (by simp) (by simp) (hlive hlive'), if_neg hname]
    simp only [hkey, if_true, hcompare, ite_self]
  · rw [if_neg hkey]
    exact (findKey_eq d info _ (some k.1)).symm

/-- The search for a key by name stops at the first key of that name. -/
theorem Scanning.findKey_found {id : ℕ} (h : Scanning d info hi ctx addr I (P ++ e :: R))
    (hskip : ∀ x ∈ P, ∀ i, x.item ≠ .key i k) (hkey : e.item = .key id k) :
    ∃ ctx', findKey d info ctx (some k.1) = (.ok, ctx', info) ∧
      ctx'.addr = addr + logSize (items P) ∧ ctx'.entry = e.header ∧
      ctx'.Counted (I ++ items (P ++ [e])) := by
  obtain ⟨ctx', hsearch, hscan, -⟩ := h.pass (findKey d info · (some k.1))
    fun x hx _ _ _ _ hscan => hscan.findKey_skip (hskip x hx)
  obtain ⟨-, hread, hlive, -⟩ := hscan.walk
  have hmatch : e.header.isMatch entryIdAny false = true := Entry.isMatch_any.mpr ⟨id, k, hkey⟩
  obtain ⟨-, hname, hlive', -⟩ := Entry.item_eq_key hkey
  have hcompare : comparePayload d (ctx'.visit (addr + logSize (items P)) e.header) k.1 = .ok := by
    rw [comparePayload_spec h.covers hread (by simp) (by simp) (hlive hlive'),
      if_pos (by rw [hname])]
  have hlen : (ctx'.visit (addr + logSize (items P)) e.header).entry.len.toNat = k.1.length := by
    simp [hname]
  refine ⟨ctx'.visit (addr + logSize (items P)) e.header, ?_, by simp, by simp, ?_⟩
  swap
  · simpa using hscan.counted.visit
  rw [hsearch, findKey_eq, hscan.findEntry_step, if_pos hmatch]
  simp only [hlen, if_true, hcompare]

/-- The search for a key that does not exist. -/
theorem Scanning.findKey_none (h : Scanning d info hi ctx addr I W)
    (hskip : ∀ x ∈ W, ∀ i, x.item ≠ .key i k) :
    ∃ ctx', findKey d info ctx (some k.1) =
        (.notFound, ctx', info.truncatedAt (addr + logSize (items W))) ∧
      ctx'.entry = ⟨0, 0⟩ ∧ ctx'.AtEnd ctx info.top addr I W := by
  rw [← List.append_nil W] at h
  obtain ⟨ctx₁, hsearch, hscan, hlast⟩ := h.pass (findKey d info · (some k.1))
    fun x hx _ _ _ _ hscan => hscan.findKey_skip (hskip x hx)
  obtain ⟨ctx', hfind, hentry, hend⟩ := hscan.findEntry_none entryIdAny false (by simp)
  refine ⟨ctx', ?_, hentry (by decide), hlast _ hend⟩
  rw [hsearch, findKey_eq, hfind]
  rfl

end FindKey

end EspOpenRtos.Sysparam
