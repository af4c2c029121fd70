/-
# What copying a region does

Compaction reads the active region through the iterator and writes what it gets
into the other one. The iterator delivers the pairs of the log in order, so the
copy is the compacted log, with the old value of the key that is being set left
out.

Reading and writing interleave. Nothing is written where the walk reads, so the
region stays what it was for as long as the copying goes on.
-/

import EspOpenRtos.Sysparam.Filling
import EspOpenRtos.Sysparam.Lookup

namespace EspOpenRtos.Sysparam

open Math Math.NorFlash Math.KeyedLog

/-! ## Regions that stay the same -/

section Same

variable {f g : Image} {d d' : Device} {info info' : Info} {ctx : Context} {addr top hi : ℕ}
  {W P : List Entry}

theorem walk_congr (h : Walk f top hi addr W)
    (same : ∀ a, addr ≤ a → a < max (top + 3) (addr + logSize (items W)) → g a = f a) :
    Walk g top hi addr W := by
  induction W generalizing addr with
  | nil =>
    intro haddr
    have hread : read g addr entryHeaderSize = read f addr entryHeaderSize :=
      read_congr fun a h1 h2 => same a h1 (lt_max_of_lt_left (by
        simp only [entryHeaderSize] at h2
        omega))
    rw [hread]
    exact h haddr
  | cons e W ih =>
    obtain ⟨haddr, hread, hlive, hrest⟩ := h
    simp only [items_cons, logSize_cons, Entry.itemSize_item, ← Nat.add_assoc] at same
    refine ⟨haddr, ?_, hlive, ih hrest fun a h1 h2 => same a (by omega) h2⟩
    rw [← hread]
    exact read_congr fun a h1 h2 => same a h1 (lt_max_of_lt_right (by omega))

/-- The addresses that searches of a region read. -/
def Info.Reads (info : Info) (W : List Entry) (a : ℕ) : Prop :=
  info.addrAfter [] ≤ a ∧ a < max (info.top + 3) (info.addrAfter W)

theorem Region.of_device (h : Region d info hi W) (haccepts : d'.accepts = d.accepts)
    (same : ∀ a, info.Reads W a → d'.bytes a = d.bytes a) : Region d' info hi W := by
  refine ⟨walk_congr h.walk fun a h1 h2 => same a ⟨h1, ?_⟩, ?_, h.readable, h.size, h.inv⟩
  · rwa [← Info.addrAfter_append] at h2
  · intro a n hn
    rw [haccepts]
    exact h.covers a n hn

theorem Region.of_flag (h : Region d info hi W) (hflag : info.UpToFlag info') :
    Region d info' hi W := by
  rcases hflag with rfl | rfl
  · exact h
  · exact ⟨h.walk, h.covers, h.readable, h.size, h.inv⟩

theorem Context.After.of_flag (h : ctx.After info P) (hflag : info.UpToFlag info') :
    ctx.After info' P := by
  rcases hflag with rfl | rfl
  · exact h
  · exact ⟨h.next, h.counted⟩

end Same

/-! ## The iterator -/

section Iterate

variable {d : Device} {info : Info} {iter : Iter} {ctx : Context} {hi id B : ℕ} {name : Payload}
  {x : Entry} {P R : List Entry}

theorem iterNext_eq (d : Device) (info : Info) (iter : Iter) :
    iterNext d info iter =
      match findEntry d info iter.ctx entryIdAny false with
      | (.ok, ctx, info') =>
        match findValue d info' ctx ctx.entry.idflags with
        | (.ok, valueCtx, info'') =>
          let keySpace := ctx.entry.len.toNat + 1
          let requiredLen := keySpace + valueCtx.entry.len.toNat + 1
          let bufsize := if requiredLen > iter.bufsize then requiredLen else iter.bufsize
          match readPayload d ctx bufsize, readPayload d valueCtx (bufsize - keySpace) with
          | some keyBuf, some valueBuf =>
            (.ok, ⟨keyBuf.take ctx.entry.len.toNat, valueBuf.take valueCtx.entry.len.toNat,
              valueCtx.entry.isBinary, bufsize, ctx⟩, info'')
          | _, _ => (.errIo, { iter with bufsize := bufsize, ctx := ctx }, info'')
        | (.notFound, _, info'') => iterNext d info'' { iter with ctx := ctx }
        | (status, _, info'') => (status, { iter with ctx := ctx }, info'')
      | (status, ctx, info') => (status, { iter with ctx := ctx }, info') := by
  have hany : findKey d info iter.ctx none = findEntry d info iter.ctx entryIdAny false := by
    rw [findKey_eq]
    rcases findEntry d info iter.ctx entryIdAny false with ⟨status, ctx, info'⟩
    cases status <;> rfl
  rw [iterNext, ← hany]
  split <;> rename_i hkey
  · rw [hkey]
    split <;> rename_i hvalue
    · dsimp only
      rewrite [hvalue]
      rfl
    · simp only [hvalue]
    · simp [hvalue]
  · simp [hkey]

/-- The next step of a walk over a region. -/
theorem Region.visit_after (hafter : ctx.After info P) :
    (ctx.visit (info.addrAfter P) x.header).After info (P ++ [x]) :=
  .at_entry (by simp) (by simp) (by simpa using hafter.counted.visit)

theorem Region.findEntry_next (h : Region d info hi (P ++ x :: R)) (hafter : ctx.After info P)
    (matchId : ℕ) (findValue : Bool) :
    findEntry d info ctx matchId findValue =
      if x.header.isMatch matchId findValue then
        (.ok, ctx.visit (info.addrAfter P) x.header, info)
      else findEntry d info (ctx.visit (info.addrAfter P) x.header) matchId findValue := by
  obtain ⟨haddr, hread, -, -⟩ := h.walk_after
  exact findEntry_step (hafter.next.advance_eq haddr)
    (readEntryHeader_of_read h.covers h.readable haddr hread) x.written

section

variable (h : Region d info hi (P ++ x :: R)) (hafter : iter.ctx.After info P)
include h hafter

/-- What is no key is passed over. -/
theorem Region.iterNext_skip (hskip : ∀ id name, x.item ≠ .key id name) : iterNext d info iter =
      iterNext d info { iter with ctx := iter.ctx.visit (info.addrAfter P) x.header } := by
  have hno : ¬x.header.isMatch entryIdAny false = true := fun hmatch => by
    obtain ⟨id, name, hkey⟩ := Entry.isMatch_any.mp hmatch
    exact hskip id name hkey
  rw [iterNext_eq d info iter, h.findEntry_next hafter, if_neg hno, iterNext_eq]

/-- A key without a value is passed over. -/
theorem Region.iterNext_unused (hkey : x.item = .key id name) (hid : id < entryIdEnd)
    (hvalues : values id (items R) = []) : ∃ info', info.UpToFlag info' ∧ iterNext d info iter =
      iterNext d info' { iter with ctx := iter.ctx.visit (info.addrAfter P) x.header } := by
  have hmatch : x.header.isMatch entryIdAny false = true := Entry.isMatch_any.mpr ⟨id, name, hkey⟩
  have hnext := h.findEntry_next hafter entryIdAny false
  rw [List.append_cons] at h
  obtain ⟨ctx', hnone, -, -⟩ := h.findEntry_no_value (Region.visit_after hafter) hid hvalues
  refine ⟨_, info.upToFlag_truncatedAt (info.addrAfter (P ++ [x] ++ R)), ?_⟩
  rw [iterNext_eq d info iter, hnext, if_pos hmatch]
  simp only [findValue_key (Context.visit_entry _ _ _) hkey, hnone]

/-- The next entry is passed over, or it is a key with a value. -/
theorem Region.iterNext_cases :
    (pairs (items (x :: R)) = pairs (items R) ∧ ∃ info', info.UpToFlag info' ∧
      iterNext d info iter =
        iterNext d info' { iter with ctx := iter.ctx.visit (info.addrAfter P) x.header }) ∨
    ∃ id name content rest, x.item = .key id name ∧ id < entryIdEnd ∧
      values id (items R) = content :: rest ∧
      pairs (items (x :: R)) = (id, name, content) :: pairs (items R) := by
  by_cases hkey : ∃ id name, x.item = .key id name
  · obtain ⟨id, name, hkey⟩ := hkey
    have hid : id < entryIdEnd := by
      have hrange := (h.inv.range (id, name) (by simp [hkey])).2
      simp only [maxKeyId, entryIdEnd] at hrange ⊢
      omega
    cases hvalues : values id (items R) with
    | nil => exact Or.inl ⟨by simp [hkey, pairs, hvalues], h.iterNext_unused hafter hkey hid hvalues⟩
    | cons content rest =>
      exact Or.inr ⟨id, name, content, rest, hkey, hid, hvalues, by simp [hkey, pairs, hvalues]⟩
  · push Not at hkey
    refine Or.inl ⟨?_, info, .refl info, h.iterNext_skip hafter hkey⟩
    cases hitem : x.item with
    | key id name => exact absurd hitem (hkey id name)
    | value | dead => simp [hitem, pairs]

/-- A key with a value is delivered. The buffer grows with the pair. -/
theorem Region.iterNext_pair {content : Content} {rest : List Content}
    (hkey : x.item = .key id name) (hid : id < entryIdEnd)
    (hvalues : values id (items R) = content :: rest) (hroom : info.top + 3 + B ≤ hi)
    (hbuf : iter.bufsize ≤ B) (hpair : name.1.length + content.1.1.length + 2 ≤ B) :
    ∃ bufsize, bufsize ≤ B ∧ iterNext d info iter =
      (.ok, ⟨name.1, content.1.1, content.2, bufsize,
        iter.ctx.visit (info.addrAfter P) x.header⟩, info) := by
  have hmatch : x.header.isMatch entryIdAny false = true := Entry.isMatch_any.mpr ⟨id, name, hkey⟩
  have hnext := h.findEntry_next hafter entryIdAny false
  obtain ⟨-, hname, hlive, -⟩ := Entry.item_eq_key hkey
  obtain ⟨haddr, hread, -, -⟩ := h.walk_after
  rw [List.append_cons] at h
  obtain ⟨Q, v, S, ctx', rfl, hvalue, -, -, hfound, haddr', hentry', -⟩ := h.findEntry_value
    (Region.visit_after hafter) (hid.trans (by decide)) hvalues
  obtain ⟨-, hcontent, hbinary, -, -⟩ := Entry.item_eq_value hvalue
  rw [← List.append_assoc] at h
  obtain ⟨hvaddr, hvread, -, -⟩ := h.walk_after
  generalize hn : (if name.1.length + 1 + content.1.1.length + 1 > iter.bufsize then
    name.1.length + 1 + content.1.1.length + 1 else iter.bufsize) = n
  have hnB : n ≤ B := by split_ifs at hn <;> omega
  have hnpair : name.1.length + content.1.1.length + 2 ≤ n := by split_ifs at hn <;> omega
  -- the whole buffer is filled, from the key and from the value
  have hkeyBuf : readPayload d (iter.ctx.visit (info.addrAfter P) x.header) n =
      some (read d.bytes (info.addrAfter P + entryHeaderSize) n) := by
    rw [readPayload, Context.visit_addr]
    exact spiflashRead_of_covers h.covers (by simp only [entryHeaderSize]; omega)
  have hvalueBuf : readPayload d ctx' (n - (name.1.length + 1)) =
      some (read d.bytes (info.addrAfter (P ++ [x] ++ Q) + entryHeaderSize)
        (n - (name.1.length + 1))) := by
    rw [readPayload, haddr']
    exact spiflashRead_of_covers h.covers (by simp only [entryHeaderSize]; omega)
  refine ⟨n, hnB, ?_⟩
  rw [iterNext_eq d info iter, hnext, if_pos hmatch]
  simp only [findValue_key (Context.visit_entry _ _ _) hkey, hfound]
  simp only [hentry', Context.visit_entry, Entry.len_header, hname, hcontent, hn, hkeyBuf,
    hvalueBuf, take_read]
  rw [Nat.min_eq_left (by omega), Nat.min_eq_left (by omega), ← hname, (read_entry hread).2,
    ← hcontent, (read_entry hvread).2, hbinary]

end

/-- Behind the last pair there is nothing. -/
theorem Region.iterNext_end (h : Region d info hi P) (hafter : iter.ctx.After info P) :
    ∃ ctx info', info.UpToFlag info' ∧
      iterNext d info iter = (.notFound, { iter with ctx := ctx }, info') := by
  rw [← List.append_nil P] at h
  obtain ⟨ctx, hnone, -, -⟩ := (h.scanning hafter).findEntry_none entryIdAny false (by simp)
  refine ⟨ctx, _, info.upToFlag_truncatedAt (info.addrAfter P + logSize (items [])), ?_⟩
  rw [iterNext_eq d info iter, hnone]
  rfl

end Iterate

/-! ## The copying loop -/

section Copy

variable {c c' : Copying} {hi B : ℕ} {omitted : Option ℕ} {x : Entry} {P R : List Entry}

theorem copyEntries_eq (c : Copying) :
    copyEntries c =
      match iterNext c.sys.dev c.sys.info c.iter with
      | (.ok, iter, info) =>
        let currentKeyId := c.currentKeyId + 1
        match writeEntry { c.sys with info := info } c.addr (UInt16.ofNat currentKeyId) iter.key with
        | (status, sys) =>
          let addr := c.addr + entrySize iter.key.length
          if status.isError then (status, { c with sys := sys, iter := iter })
          else if c.keyId = some iter.ctx.entry.id then
            copyEntries ⟨sys, iter, addr, currentKeyId, some currentKeyId⟩
          else
            match writeEntry sys addr (valueField currentKeyId iter.binary) iter.value with
            | (status, sys') =>
              if status.isError then (status, { c with sys := sys', iter := iter })
              else copyEntries
                ⟨sys', iter, addr + entrySize iter.value.length, currentKeyId, c.keyId⟩
      | (status, iter, info) =>
        (status, { c with sys := { c.sys with info := info }, iter := iter }) := by
  rw [copyEntries]
  split <;> rename_i hnext
  · rw [hnext]
    rfl
  · simp [hnext]

/-- The loop depends on the iterator only through what it delivers next. -/
theorem copyEntries_congr {iter : Iter} {info : Info}
    (h : iterNext c.sys.dev c.sys.info c.iter = iterNext c.sys.dev info iter) :
    copyEntries c = copyEntries { c with sys := { c.sys with info := info }, iter := iter } := by
  rw [copyEntries_eq, copyEntries_eq, h]

/-- The loop is about to copy what follows the first entries of a region. -/
structure Copyable (c : Copying) (hi B : ℕ) (omitted : Option ℕ) (P R : List Entry) : Prop where
  region : Region c.sys.dev c.sys.info hi (P ++ R)
  after : c.iter.ctx.After c.sys.info P
  room : c.sys.info.top + 3 + B ≤ hi
  bufsize : c.iter.bufsize ≤ B
  pairs : KeyedLog.pairsSize itemSize (KeyedLog.pairs (items R)) ≤ B
  target : Target c.sys c.addr
    (KeyedLog.renumber omitted c.currentKeyId (KeyedLog.pairs (items R)))
  apart : ∀ a, c.sys.info.Reads (P ++ R) a → a < c.addr ∨
    c.addr + logSize (KeyedLog.renumber omitted c.currentKeyId (KeyedLog.pairs (items R))) ≤ a
  below : ∀ p ∈ KeyedLog.pairs (items R), c.currentKeyId < p.1
  keyId : ∀ p ∈ KeyedLog.pairs (items R), (c.keyId = some p.1 ↔ omitted = some p.1)

/-- The loop has copied the given pairs. -/
structure Copied (c c' : Copying) (omitted : Option ℕ) (ps : List (ℕ × Payload × Content)) :
    Prop where
  written : Written c.sys.dev c'.sys.dev c.addr (KeyedLog.renumber omitted c.currentKeyId ps)
  addr : c'.addr = c.addr + logSize (KeyedLog.renumber omitted c.currentKeyId ps)
  currentKeyId : c'.currentKeyId = c.currentKeyId + ps.length
  keyId : c'.keyId = c.keyId.map fun id => KeyedLog.renumberedId id c.currentKeyId ps

/-- What the iterator passes over is not copied. -/
theorem Copyable.skip {info : Info} (h : Copyable c hi B omitted P (x :: R))
    (hpairs : KeyedLog.pairs (items (x :: R)) = KeyedLog.pairs (items R))
    (hflag : c.sys.info.UpToFlag info) :
    Copyable { c with sys := { c.sys with info := info },
                      iter := { c.iter with
                        ctx := c.iter.ctx.visit (c.sys.info.addrAfter P) x.header } }
      hi B omitted (P ++ [x]) R := by
  have hregion := h.region
  rw [List.append_cons] at hregion
  have hpairs' := h.pairs
  have htarget := h.target
  have hapart := h.apart
  have hbelow := h.below
  have hkeyId := h.keyId
  rw [List.append_cons] at hapart
  rw [hpairs] at hpairs' htarget hapart hbelow hkeyId
  have hafter : Context.After (c.iter.ctx.visit (c.sys.info.addrAfter P) x.header) c.sys.info
    (P ++ [x]) := Region.visit_after h.after
  refine ⟨hregion.of_flag hflag, hafter.of_flag hflag, ?_, h.bufsize, hpairs', ?_, ?_, hbelow,
    hkeyId⟩
  · rcases hflag with rfl | rfl <;> exact h.room
  · rcases hflag with rfl | rfl <;>
      exact ⟨htarget.writable, htarget.covers, htarget.fresh, htarget.apart⟩
  · rcases hflag with rfl | rfl <;> exact hapart

/-- The loop goes on behind a pair that has been copied. -/
theorem Copyable.advance {s : Sys} {iter : Iter} {id : ℕ} {name : Payload} {content : Content}
    {J : Items} {keyId : Option ℕ} (h : Copyable c hi B omitted P (x :: R))
    (hpairs : KeyedLog.pairs (items (x :: R)) = (id, name, content) :: KeyedLog.pairs (items R))
    (hitems : KeyedLog.renumber omitted c.currentKeyId (KeyedLog.pairs (items (x :: R))) =
      J ++ KeyedLog.renumber omitted (c.currentKeyId + 1) (KeyedLog.pairs (items R)))
    (hwritten : Written c.sys.dev s.dev c.addr J) (hinfo : s.info = c.sys.info)
    (htarget : Target s (c.addr + logSize J)
      (KeyedLog.renumber omitted (c.currentKeyId + 1) (KeyedLog.pairs (items R))))
    (hbuf : iter.bufsize ≤ B)
    (hctx : iter.ctx = c.iter.ctx.visit (c.sys.info.addrAfter P) x.header)
    (hids : ∀ p ∈ KeyedLog.pairs (items R), id < p.1)
    (hkeyId : ∀ p ∈ KeyedLog.pairs (items R), (keyId = some p.1 ↔ omitted = some p.1)) :
    Copyable ⟨s, iter, c.addr + logSize J, c.currentKeyId + 1, keyId⟩ hi B omitted (P ++ [x]) R := by
  have hregion := h.region
  have hapart := h.apart
  rw [List.append_cons] at hregion hapart
  rw [hitems, logSize_append] at hapart
  have hJ : ∀ item ∈ J, Writable item := fun item hitem =>
    h.target.writable item (by rw [hitems]; simp [hitem])
  have hpairs' := h.pairs
  rw [hpairs, KeyedLog.pairsSize, List.map_cons, List.sum_cons] at hpairs'
  have hbelow : c.currentKeyId < id := h.below (id, name, content) (by rw [hpairs]; exact List.mem_cons_self)
  constructor
  · -- the write was made elsewhere
    rw [hinfo]
    refine hregion.of_device hwritten.quiet.accepts fun a ha => ?_
    rw [hwritten.bytes]
    exact patch_of_outside (by rw [length_logBytes hJ]; have := hapart a ha; omega)
  · rw [hctx, hinfo]
    exact Region.visit_after h.after
  · rw [hinfo]
    exact h.room
  · exact hbuf
  · exact le_trans (Nat.le_add_left _ _) hpairs'
  · exact htarget
  · intro a ha
    rw [hinfo] at ha
    have := hapart a ha
    change a < c.addr + logSize J ∨ c.addr + logSize J + logSize (KeyedLog.renumber omitted
      (c.currentKeyId + 1) (KeyedLog.pairs (items R))) ≤ a
    omega
  · intro p hp
    have := hids p hp
    change c.currentKeyId + 1 < p.1
    omega
  · exact hkeyId

/-- The two outcomes of the loop. -/
def CopyOutcome (c : Copying) (status : Status) (c' : Copying) (omitted : Option ℕ)
    (ps : List (ℕ × Payload × Content)) : Prop :=
  status = .notFound ∧ Copied c c' omitted ps ∨
    status = .errIo ∧
      Broken c.sys.dev c'.sys.dev c.addr (renumber omitted c.currentKeyId ps)

theorem CopyOutcome.of_skip {status : Status} {info : Info} {iter : Iter}
    {ps : List (ℕ × Payload × Content)}
    (h : CopyOutcome { c with sys := { c.sys with info := info }, iter := iter } status c' omitted ps) :
    CopyOutcome c status c' omitted ps := by
  rcases h with ⟨hstatus, hcopied⟩ | hbroken
  · exact Or.inl ⟨hstatus, hcopied.written, hcopied.addr, hcopied.currentKeyId, hcopied.keyId⟩
  · exact Or.inr hbroken

theorem CopyOutcome.of_advance {status : Status} {s : Sys} {iter : Iter} {keyId : Option ℕ}
    {J : Items} {p : ℕ × Payload × Content} {ps : List (ℕ × Payload × Content)}
    (hitems : renumber omitted c.currentKeyId (p :: ps) =
      J ++ renumber omitted (c.currentKeyId + 1) ps)
    (hJ : ∀ item ∈ J, Writable item) (hwritten : Written c.sys.dev s.dev c.addr J)
    (hkeyId : (keyId.map fun id => renumberedId id (c.currentKeyId + 1) ps) =
      c.keyId.map fun id => renumberedId id c.currentKeyId (p :: ps))
    (h : CopyOutcome ⟨s, iter, c.addr + logSize J, c.currentKeyId + 1, keyId⟩ status c' omitted ps) :
    CopyOutcome c status c' omitted (p :: ps) := by
  rcases h with ⟨hstatus, hcopied⟩ | ⟨hstatus, hbroken⟩
  · refine Or.inl ⟨hstatus, ?_, ?_, ?_, ?_⟩
    · rw [hitems]
      exact hwritten.append hJ hcopied.written
    · rw [hitems, logSize_append, hcopied.addr]
      exact Nat.add_assoc _ _ _
    · rw [hcopied.currentKeyId, List.length_cons]
      change c.currentKeyId + 1 + ps.length = _
      omega
    · rw [hcopied.keyId]
      exact hkeyId
  · refine Or.inr ⟨hstatus, ?_⟩
    rw [hitems]
    exact Broken.back hJ hwritten hbroken

/-- A write fails among the first items. -/
theorem CopyOutcome.of_broken {J K : Items} {ps : List (ℕ × Payload × Content)}
    (hitems : renumber omitted c.currentKeyId ps = J ++ K)
    (hbroken : Broken c.sys.dev c'.sys.dev c.addr J) : CopyOutcome c .errIo c' omitted ps :=
  Or.inr ⟨rfl, by rw [hitems]; exact hbroken.front⟩

/-- Ids increase, so a key has a smaller one than the pairs behind it. -/
theorem Region.id_lt_of_mem_pairs {d : Device} {info : Info} {id : ℕ} {name : Payload}
    (h : Region d info hi (P ++ x :: R)) (hkey : x.item = .key id name) :
    ∀ p ∈ pairs (items R), id < p.1 := by
  intro p hp
  have hids := h.inv.ids
  simp only [items_append, items_cons, hkey, keys_append, keys_key,
    List.map_append, List.map_cons, List.pairwise_append, List.pairwise_cons] at hids
  have hmem := pairs_sublist_keys.subset (List.mem_map_of_mem hp)
  exact hids.2.1.1 p.1 (List.mem_map_of_mem (f := Prod.fst) hmem)

/-- A pair is copied and the loop goes on, or a write fails. -/
theorem copyEntries_pair {id : ℕ} {name : Payload} {content : Content} {rest : List Content}
    (h : Copyable c hi B omitted P (x :: R)) (hkey : x.item = .key id name) (hid : id < entryIdEnd)
    (hvalues : values id (items R) = content :: rest) :
    (∃ c', copyEntries c = (.errIo, c') ∧ c'.sys.info = c.sys.info ∧
        CopyOutcome c .errIo c' omitted (pairs (items (x :: R)))) ∨
      ∃ next, copyEntries c = copyEntries next ∧ next.sys.info = c.sys.info ∧
        Copyable next hi B omitted (P ++ [x]) R ∧
        ∀ status c', CopyOutcome next status c' omitted (pairs (items R)) →
          CopyOutcome c status c' omitted (pairs (items (x :: R))) := by
  have hpairs : pairs (items (x :: R)) =
      (id, name, content) :: pairs (items R) := by
    simp [hkey, pairs, hvalues]
  have hsize := h.pairs
  rw [hpairs, pairsSize, List.map_cons, List.sum_cons] at hsize
  obtain ⟨n, hn, hnext⟩ := h.region.iterNext_pair h.after hkey hid hvalues h.room
    h.bufsize (by simp only [itemSize, entrySize, entryHeaderSize] at hsize; omega)
  have hids := h.region.id_lt_of_mem_pairs hkey
  have hbelow : c.currentKeyId < id :=
    h.below (id, name, content) (by rw [hpairs]; exact List.mem_cons_self)
  have hkeyId := h.keyId
  have htarget := h.target
  rw [hpairs] at hkeyId htarget
  have hsame := hkeyId (id, name, content) List.mem_cons_self
  have hentry : (c.iter.ctx.visit (c.sys.info.addrAfter P) x.header).entry.id = id := by
    rw [Context.visit_entry]
    exact (Entry.item_eq_key hkey).1
  rw [copyEntries_eq, hnext, hpairs]
  simp only [hentry]
  have hitems : renumber omitted c.currentKeyId ((id, name, content) :: pairs (items R)) =
      [.key (c.currentKeyId + 1) name] ++
        ((if omitted = some id then [] else [.value (c.currentKeyId + 1) content]) ++
          renumber omitted (c.currentKeyId + 1) (pairs (items R))) := by
    rw [renumber]
    split_ifs <;> rfl
  rw [hitems] at htarget
  have hw : ∀ item ∈ ([.key (c.currentKeyId + 1) name] : Items), Writable item := fun item hitem =>
    htarget.writable item (List.mem_append_left _ hitem)
  obtain ⟨status, s, hwrite, hinfo, hresult⟩ := htarget.write
  simp only [itemField, itemPayload] at hwrite
  simp only [hwrite]
  rcases hresult with ⟨rfl, hwritten⟩ | ⟨rfl, hbroken⟩
  · have htarget' := htarget.next hwritten (by rw [hinfo])
    rw [← logSize_singleton] at htarget'
    by_cases homitted : omitted = some id
    · -- the value is left out, and the new id of the key is remembered
      rw [if_pos homitted, List.nil_append] at htarget' hitems
      have hnotMem : c.currentKeyId + 1 ∉ (pairs (items R)).map Prod.fst := by
        intro hmem
        obtain ⟨p, hp, hp'⟩ := List.mem_map.mp hmem
        have := hids p hp
        omega
      rw [if_pos (hsame.mpr homitted)]
      refine Or.inr ⟨_, rfl, hinfo, h.advance hpairs (hpairs ▸ hitems) hwritten hinfo htarget' hn rfl
        hids ?_, ?_⟩
      · intro p hp
        have hp' := hids p hp
        simp only [homitted, Option.some.injEq]
        omega
      · refine fun status c' => CopyOutcome.of_advance hitems hw hwritten ?_
        simp only [hsame.mpr homitted, Option.map_some, renumberedId_of_not_mem hnotMem,
          renumberedId, if_true]
    · rw [if_neg homitted] at htarget' hitems
      rw [← List.append_assoc] at hitems
      have hw' := htarget'.writable (.value (c.currentKeyId + 1) content) List.mem_cons_self
      obtain ⟨status, s', hwrite', hinfo', hresult'⟩ := htarget'.write
      simp only [itemField, itemPayload, logSize_singleton, itemSize] at hwrite'
      simp only [hwrite', if_neg (mt hsame.mp homitted)]
      rcases hresult' with ⟨rfl, hwritten'⟩ | ⟨rfl, hbroken'⟩
      · have hboth := hwritten.append hw hwritten'
        have htarget'' := htarget'.next hwritten' (by rw [hinfo'])
        have hsizes : c.addr + entrySize name.1.length + entrySize content.1.1.length =
            c.addr + logSize ([.key (c.currentKeyId + 1) name] ++
              [.value (c.currentKeyId + 1) content]) := by
          simp [itemSize, Nat.add_assoc]
        rw [← logSize_singleton, Nat.add_assoc, ← logSize_append] at htarget''
        rw [hsizes]
        refine Or.inr ⟨_, rfl, hinfo'.trans hinfo, h.advance hpairs (hpairs ▸ hitems) hboth
          (hinfo'.trans hinfo) htarget'' hn rfl hids fun p hp => hkeyId p (by simp [hp]), ?_⟩
        refine fun status c' => CopyOutcome.of_advance hitems
          (List.forall_mem_cons.mpr ⟨hw _ List.mem_cons_self, by simpa using hw'⟩) hboth ?_
        -- the remembered id is not the one of this pair
        have hne : c.keyId ≠ some id := mt hsame.mp homitted
        cases hk : c.keyId with
        | none => rfl
        | some i =>
          have hi : id ≠ i := fun hi => hne (by rw [hk, hi])
          simp [renumberedId, hi]
      · exact Or.inl ⟨_, rfl, hinfo'.trans hinfo,
          CopyOutcome.of_broken hitems (.back hw hwritten hbroken')⟩
  · exact Or.inl ⟨_, rfl, hinfo, CopyOutcome.of_broken hitems hbroken⟩

/-- The loop copies the pairs of the log, or a write fails. -/
theorem copyEntries_spec (h : Copyable c hi B omitted P R) :
    ∃ status c', copyEntries c = (status, c') ∧ c.sys.info.UpToFlag c'.sys.info ∧
      CopyOutcome c status c' omitted (pairs (items R)) := by
  induction R generalizing c P with
  | nil =>
    have hregion := h.region
    rw [List.append_nil] at hregion
    obtain ⟨ctx, info, hflag, hend⟩ := hregion.iterNext_end h.after
    refine ⟨.notFound, ⟨⟨c.sys.dev, info⟩, { c.iter with ctx := ctx }, c.addr, c.currentKeyId,
      c.keyId⟩, ?_, hflag, Or.inl ⟨rfl, ?_⟩⟩
    · rw [copyEntries_eq, hend]
    · exact ⟨Written.nil _ _, rfl, rfl, by simp [pairs, renumberedId]⟩
  | cons x R ih =>
    rcases h.region.iterNext_cases h.after with
      ⟨hpairs, info, hflag, hnext⟩ | ⟨id, name, content, rest, hkey, hid, hvalues, -⟩
    · obtain ⟨status, c', hrun, hflag', hresult⟩ := ih (h.skip hpairs hflag)
      rw [copyEntries_congr hnext, hpairs]
      exact ⟨status, c', hrun, hflag.trans hflag', hresult.of_skip⟩
    · rcases copyEntries_pair h hkey hid hvalues with
        ⟨c', hrun, hinfo, hresult⟩ | ⟨next, hrun, hinfo, hnext, houtcome⟩
      · exact ⟨.errIo, c', hrun, Or.inl hinfo, hresult⟩
      · obtain ⟨status, c', hrun', hflag, hresult⟩ := ih hnext
        exact ⟨status, c', hrun.trans hrun', hinfo ▸ hflag, houtcome _ _ hresult⟩

end Copy

end EspOpenRtos.Sysparam
