/-
# Iteration and lookup

The iterator and `sysparam_get_data` walk over the same entries, so going through
the iterator gives the map that lookups see. The iterator reads more than it
delivers, though: its buffer has room for two NULs and is always filled. A value
that ends with the chip can be looked up, and not be iterated over. In a log that
is followed by an inert byte no value is that long.
-/

import EspOpenRtos.Sysparam.Iteration
import EspOpenRtos.Sysparam.Phantom

namespace EspOpenRtos.Sysparam

open Math Math.NorFlash Math.Runs Math.KeyedLog

/-- Iterating until nothing is found gives each key of the log that has a value
once, in the order of the key entries, with what a lookup gives for it. -/
structure Enumerates (s : Sys) (I : Items) (results : List (List UInt8 × List UInt8 × Bool)) :
    Prop where
  complete : ∀ n, results.length < n →
    iterate s n = results.map (fun r => (.ok, some r)) ++ [(.notFound, none)]
  once : (results.map Prod.fst).Nodup
  ordered : (results.map Prod.fst).Sublist ((KeyedLog.keys I).map fun p => p.2.1)
  agrees : ∀ r ∈ results, (sysparamGetData s r.1).1 = (.ok, some r.2)
  found : ∀ key, (sysparamGetData s key).1 ≠ (.notFound, none) →
    (keyOf key).1 ∈ results.map Prod.fst

/-- What the iterator delivers for a pair. -/
def delivered (p : ℕ × Payload × Content) : List UInt8 × List UInt8 × Bool :=
  (p.2.1.1, p.2.2.1.1, p.2.2.2)

section Enumerate

variable {a : Area} {s : Sys} {second : Bool} {I : Items}

theorem iterAnswers_of_length_lt {n : ℕ} {ps : List (ℕ × Payload × Content)} (h : ps.length < n) :
    iterAnswers n ps = (ps.map delivered).map (fun r => (.ok, some r)) ++ [(.notFound, none)] := by
  induction ps generalizing n with
  | nil =>
    obtain ⟨n, rfl⟩ := Nat.exists_eq_succ_of_ne_zero (Nat.ne_zero_of_lt h)
    rfl
  | cons p ps ih =>
    obtain ⟨n, rfl⟩ := Nat.exists_eq_succ_of_ne_zero (Nat.ne_zero_of_lt h)
    rw [iterAnswers, ih (Nat.lt_of_succ_lt_succ h)]
    rfl

theorem Running.enumerates (h : Running a s second I) :
    Enumerates s I ((pairs I).map delivered) := by
  have inv := h.opened.holds.inv
  have hnames : ((pairs I).map delivered).map Prod.fst =
      ((pairs I).map fun p => p.2.1).map Subtype.val := by
    rw [List.map_map, List.map_map]
    rfl
  refine ⟨fun n hn => ?_, ?_, ?_, ?_, ?_⟩
  · rw [List.length_map] at hn
    rw [h.opened.iterate h.sealed, iterAnswers_of_length_lt hn]
  · rw [hnames]
    exact inv.pairs_names.map Subtype.val_injective
  · have hsub := (pairs_sublist_keys (L := I)).map fun p => p.2.1
    rw [List.map_map] at hsub
    rw [hnames, List.map_map]
    exact hsub
  · intro r hr
    obtain ⟨p, hp, rfl⟩ := List.mem_map.mp hr
    have hget := (h.getData p.2.1).1
    rw [inv.lookup_of_mem_pairs hp] at hget
    exact hget
  · intro key hkey
    rw [← sysparamGetData_keyOf, (h.getData (keyOf key)).1,
      lookup_eq_find_pairs inv.names] at hkey
    cases hfind : (pairs I).find? fun p => p.2.1 = keyOf key with
    | none => exact absurd (by rw [hfind]; rfl) hkey
    | some p =>
      have hname : p.2.1 = keyOf key := by simpa using List.find?_some hfind
      rw [hnames, ← hname]
      exact List.mem_map_of_mem
        (List.mem_map_of_mem (List.mem_of_find?_eq_some hfind))

end Enumerate

/-- Whatever was called before, iterating gives the map that lookups see, if the
byte behind the area is inert. -/
theorem iteration_enumerates {a : Area} {s : Sys} (hfresh : Fresh a s)
    (hinert : Inert (s.dev.bytes a.top)) (calls : List Call) :
    ∃ second I results, Opened a (run a.step s calls) second I ∧
      Enumerates (run a.step s calls) I results := by
  obtain ⟨second, I, hrunning⟩ := hfresh.reaches hinert calls
  exact ⟨second, I, _, hrunning.opened, hrunning.enumerates⟩

/-- An erased byte is inert. -/
theorem iteration_enumerates_blank : ∃ second I results,
    Opened smallArea (run smallArea.step (smallArea.create blank)
      [.set (byteKey 107).1 [1] false, .compact]) second I ∧
      Enumerates (run smallArea.step (smallArea.create blank)
        [.set (byteKey 107).1 [1] false, .compact]) I results :=
  iteration_enumerates (fresh_blank _).1 (settled_blank smallArea).running.inert _

/-! ## A value that ends with the chip -/

section Unread

variable {d : Device} {info : Info} {hi id : ℕ} {name : Payload} {x : Entry}
  {P Q R : List Entry}

/-- Keys without a value and what is no key are passed over. -/
theorem Region.iterNext_pass (iter : Iter) (h : Region d info hi (P ++ (Q ++ R)))
    (hafter : iter.ctx.After info P)
    (hpass : ∀ id name, .key id name ∈ items Q → values id (items (Q ++ R)) = []) :
    ∃ info' ctx, info.UpToFlag info' ∧ ctx.After info' (P ++ Q) ∧
      iterNext d info iter = iterNext d info' { iter with ctx := ctx } := by
  induction Q generalizing P info iter with
  | nil => exact ⟨info, iter.ctx, .refl info, by rwa [List.append_nil], rfl⟩
  | cons x Q ih =>
    have hregion := h
    rw [List.cons_append, List.append_cons] at hregion
    have hpass' : ∀ id name, .key id name ∈ items Q → values id (items (Q ++ R)) = [] := by
      intro id name hmem
      have hvalues := hpass id name (List.mem_cons_of_mem _ hmem)
      rw [List.cons_append, items_cons, values, List.filterMap_cons] at hvalues
      split at hvalues
      · exact hvalues
      · exact absurd hvalues (List.cons_ne_nil _ _)
    rcases h.iterNext_cases hafter with
      ⟨-, info₁, hflag₁, hnext⟩ | ⟨id, name, content, rest, hkey, -, hvalues, -⟩
    · obtain ⟨info', ctx, hflag, hafter', heq⟩ := ih
        { iter with ctx := iter.ctx.visit (info.addrAfter P) x.header } (hregion.of_flag hflag₁)
        ((Region.visit_after hafter).of_flag hflag₁) hpass'
      refine ⟨info', ctx, hflag₁.trans hflag, ?_, hnext.trans heq⟩
      rwa [List.append_assoc, List.singleton_append] at hafter'
    · have hall := hpass id name (by rw [items_cons, hkey]; exact List.mem_cons_self)
      rw [List.cons_append, items_cons, hkey, values_key] at hall
      exact absurd (hvalues.symm.trans hall) (List.cons_ne_nil _ _)

/-- The iterator reads one byte beyond a value, at least. If that is refused the
value is not delivered. -/
theorem Region.iterNext_unread {content : Content} {rest : List Content} (iter : Iter)
    (h : Region d info hi (P ++ x :: R)) (hafter : iter.ctx.After info P)
    (hkey : x.item = .key id name) (hid : id < entryIdEnd)
    (hvalues : values id (items R) = content :: rest) :
    ∃ Q v S, R = Q ++ v :: S ∧ v.item = .value id content ∧ (∀ y ∈ Q, ∀ c, y.item ≠ .value id c) ∧
      ((∀ n, content.1.1.length < n →
          d.accepts (info.addrAfter (P ++ [x] ++ Q) + entryHeaderSize) n = false) →
        (iterNext d info iter).1 = .errIo) := by
  have hmatch : x.header.isMatch entryIdAny false = true := Entry.isMatch_any.mpr ⟨id, name, hkey⟩
  have hnext := h.findEntry_next hafter entryIdAny false
  obtain ⟨-, hname, -, -⟩ := Entry.item_eq_key hkey
  rw [List.append_cons] at h
  obtain ⟨Q, v, S, ctx', rfl, hvalue, -, hskip, hfound, haddr', hentry', -⟩ := h.findEntry_value
    (Region.visit_after hafter) (hid.trans (by decide)) hvalues
  obtain ⟨-, hcontent, -, -, -⟩ := Entry.item_eq_value hvalue
  refine ⟨Q, v, S, rfl, hvalue, hskip, fun hrefused => ?_⟩
  rw [iterNext_eq d info iter, hnext, if_pos hmatch]
  simp only [findValue_key (Context.visit_entry _ _ _) hkey, hfound]
  simp only [hentry', Context.visit_entry, Entry.len_header, hname, hcontent]
  generalize hn : (if name.1.length + 1 + content.1.1.length + 1 > iter.bufsize then
    name.1.length + 1 + content.1.1.length + 1 else iter.bufsize) = n
  have hlong : content.1.1.length < n - (name.1.length + 1) := by split_ifs at hn <;> omega
  have hnone : readPayload d ctx' (n - (name.1.length + 1)) = none := by
    rw [readPayload, haddr', spiflashRead, if_neg]
    rintro (hzero | haccepts)
    · omega
    · rw [hrefused _ hlong] at haccepts
      exact Bool.false_ne_true haccepts
  rw [hnone]
  split
  · next hsome => cases hsome
  · rfl

end Unread

/-- If the first step does not succeed there are no others. -/
theorem iterate_of_stop {s : Sys} {status : Status} (hbase : s.info.curBase ≠ 0)
    (hstop : (iterNext s.dev s.info (iterStart s.info).2).1 = status) (hne : status ≠ .ok) (n : ℕ) :
    iterate s (n + 1) = [(status, none)] := by
  have hstart : iterStart s.info = (.ok, (iterStart s.info).2) := by rw [iterStart, if_neg hbase]
  rw [iterate, hstart]
  simp only [iterResults]
  split
  · next hnext => exact absurd (hstop.symm.trans (congrArg Prod.fst hnext)) hne
  · next hnext => rw [← hstop, hnext]

/-- A chip that ends where the iterator may read. It is erased, but for the
header of a phantom value that reaches to its end. -/
def tightChip (a : Area) : Sys :=
  ⟨⟨fun addr n => decide (addr + n ≤ a.limit), patch (fun _ => 0xFF) a.top [0xA0, 0x3D, 0x10], [],
    none, none⟩, ⟨0, 0, 0, 0, false⟩⟩

theorem phantomBehind_tightChip (a : Area) : PhantomBehind a (tightChip a).dev.bytes 4157 :=
  phantomBehind_patch a _ (by decide) (by decide)

theorem accepts_tightChip (a : Area) (addr n : ℕ) :
    (tightChip a).dev.accepts addr n = true ↔ addr + n ≤ a.limit := decide_eq_true_iff

/-- Behind the last round there are three items before the phantom. -/
theorem exposedItems_eq (x : UInt8) : exposedItems x = roundItems 254 ++
    [.key 255 (roundKey 255), .dead 5, .key 256 fillKey, .value 256 (lastValue x, false)] := by
  rw [exposedItems, roundItems, List.append_assoc]
  rfl

section

variable {s : Sys} (h : Opened smallArea s true (exposedItems 0))
  (hphantom : PhantomBehind smallArea s.dev.bytes 4157)
include h hphantom

/-- The iterator fails at the phantom, with which the chip ends. -/
theorem Opened.iterNext_phantom
    (haccepts : ∀ addr n, s.dev.accepts addr n = true → addr + n ≤ smallArea.limit) (iter : Iter)
    (hstart : iter.ctx = initContext s.info) : (iterNext s.dev s.info iter).1 = .errIo := by
  obtain ⟨W, hregion, hitems⟩ := h.phantom_region (logEnd_exposedItems 0) hphantom (by decide)
  have hlength := length_phantomValue smallArea s.dev.bytes 4157 hphantom.small
  generalize phantomValue smallArea s.dev.bytes 4157 hphantom.small = value at hitems hlength
  -- the entries up to the key with the number 255, the key, and the rest
  rw [exposedItems_eq, List.append_assoc] at hitems
  obtain ⟨Q, Y, rfl, hQ, hY⟩ := List.map_eq_append_iff.mp hitems
  obtain ⟨x, R, rfl, hkey, hR⟩ := List.map_eq_cons_iff.mp hY
  change items Q = _ at hQ
  change items R = _ at hR
  have hpass : ∀ id name, .key id name ∈ items Q →
      values id (items (Q ++ x :: R)) = [] := by
    intro id name hmem
    have hid : id ≤ 254 := by
      have hmem' : (id, name) ∈ keys (roundItems 254) :=
        List.mem_filterMap.mpr ⟨_, hQ ▸ hmem, rfl⟩
      obtain ⟨i, -, hi, hp⟩ := mem_keys_roundItems hmem'
      rw [(Prod.mk.inj hp).1]
      exact hi
    have h255 : 255 ≠ id := by omega
    have h256 : 256 ≠ id := by omega
    rw [hitems]
    simp [values_roundItems, h255, h256]
  obtain ⟨info, ctx, hflag, hafter, hnext⟩ := Region.iterNext_pass (P := []) iter hregion
    (hstart ▸ hregion.init_after) hpass
  have hvalues : values 255 (items R) = [(value, false)] := by
    rw [hR]
    simp
  obtain ⟨Q', v, S, rfl, hvalue, -, hunread⟩ := (hregion.of_flag hflag).iterNext_unread
    { iter with ctx := ctx } hafter hkey (by decide) hvalues
  rw [hnext]
  refine hunread fun n hn => ?_
  -- the phantom is the last entry
  have hQ' : items Q' = [.dead 5, .key 256 fillKey, .value 256 (lastValue 0, false)] := by
    rw [items_append, items_cons, hvalue] at hR
    generalize items Q' = before at hR
    rcases before with _ | ⟨first, _ | ⟨second, _ | ⟨third, _ | ⟨fourth, more⟩⟩⟩⟩
    · simp at hR
    · simp at hR
    · simp at hR
    · simp_all
    · simp at hR
  have haddr : info.addrAfter (Q ++ [x] ++ Q') + entryHeaderSize = smallArea.top + 3 := by
    have hlog : items (Q ++ [x] ++ Q') = exposedItems 0 := by
      rw [exposedItems_eq, items_append, items_append, hQ, hQ', items_cons, hkey, items_nil,
        List.append_assoc]
      rfl
    have hcur : info.curBase = s.info.curBase := by rcases hflag with rfl | rfl <;> rfl
    rw [Info.addrAfter, hlog, hcur, h.curBase, entryHeaderSize]
    rw [← logEnd_exposedItems 0, Area.logEnd]
  rw [haddr, Bool.eq_false_iff]
  intro hread
  have hle := haccepts _ _ hread
  change value.1.length < n at hn
  have hlimit : smallArea.limit = smallArea.top + 4160 := rfl
  omega

/-- The phantom is found by a lookup. -/
theorem Opened.getData_phantom :
    ∃ value, (sysparamGetData s (roundKey 255).1).1 = (.ok, some (value, false)) := by
  have hbase := h.curBase_ne
  obtain ⟨W, hregion, hitems⟩ := h.phantom_region (logEnd_exposedItems 0) hphantom (by decide)
  generalize phantomValue smallArea s.dev.bytes 4157 hphantom.small = value at hitems
  obtain ⟨info, hget, -⟩ := hregion.getData hbase (roundKey 255)
  change sysparamGetData s _ = _ at hget
  refine ⟨value.1, ?_⟩
  rw [hget, hitems, lookup, candidates, find_append, find_exposedItems]
  simp [getAnswer]

/-- It is not iterated over. -/
theorem Opened.iterate_phantom
    (haccepts : ∀ addr n, s.dev.accepts addr n = true → addr + n ≤ smallArea.limit) (n : ℕ) :
    Sysparam.iterate s (n + 1) = [(.errIo, none)] := by
  have hbase := h.curBase_ne
  have hstart : (iterStart s.info).2.ctx = initContext s.info := by rw [iterStart, if_neg hbase]
  exact iterate_of_stop hbase (h.iterNext_phantom hphantom haccepts _ hstart) (by simp) n

end

/-- With a byte behind the area that completes a live entry, a key whose lookup
succeeds is not iterated over: the iteration ends with an error before it. -/
theorem iteration_stops_before_value :
    ∃ t, t = run smallArea.step (smallArea.create (tightChip smallArea)) (exposedCalls 0) ∧
      Fresh smallArea (smallArea.create (tightChip smallArea)) ∧
      (∃ value, (sysparamGetData t (roundKey 255).1).1 = (.ok, some (value, false))) ∧
      (∀ n, iterate t (n + 1) = [(.errIo, none)]) ∧ ∀ I results, ¬Enumerates t I results := by
  have hcovers : (tightChip smallArea).dev.Covers smallArea.limit := fun _ _ =>
    (accepts_tightChip smallArea _ _).mpr
  obtain ⟨hfresh, houtside⟩ := fresh_create smallArea (s := tightChip smallArea) rfl hcovers
  have hquiet := quiet_create smallArea (s := tightChip smallArea) rfl hcovers
  obtain ⟨hsteady, hapart⟩ := steady_exposedCalls hfresh.steady 0
  have haccepts : ∀ addr n, (run smallArea.step (smallArea.create (tightChip smallArea))
      (exposedCalls 0)).dev.accepts addr n = true → addr + n ≤ smallArea.limit := by
    intro addr n h
    rw [hapart.accepts, hquiet.accepts] at h
    exact (accepts_tightChip smallArea addr n).mp h
  have hphantom := (phantomBehind_tightChip smallArea).congr fun x hx =>
    (hapart.outside x hx).trans (houtside x hx)
  refine ⟨_, rfl, hfresh, hsteady.opened.getData_phantom hphantom,
    hsteady.opened.iterate_phantom hphantom haccepts, fun I results henum => ?_⟩
  have hcomplete := henum.complete _ (Nat.lt_succ_self results.length)
  rw [hsteady.opened.iterate_phantom hphantom haccepts] at hcomplete
  cases results with
  | nil => cases hcomplete
  | cons r results => cases hcomplete

end EspOpenRtos.Sysparam
