/-
# Growing and trimming the log

Between compactions the log changes in two ways: an entry is written behind the
last one, or the alive flag of a value is cleared. A write that fails, or a power
cut, leaves at most one more dead entry at the end.
-/

import EspOpenRtos.Sysparam.Boot
import EspOpenRtos.Sysparam.Filling

namespace EspOpenRtos.Sysparam

open Math Math.NorFlash Math.KeyedLog

/-- What may stand in the place of an item: itself, or something dead. -/
def Torn (item x : Item Payload Content) : Prop := x = item ∨ ∃ n, x = .dead n

/-- Some of the items have been written, and perhaps something dead behind
them. -/
def Partly (N M : Items) : Prop := ∃ P, P <+: N ∧ (M = P ∨ ∃ n, M = P ++ [.dead n])

theorem Torn.of_dead {item : Item Payload Content} {e x : Entry} (h : e.item = item)
    (hx : x.item = .dead x.size ∨ x = e) : Torn item x.item := by
  rcases hx with hdead | rfl
  · exact Or.inr ⟨_, hdead⟩
  · exact Or.inl h

section Partly

variable {N M : Items} {item : Item Payload Content}

theorem Partly.mono {P : Items} (h : Partly N M) : Partly (N ++ P) M := by
  obtain ⟨Q, hQ, hM⟩ := h
  exact ⟨Q, hQ.trans (List.prefix_append N P), hM⟩

theorem Partly.first (N : Items) {y : Item Payload Content} (h : Torn item y) :
    Partly (item :: N) [y] := by
  rcases h with rfl | ⟨n, rfl⟩
  · exact ⟨[y], by simp, Or.inl rfl⟩
  · exact ⟨[], by simp, Or.inr ⟨n, rfl⟩⟩

theorem Partly.rest (h : Partly N M) : Partly (item :: N) (item :: M) := by
  obtain ⟨P, hP, rfl | ⟨n, rfl⟩⟩ := h
  · exact ⟨item :: M, by simpa using hP, Or.inl rfl⟩
  · exact ⟨item :: P, by simpa using hP, Or.inr ⟨n, rfl⟩⟩

end Partly

/-- Nothing has changed except behind the log. -/
def SameBefore (a : Area) (second : Bool) (I : Items) (f g : Image) : Prop :=
  ∀ x, x < a.logEnd second I ∨ a.region second + a.size ≤ x → g x = f x

section Append

variable {a : Area} {f g : Image} {s : Sys} {second : Bool} {I J : Items}
  {item : Item Payload Content} {x : Entry}

theorem logEnd_append : a.logEnd second (I ++ J) = a.logEnd second I + logSize J := by
  rw [Area.logEnd, Area.logEnd, logSize_append, Nat.add_assoc _ _ (logSize J)]

theorem SameBefore.trans {g' : Image} (h : SameBefore a second I f g)
    (h' : SameBefore a second (I ++ J) g g') : SameBefore a second I f g' := by
  intro y hy
  rw [h' y (by rw [logEnd_append]; omega), h y hy]

/-- The spare region depends on its own header only. -/
theorem paired_congr (h : Paired a f second)
    (same : ∀ y, a.region (!second) ≤ y → y < a.region (!second) + regionHeaderSize → g y = f y) :
    Paired a g second := by
  obtain ⟨active, hactive, hread⟩ := h
  exact ⟨active, hactive, (read_congr same).trans hread⟩

theorem missing_congr (h : Missing a f second)
    (same : g (a.region !second) = f (a.region !second)) : Missing a g second := by
  rwa [Missing, same]

theorem SameBefore.spare (h : SameBefore a second I f g) {y : ℕ} (h1 : a.region (!second) ≤ y)
    (h2 : y < a.region (!second) + a.size) : g y = f y := by
  have hapart := a.region_apart second
  refine h y ?_
  rw [Area.logEnd]
  omega

theorem SameBefore.paired (h : SameBefore a second I f g) (hpaired : Paired a f second) :
    Paired a g second := by
  have hsize := a.size_pos
  refine paired_congr hpaired fun y h1 h2 => h.spare h1 ?_
  rw [regionHeaderSize] at h2
  omega

theorem SameBefore.missing (h : SameBefore a second I f g) (hmissing : Missing a f second) :
    Missing a g second := by
  have hsize := a.size_pos
  exact missing_congr hmissing (h.spare le_rfl (by omega))

/-- An entry written behind the log becomes part of it. -/
theorem Holds.append_entry (h : Holds a f second I)
    (hroom : a.logEnd second I + x.size ≤ a.region second + a.size)
    (inv : KeyedLog.Inv maxKeyId (I ++ [x.item])) :
    Holds a (patch f (a.logEnd second I) x.bytes) second (I ++ [x.item]) := by
  have hlen := x.length_bytes
  refine ⟨?_, ?_, inv⟩
  · rw [read_patch_of_disjoint (Or.inl (by rw [Area.logEnd]; omega))]
    exact h.header
  · obtain ⟨L, rfl, hlayout⟩ := h.log
    have hsize : logSize (items (L ++ [x])) = logSize (items L) + x.size := by simp
    rw [Area.logEnd] at hroom ⊢
    refine ⟨L ++ [x], by simp, ?_, ?_, ?_⟩
    · rw [stored_append]
      refine ⟨stored_congr hlayout.stored fun y h1 h2 => patch_of_lt h2, ?_, trivial⟩
      rw [← hlen]
      exact read_patch_self
    · rw [hsize]
      omega
    · intro y h1 h2
      rw [hsize] at h1
      rw [patch_of_ge (by omega)]
      exact hlayout.erased y (by omega) h2

theorem sameBefore_patch (hroom : a.logEnd second I + x.size ≤ a.region second + a.size) :
    SameBefore a second I f (patch f (a.logEnd second I) x.bytes) := fun y hy =>
  patch_of_outside (by rw [x.length_bytes]; omega)

theorem inv_append_torn (inv : KeyedLog.Inv maxKeyId I) (inv' : KeyedLog.Inv maxKeyId (I ++ [item]))
    {y : Item Payload Content} (htorn : Torn item y) : KeyedLog.Inv maxKeyId (I ++ [y]) := by
  rcases htorn with rfl | ⟨n, rfl⟩
  · exact inv'
  · exact inv.of_keys_eq (keys_append_dead (dead_singleton n))

/-- The images while items are written behind the log. -/
def Appending (a : Area) (f : Image) (second : Bool) (I N : Items) (g : Image) : Prop :=
  ∃ M, Partly N M ∧ Holds a g second (I ++ M) ∧ SameBefore a second I f g

/-- Items have been written behind the log, all of them or as many as a failing
write let through. -/
structure Appended (a : Area) (s s' : Sys) (second : Bool) (I N M : Items) (status : Status) :
    Prop where
  partly : Partly N M
  opened : Opened a s' second (I ++ M)
  info : s'.info = { s.info with endAddr := a.logEnd second (I ++ M) }
  same : SameBefore a second I s.dev.bytes s'.dev.bytes
  result : status = .ok ∧ M = N ∧ Quiet s.dev s'.dev ∨
    status = .errIo ∧ ∃ addr, Failed s.dev s'.dev addr
  images : s.dev.fault = none → Through s.dev s'.dev (Appending a s.dev.bytes second I N)

theorem Appended.first {s' : Sys} {N M : Items} (h : Appended a s s' second I [item] M .errIo) :
    Appended a s s' second I (item :: N) M .errIo := by
  refine ⟨h.partly.mono (P := N), h.opened, h.info, h.same, ?_, fun hnone => (h.images hnone).mono ?_⟩
  · rcases h.result with ⟨hok, -⟩ | hfailed
    · simp at hok
    · exact Or.inr hfailed
  · rintro g ⟨M, hM, hholds, hsame⟩
    exact ⟨M, hM.mono (P := N), hholds, hsame⟩

theorem Appended.rest {s' s'' : Sys} {N M : Items} {status : Status}
    (h : Appended a s s' second I [item] [item] .ok)
    (h' : Appended a s' s'' second (I ++ [item]) N M status) :
    Appended a s s'' second I (item :: N) (item :: M) status := by
  have hquiet : Quiet s.dev s'.dev := by
    rcases h.result with ⟨-, -, hquiet⟩ | ⟨hstatus, -⟩
    · exact hquiet
    · simp at hstatus
  have hopened := h'.opened
  rw [← List.append_cons] at hopened
  refine ⟨h'.partly.rest, hopened, ?_, h.same.trans h'.same, ?_, fun hnone => ?_⟩
  · rw [h'.info, h.info, ← List.append_cons]
  · rcases h'.result with ⟨rfl, rfl, hquiet'⟩ | ⟨rfl, addr, hfailed⟩
    · exact Or.inl ⟨rfl, rfl, hquiet.trans hquiet'⟩
    · exact Or.inr ⟨rfl, addr, hquiet.failed hfailed⟩
  · refine ((h.images hnone).mono ?_).trans ((h'.images (hquiet.fault hnone)).mono ?_)
    · rintro g ⟨M, hM, hholds, hsame⟩
      exact ⟨M, hM.mono (P := N), hholds, hsame⟩
    · rintro g ⟨M, hM, hholds, hsame⟩
      rw [← List.append_cons] at hholds
      exact ⟨item :: M, hM.rest, hholds, h.same.trans hsame⟩

/-- Writing one item behind the log of an opened store. -/
theorem Opened.append (h : Opened a s second I) (hw : Writable item)
    (hroom : a.logEnd second I + itemSize item ≤ a.region second + a.size)
    (inv : KeyedLog.Inv maxKeyId (I ++ [item])) :
    ∃ status s' M, writeEntry s (a.logEnd second I) (itemField item) (itemPayload item).1 =
        (status, s') ∧ Appended a s s' second I [item] M status := by
  have hsize := size_ofItem hw
  have hitem := Entry.item_ofItem hw
  have hlimit := a.region_add_size_le second
  have hend : s.info.endAddr = a.logEnd second I := h.endAddr
  obtain ⟨L, hitems, hlayout⟩ := h.holds.log
  -- the space behind the log is erased
  have hfresh : Programmable s.dev.bytes (a.logEnd second I) (draft item) := by
    refine programmable_of_erased fun i hi => ?_
    rw [length_draft, Entry.length_bytes, hsize] at hi
    refine hlayout.erased _ ?_ (by omega)
    rw [hitems, Area.logEnd]
    omega
  have hcovers : s.dev.CoversRange (a.logEnd second I)
      (a.logEnd second I + (Entry.ofItem item).size) := fun y n _ hn =>
    h.covers y n (by rw [Area.limit]; omega)
  obtain ⟨status, s', hrun, himages, hresult⟩ := writeEntry_spec (itemField_ne hw) hcovers hfresh
  -- whatever is there now extends the log by one item
  have hextend {x : Entry} (hx : x.size ≤ (Entry.ofItem item).size) (htorn : Torn item x.item) :
      Holds a (patch s.dev.bytes (a.logEnd second I) x.bytes) second (I ++ [x.item]) ∧
        SameBefore a second I s.dev.bytes (patch s.dev.bytes (a.logEnd second I) x.bytes) :=
    ⟨h.holds.append_entry (by omega) (inv_append_torn h.holds.inv inv htorn),
      sameBefore_patch (by omega)⟩
  have hfinish {x : Entry} (hx : x.size ≤ (Entry.ofItem item).size) (htorn : Torn item x.item)
      (hbytes : s'.dev.bytes = patch s.dev.bytes (a.logEnd second I) x.bytes)
      (haccepts : s'.dev.accepts = s.dev.accepts)
      (hinfo : s'.info = s.info.grow (a.logEnd second I) x.size) :
      Opened a s' second (I ++ [x.item]) ∧
        s'.info = { s.info with endAddr := a.logEnd second (I ++ [x.item]) } ∧
        SameBefore a second I s.dev.bytes s'.dev.bytes := by
    obtain ⟨hholds, hsame⟩ := hextend hx htorn
    rw [← hbytes] at hholds hsame
    have hgrown : s'.info = { s.info with endAddr := a.logEnd second (I ++ [x.item]) } := by
      rw [hinfo, Info.grow, if_pos hend, hend, logEnd_append]
      simp
    refine ⟨⟨hholds, h.spare.imp hsame.paired hsame.missing, ?_, ?_, ?_, ?_,
      h.covers.of_accepts haccepts⟩, hgrown, hsame⟩
    · exact hgrown ▸ h.curBase
    · exact hgrown ▸ h.altBase
    · exact hgrown ▸ h.regionSize
    · rw [hgrown]
      rfl
  have himages' : s.dev.fault = none →
      Through s.dev s'.dev (Appending a s.dev.bytes second I [item]) := by
    refine fun hnone => (himages hnone).mono ?_
    rintro g ⟨-, x, hx, hdead, rfl⟩
    have htorn := Torn.of_dead hitem hdead
    exact ⟨[x.item], .first [] htorn, hextend hx.le htorn⟩
  rcases hresult with ⟨rfl, hbytes, hinfo, hquiet⟩ | ⟨rfl, ⟨addr, hfailed⟩, x, hx, hbytes, hinfo⟩
  · have htorn := Torn.of_dead hitem (Or.inr rfl)
    obtain ⟨hopened, hgrown, hsame⟩ := hfinish le_rfl htorn hbytes hquiet.accepts hinfo
    exact ⟨.ok, s', _, hrun, .first [] htorn, hopened, hgrown, hsame,
      Or.inl ⟨rfl, by rw [hitem], hquiet⟩, himages'⟩
  · have htorn := Torn.of_dead hitem hx.dead
    obtain ⟨hopened, hgrown, hsame⟩ := hfinish hx.size_le htorn hbytes hfailed.accepts hinfo
    exact ⟨.errIo, s', _, hrun, .first [] htorn, hopened, hgrown, hsame, Or.inr ⟨rfl, addr, hfailed⟩,
      himages'⟩

end Append

/-! ## Deleting -/

section Delete

variable {a : Area} {f : Image} {s : Sys} {second : Bool} {A S I : Items} {id addr : ℕ}
  {content : Content}

/-- The entry with its alive flag cleared. -/
def Entry.kill (e : Entry) : Entry :=
  ⟨e.idflags &&& ~~~entryFlagAlive, e.payload, dead_flags_ne e.idflags⟩

theorem Entry.item_kill (e : Entry) : e.kill.item = .dead e.size := by
  have hlive : e.kill.header.live = false := by
    simpa [EntryHeader.live, Entry.kill, Entry.header] using dead_flags_not_live e.idflags
  simp only [Entry.item, hlive]
  rfl

/-- The entry behind an item in the middle of a log. -/
theorem exists_entry_of_items {L : List Entry} {item : Item Payload Content}
    (h : items L = A ++ item :: S) :
    ∃ P e R, L = P ++ e :: R ∧ items P = A ∧ e.item = item ∧ items R = S := by
  obtain ⟨P, R', rfl, hP, hR'⟩ := List.map_eq_append_iff.mp h
  obtain ⟨e, R, rfl, he, hR⟩ := List.map_eq_cons_iff.mp hR'
  exact ⟨P, e, R, rfl, hP, he, hR⟩

/-- Clearing the alive flag of a value takes it out of the log. -/
theorem Holds.kill (h : Holds a f second (A ++ .value id content :: S)) :
    ∃ hd : EntryHeader, read f (a.logEnd second A) entryHeaderSize = hd.bytes ∧
      Holds a (patch f (a.logEnd second A) (hd.clear entryFlagAlive).bytes) second
        (A ++ .dead (itemSize (.value id content)) :: S) := by
  obtain ⟨L, hitems, hlayout⟩ := h.log
  obtain ⟨P, e, R, rfl, rfl, hitem, rfl⟩ := exists_entry_of_items hitems
  have hsize : itemSize (.value id content) = e.size := by rw [← hitem, Entry.itemSize_item]
  have hstored := stored_append.mp hlayout.stored
  have hread : read f (a.logEnd second (items P)) e.size = e.bytes := hstored.2.1
  have hentry := read_entry hread
  have hbytes : (e.header.clear entryFlagAlive).bytes.length = entryHeaderSize := rfl
  have hkill : e.header.clear entryFlagAlive = e.kill.header := rfl
  have hkeep : logSize (items (P ++ e.kill :: R)) = logSize (items (P ++ e :: R)) := by
    simp only [items_append, items_cons, logSize_append, logSize_cons, Entry.itemSize_item]
    rfl
  have hfour := e.four_le_size
  have hlogEnd : a.logEnd second (items P) = a.region second + regionHeaderSize + logSize (items P) := rfl
  refine ⟨e.header, hentry.1, ?_, ⟨P ++ e.kill :: R, ?_, ?_, ?_, ?_⟩, ?_⟩
  · rw [read_patch_of_disjoint (Or.inl (by omega))]
    exact h.header
  · rw [items_append, items_cons, Entry.item_kill, hsize]
  · rw [stored_append]
    refine ⟨stored_congr hstored.1 fun x h1 h2 => patch_of_lt h2, ?_, ?_⟩
    · -- the payload stays
      rw [show e.kill.size = e.kill.header.bytes.length + e.payload.1.length from rfl, Entry.bytes,
        hkill]
      refine read_append_iff.mpr ⟨read_patch_self, ?_⟩
      rw [read_patch_of_disjoint (Or.inr (by rw [hlogEnd]))]
      exact hentry.2
    · refine stored_congr hstored.2.2 fun x h1 h2 => patch_of_ge ?_
      change _ + e.size ≤ x at h1
      rw [hbytes, entryHeaderSize]
      omega
  · rw [hkeep]
    exact hlayout.fits
  · intro x h1 h2
    rw [hkeep] at h1
    rw [patch_of_ge]
    · exact hlayout.erased x h1 h2
    · simp only [items_append, items_cons, logSize_append, logSize_cons, Entry.itemSize_item] at h1
      rw [hbytes, entryHeaderSize]
      omega
  · exact h.inv.of_keys_eq (by simp)

/-- An entry has been deleted, or a failing write may have kept it. -/
structure Deleted (a : Area) (s s' : Sys) (second : Bool) (J : Items) (status : Status) : Prop where
  opened : ∃ K, Opened a s' second K ∧ (status = .ok → K = J)
  info : s'.info = s.info
  paired : Paired a s.dev.bytes second → Paired a s'.dev.bytes second
  outside : ∀ x, a.top ≤ x → s'.dev.bytes x = s.dev.bytes x
  result : status = .ok ∧ Quiet s.dev s'.dev ∨ status = .errIo ∧ ∃ x, Failed s.dev s'.dev x
  images : s.dev.fault = none → Paired a s.dev.bytes second → Through s.dev s'.dev fun g =>
    Holds a g second J ∧ Paired a g second ∧ ∀ x, a.top ≤ x → g x = s.dev.bytes x

/-- An opened store stays open if only the log changes, and not in size. -/
theorem Opened.of_holds_same {d' : Device} {J : Items} (h : Opened a s second I)
    (hholds : Holds a d'.bytes second J) (hsize : logSize J = logSize I)
    (haccepts : d'.accepts = s.dev.accepts)
    (same : ∀ x, a.region (!second) ≤ x → x < a.region (!second) + regionHeaderSize →
      d'.bytes x = s.dev.bytes x) : Opened a ⟨d', s.info⟩ second J := by
  refine ⟨hholds, ?_, h.curBase, h.altBase, h.regionSize, ?_, ?_⟩
  · exact h.spare.imp (fun hpaired => paired_congr hpaired same) fun hmissing =>
      missing_congr hmissing (same _ le_rfl (by rw [regionHeaderSize]; omega))
  · rw [hsize]
    exact h.endAddr
  · exact h.covers.of_accepts haccepts

/-- Deleting an entry whose header is not that of the spare region, if the log is
`J` once its alive flag is cleared. -/
theorem Opened.deleted {hd : EntryHeader} {J : Items} (h : Opened a s second I)
    (hread : read s.dev.bytes addr entryHeaderSize = hd.bytes)
    (hkilled : Holds a (patch s.dev.bytes addr (hd.clear entryFlagAlive).bytes) second J)
    (hsize : logSize J = logSize I) (hend : addr + entryHeaderSize ≤ a.top)
    (hspare : ∀ x, a.region (!second) ≤ x → x < a.region (!second) + regionHeaderSize →
      x < addr ∨ addr + entryHeaderSize ≤ x) :
    ∃ status d', deleteEntry s.dev addr = (status, d') ∧
      Deleted a s ⟨d', s.info⟩ second J status := by
  obtain ⟨status, d', hrun, himages, hresult⟩ := deleteEntry_spec
    (fun x n _ hn => h.covers x n (by rw [Area.limit]; omega)) hread
  have houtside (x : ℕ) (hx : x < addr ∨ addr + entryHeaderSize ≤ x) :
      patch s.dev.bytes addr (hd.clear entryFlagAlive).bytes x = s.dev.bytes x := patch_of_outside hx
  have hfinish {K : Items} (hholds : Holds a d'.bytes second K) (hsame : logSize K = logSize I)
      (haccepts : d'.accepts = s.dev.accepts) (hok : status = .ok → K = J)
      (hbytes : ∀ x, x < addr ∨ addr + entryHeaderSize ≤ x → d'.bytes x = s.dev.bytes x)
      (hstatus : status = .ok ∧ Quiet s.dev d' ∨ status = .errIo ∧ ∃ x, Failed s.dev d' x) :
      Deleted a s ⟨d', s.info⟩ second J status := by
    have hheader (x : ℕ) (h1 : a.region (!second) ≤ x)
        (h2 : x < a.region (!second) + regionHeaderSize) := hbytes x (hspare x h1 h2)
    refine ⟨⟨K, h.of_holds_same hholds hsame haccepts hheader, hok⟩, rfl,
      fun hpaired => paired_congr hpaired hheader, fun x hx => hbytes x (by omega), hstatus,
      fun hnone hpaired => (himages hnone).mono ?_⟩
    rintro g rfl
    exact ⟨hkilled, paired_congr hpaired fun x h1 h2 => houtside x (hspare x h1 h2),
      fun x hx => houtside x (by omega)⟩
  refine ⟨status, d', hrun, ?_⟩
  rcases hresult with ⟨rfl, hbytes, hquiet⟩ | ⟨rfl, ⟨x, hfailed⟩, hbytes | hbytes⟩
  · exact hfinish (hbytes ▸ hkilled) hsize hquiet.accepts (fun _ => rfl) (hbytes ▸ houtside)
      (Or.inl ⟨rfl, hquiet⟩)
  · exact hfinish (hbytes ▸ h.holds) rfl hfailed.accepts (by simp) (fun x _ => congrFun hbytes x)
      (Or.inr ⟨rfl, x, hfailed⟩)
  · exact hfinish (hbytes ▸ hkilled) hsize hfailed.accepts (by simp) (hbytes ▸ houtside)
      (Or.inr ⟨rfl, x, hfailed⟩)

/-- Deleting a value takes it out of the log. -/
theorem Opened.deleteEntry (h : Opened a s second (A ++ .value id content :: S)) :
    ∃ status d', deleteEntry s.dev (a.logEnd second A) = (status, d') ∧
      Deleted a s ⟨d', s.info⟩ second (A ++ .dead (itemSize (.value id content)) :: S) status := by
  obtain ⟨hd, hread, hkilled⟩ := h.holds.kill
  have hfits := h.holds.logSize_le
  have hlimit := a.region_add_size_le second
  have hapart := a.region_apart second
  have hsize := a.size_pos
  rw [logSize_append, logSize_cons] at hfits
  simp only [itemSize, entrySize, entryHeaderSize] at hfits
  refine h.deleted hread hkilled (by simp [itemSize]) ?_ fun x h1 h2 => ?_
  · rw [Area.logEnd, entryHeaderSize]
    omega
  · rw [regionHeaderSize] at h2
    rw [Area.logEnd, entryHeaderSize]
    omega

/-- Deleting something in the spare region does not touch the log. -/
theorem Opened.deleteStale (h : Opened a s second I)
    (hlo : a.region (!second) + regionHeaderSize ≤ addr)
    (hhi : addr + entryHeaderSize ≤ a.region (!second) + a.size) :
    ∃ status d', Sysparam.deleteEntry s.dev addr = (status, d') ∧
      Deleted a s ⟨d', s.info⟩ second I status := by
  have hlimit := a.region_add_size_le (!second)
  have hapart := a.region_apart second
  have hread := (EntryHeader.bytes_ofBytes (l := read s.dev.bytes addr entryHeaderSize)
    (by simp [entryHeaderSize])).symm
  refine h.deleted hread (h.holds.congr fun x h1 h2 => patch_of_outside ?_) rfl (by omega)
    fun x h1 h2 => by omega
  rw [EntryHeader.length_bytes]
  rw [entryHeaderSize] at hhi
  omega

end Delete

end EspOpenRtos.Sysparam
