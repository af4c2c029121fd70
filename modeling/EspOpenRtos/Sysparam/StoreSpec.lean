/-
# Storing a value

Behind the preparation there is room for the new entries. They are written one
after the other, and only then is the old value deleted, so that the log of the
key goes from the old value over both of them to the new one. If a compaction
came first, the old value was left behind in the spare region.
-/

import EspOpenRtos.Sysparam.SetSpec

namespace EspOpenRtos.Sysparam

open Math Math.NorFlash Math.KeyedLog

section NewItems

variable {a : Area} {second : Bool} {I : Items} {k : Payload} {content : Content} {c : Bool}

theorem logSize_newItems : logSize (newItems c k content I) = needed k content.1.1 I := by
  unfold newItems needed
  cases keyId I k with
  | none => simp [itemSize, Nat.add_comm]
  | some id => simp [itemSize]

theorem base_eq_placed (h : keyId I k = none) : base c I = placed c k I := by
  rw [base, placed, h]

theorem writable_newItems (inv : KeyedLog.Inv maxKeyId I)
    (hroom : ¬Full a c k content.1.1 I) : ∀ item ∈ newItems c k content I, Writable item := by
  unfold newItems
  cases hid : keyId I k with
  | none =>
    have hlast : lastId (placed c k I) + 1 < 0xfff := by
      by_contra hge
      refine hroom (Or.inr ⟨hid, ?_⟩)
      rw [maxKeyId]
      omega
    intro item hitem
    simp only [List.mem_cons, List.not_mem_nil, or_false] at hitem
    rcases hitem with rfl | rfl
    · exact hlast
    · exact hlast
  | some id =>
    have hrange := (inv.range _ (mem_keys_of_keyId hid)).2
    have hpairs := (length_pairs_le_keys (L := I)).trans inv.length_keys_le
    have hrenumbered := renumberedId_le (pairs I) id 0
    intro item hitem
    rw [List.mem_singleton] at hitem
    subst hitem
    change (if c then _ else id) < 0xfff
    simp only [maxKeyId] at hrange hpairs
    split_ifs <;> omega

theorem inv_newItems (inv : KeyedLog.Inv maxKeyId I) (hroom : ¬Full a c k content.1.1 I) :
    KeyedLog.Inv maxKeyId (placed c k I ++ newItems c k content I) := by
  have hput : KeyedLog.Inv maxKeyId (put itemSize c k content I) := by
    refine inv.put fun hnone => ?_
    rw [base_eq_placed hnone]
    by_contra hge
    exact hroom (Or.inr ⟨hnone, by omega⟩)
  rw [put_eq] at hput
  cases c with
  | false => exact hput.of_keys_eq (by simp [placed_false])
  | true => exact hput

theorem room_newItems (hroom : ¬Full a c k content.1.1 I) (second : Bool) :
    a.logEnd second (placed c k I) + logSize (newItems c k content I) ≤ a.region second + a.size := by
  have hspace : ¬a.size < regionHeaderSize + logSize (placed c k I) + needed k content.1.1 I :=
    fun h => hroom (Or.inl h)
  rw [logSize_newItems, Area.logEnd]
  omega

end NewItems

/-- The images of storing a value. -/
inductive Storing (a : Area) (f : Image) (second : Bool) (I : Items) (k : Payload) (content : Content)
    (c : Bool) (g : Image) : Prop
  | compacting (hc : c = true) (h : Compacting a f second (placed c k I) g)
  | appending (M : Items) (hM : Partly (newItems c k content I) M)
      (hholds : Holds a g (second ^^ c) (placed c k I ++ M)) (hpaired : Paired a g (second ^^ c))
      (houtside : ∀ x, a.top ≤ x → g x = f x)
  | stored (hholds : Holds a g (second ^^ c) (KeyedLog.put itemSize c k content I))
      (hpaired : Paired a g (second ^^ c)) (houtside : ∀ x, a.top ≤ x → g x = f x)

/-- A value has been stored. -/
structure ValueStored (a : Area) (s s' : Sys) (second : Bool) (I : Items) (k : Payload)
    (content : Content) (c : Bool) : Prop where
  opened : Opened a s' (second ^^ c) (KeyedLog.put itemSize c k content I)
  calm : s'.info.forceCompact = false
  quiet : Quiet s.dev s'.dev
  paired : Paired a s.dev.bytes second → Paired a s'.dev.bytes (second ^^ c)
  outside : ∀ x, a.top ≤ x → s'.dev.bytes x = s.dev.bytes x
  images : s.dev.fault = none → Paired a s.dev.bytes second →
    Through s.dev s'.dev (Storing a s.dev.bytes second I k content c)
  /-- The flash at the end of the compaction, before the value is written. -/
  compacted : c = true → s.dev.fault = none → Paired a s.dev.bytes second →
    switched a s.dev.bytes second (placed c k I) ∈ s.dev.cuts s'.dev
  /-- The flash when the value has been written and the old one is still there. -/
  doubled : s.dev.fault = none → Paired a s.dev.bytes second → ∃ g ∈ s.dev.cuts s'.dev,
    Holds a g (second ^^ c) (placed c k I ++ newItems c k content I) ∧ Paired a g (second ^^ c) ∧
      ∀ x, a.top ≤ x → g x = s.dev.bytes x

/-- A write has failed, but memory and flash agree on some log. -/
structure WriteFailed (a : Area) (s s' : Sys) : Prop where
  failed : ∃ x, Failed s.dev s'.dev x
  opened : ∃ second I, Opened a s' second I
  outside : ∀ x, a.top ≤ x → s'.dev.bytes x = s.dev.bytes x

/-- The outcomes of storing a value. -/
inductive StoreOutcome (a : Area) (s : Sys) (second : Bool) (I : Items) (k : Payload)
    (content : Content) : Bool → Status → Sys → Prop
  | full (s' : Sys) (hfull : Full a false k content.1.1 I) (hdev : s'.dev = s.dev)
      (hinfo : s.info.UpToFlag s'.info) : StoreOutcome a s second I k content false .errFull s'
  | compactedFull (s' : Sys) (hfull : Full a true k content.1.1 I)
      (hswitched : Switched a s s' second (placed true k I)) :
      StoreOutcome a s second I k content true .errFull s'
  | stored (c : Bool) (s' : Sys) (hroom : ¬Full a c k content.1.1 I)
      (hstored : ValueStored a s s' second I k content c) :
      StoreOutcome a s second I k content c .ok s'
  | failed (c : Bool) (s' : Sys) (hfailed : WriteFailed a s s') :
      StoreOutcome a s second I k content c .errIo s'
  | switchFailed (s' : Sys) (hfailed : SwitchFailed a s s' second (placed true k I)) :
      StoreOutcome a s second I k content true .errIo s'

section Store

variable {a : Area} {s : Sys} {second : Bool} {I : Items} {k : Payload} {content : Content} {c : Bool}
  {t : Setting}

/-- The old value that is to be deleted behind a write: none is left, or it is
where the lookup found it, even if that is in the spare region by now. -/
def OldLeft (a : Area) (f : Image) (second : Bool) (I : Items) (k : Payload) (c : Bool)
    (t : Setting) : Prop :=
  t.oldValueAddr = 0 ∧ (c = false → lookup I k = none) ∨
    ∃ old id A S u, OldValue a f second I k old u id A S ∧ t.oldValueAddr = u.oldValueAddr

/-- The entries can be written. -/
structure Ready (a : Area) (s : Sys) (second : Bool) (I : Items) (k : Payload) (content : Content)
    (c : Bool) (t : Setting) : Prop where
  opened : Opened a t.sys (second ^^ c) (placed c k I)
  items : pairItems t k content = newItems c k content I
  calm : t.sys.info.forceCompact = false
  quiet : Quiet s.dev t.sys.dev
  paired : Paired a s.dev.bytes second → Paired a t.sys.dev.bytes (second ^^ c)
  outside : ∀ x, a.top ≤ x → t.sys.dev.bytes x = s.dev.bytes x
  compacted : c = true → t.sys.dev.bytes = switched a s.dev.bytes second (placed c k I)
  images : s.dev.fault = none → Through s.dev t.sys.dev (Storing a s.dev.bytes second I k content c)
  old : OldLeft a s.dev.bytes second I k c t

/-- Deleting the old value completes the update of the log. -/
theorem OldLeft.deleteOld {s' : Sys} (h : OldLeft a s.dev.bytes second I k c t)
    (hholds : Holds a s.dev.bytes second I)
    (hopened : Opened a s' (second ^^ c) (placed c k I ++ newItems c k content I)) :
    ∃ status d', deleteOld .ok { t with sys := s' } = (status, { t with sys := ⟨d', s'.info⟩ }) ∧
      Deleted a s' ⟨d', s'.info⟩ (second ^^ c) (put itemSize c k content I) status := by
  rcases h with ⟨hzero, hnone⟩ | ⟨old, id, A, S, u, hold, haddr⟩
  · have hput : put itemSize c k content I = placed c k I ++ newItems c k content I := by
      rw [put_eq]
      cases c with
      | false => rw [if_neg (by decide), delete_of_lookup_none (hnone rfl), placed_false]
      | true => rfl
    refine ⟨.ok, s'.dev, by simp [Sysparam.deleteOld, hzero], ⟨_, hopened, fun _ => hput.symm⟩, rfl, id,
      fun x _ => rfl, Or.inl ⟨rfl, .refl _⟩, fun _ _ => Through.refl _⟩
  · have haddr' : t.oldValueAddr = a.logEnd second A := haddr.trans hold.oldValueAddr
    have hpos : a.logEnd second A ≠ 0 := by
      rw [Area.logEnd, regionHeaderSize]
      omega
    simp only [Sysparam.deleteOld, haddr', if_pos hpos]
    cases c with
    | false =>
      have hput : put itemSize false k content I =
          A ++ .dead (itemSize (.value id old)) :: (S ++ newItems false k content I) := by
        simp [put_eq, hold.delete]
      rw [placed_false, Bool.xor_false, hold.split, List.append_assoc, List.cons_append] at hopened
      rw [← hold.split] at hopened
      obtain ⟨status, d', hrun, hdeleted⟩ := hopened.deleteEntry
      refine ⟨status, d', by rw [hrun], ?_⟩
      rw [hput, Bool.xor_false]
      exact hdeleted
    | true =>
      have hput : put itemSize true k content I =
          placed true k I ++ newItems true k content I := put_eq true content
      rw [Bool.xor_true] at hopened ⊢
      have hfits := hholds.logSize_le
      rw [hold.split, logSize_append, logSize_cons] at hfits
      simp only [itemSize, entrySize, entryHeaderSize] at hfits
      have hlo : a.region (!!second) + regionHeaderSize ≤ a.logEnd second A := by
        rw [Bool.not_not, Area.logEnd]
        omega
      have hhi : a.logEnd second A + entryHeaderSize ≤ a.region (!!second) + a.size := by
        rw [Bool.not_not, Area.logEnd, entryHeaderSize]
        omega
      obtain ⟨status, d', hrun, hdeleted⟩ := hopened.deleteStale hlo hhi
      exact ⟨status, d', by rw [hrun], hput ▸ hdeleted⟩

/-- Writing the entries and deleting the old value. -/
theorem Ready.store (h : Ready a s second I k content c t) (hholds : Holds a s.dev.bytes second I)
    (hroom : ¬Full a c k content.1.1 I) :
    ∃ status t', breakOnError (writePair t k.1 content.1.1 content.2)
        (deleteOld (writePair t k.1 content.1.1 content.2).1) = (status, t') ∧
      StoreOutcome a s second I k content c status t'.sys := by
  have hitems := h.items
  obtain ⟨status, s', M, hrun, happended⟩ := h.opened.writePair
    (by rw [hitems]; exact room_newItems hroom _)
    (by rw [hitems]; exact writable_newItems hholds.inv hroom)
    (by rw [hitems]; exact inv_newItems hholds.inv hroom)
  rw [hitems] at happended
  have htop := a.region_add_size_le (second ^^ c)
  have houtside (x : ℕ) (hx : a.top ≤ x) : s'.dev.bytes x = s.dev.bytes x :=
    (happended.same x (Or.inr (by omega))).trans (h.outside x hx)
  rw [hrun]
  rcases happended.result with ⟨rfl, rfl, hquiet⟩ | ⟨rfl, x, hfailed⟩
  · obtain ⟨status, d', hdelete, hdeleted⟩ := h.old.deleteOld hholds happended.opened
    refine ⟨status, _, hdelete, ?_⟩
    have hquiet' := h.quiet.trans hquiet
    have houtside' (x : ℕ) (hx : a.top ≤ x) : d'.bytes x = s.dev.bytes x :=
      (hdeleted.outside x hx).trans (houtside x hx)
    obtain ⟨K, hK, hok⟩ := hdeleted.opened
    rcases hdeleted.result with ⟨rfl, hquiet''⟩ | ⟨rfl, x, hfailed⟩
    · have hwriting (hnone : s.dev.fault = none) (hpaired : Paired a s.dev.bytes second) :
          Through t.sys.dev s'.dev (Storing a s.dev.bytes second I k content c) := by
        refine (happended.images (h.quiet.fault hnone)).mono ?_
        rintro g ⟨M, hM, hg, hsame⟩
        exact .appending M hM hg (hsame.paired (h.paired hpaired)) fun x hx =>
          (hsame x (Or.inr (by omega))).trans (h.outside x hx)
      have hdeleting (hnone : s.dev.fault = none) (hpaired : Paired a s.dev.bytes second) :
          Through s'.dev d' (Storing a s.dev.bytes second I k content c) := by
        refine (hdeleted.images (hquiet'.fault hnone)
          (happended.same.paired (h.paired hpaired))).mono ?_
        rintro g ⟨hg, hspare, hsame⟩
        exact .stored hg hspare fun x hx => (hsame x hx).trans (houtside x hx)
      refine .stored _ _ hroom ⟨hok rfl ▸ hK, ?_, hquiet'.trans hquiet'', fun hpaired => ?_, houtside',
        ?_, ?_, ?_⟩
      · change s'.info.forceCompact = false
        rw [happended.info]
        exact h.calm
      · exact hdeleted.paired (happended.same.paired (h.paired hpaired))
      · intro hnone hpaired
        exact (h.images hnone).trans ((hwriting hnone hpaired).trans (hdeleting hnone hpaired))
      · intro hc hnone hpaired
        rw [← h.compacted hc]
        exact (h.images hnone).mem_cuts ((hwriting hnone hpaired).trans (hdeleting hnone hpaired))
      · intro hnone hpaired
        exact ⟨s'.dev.bytes, ((h.images hnone).trans (hwriting hnone hpaired)).mem_cuts
          (hdeleting hnone hpaired), happended.opened.holds, happended.same.paired (h.paired hpaired),
          houtside⟩
    · exact .failed _ _ ⟨⟨x, hquiet'.failed hfailed⟩, ⟨_, _, hK⟩, houtside'⟩
  · exact ⟨.errIo, _, rfl, .failed _ _ ⟨⟨x, h.quiet.failed hfailed⟩, ⟨_, _, happended.opened⟩, houtside⟩⟩

/-- Without a compaction the entries can be written right away. -/
theorem Located.ready (h : Located a s second I k t) (hopened : Opened a s second I)
    (hold : OldLeft a s.dev.bytes second I k false t)
    (hcalm : (countOldValue t).sys.info.forceCompact = false) :
    Ready a s second I k content false (countOldValue t) := by
  have htracks := h.tracks
  obtain ⟨n, hcount⟩ := countOldValue_eq t
  have hdev := htracks.dev
  refine ⟨by rw [Bool.xor_false]; exact htracks.opened hopened, ?_, hcalm, ?_, ?_, ?_, by simp, fun _ => ?_,
    ?_⟩
  · rw [pairItems, newItems, htracks.keyId, hcount]
    cases hid : KeyedLog.keyId I k with
    | none => rw [placed_false, h.lastId hid]
    | some id => rfl
  · rw [hdev]
    exact .refl _
  · rw [hdev, Bool.xor_false]
    exact id
  · intro x _
    rw [hdev]
  · rw [hdev]
    exact Through.refl _
  · rw [hcount]
    exact hold

/-- After a compaction the entries are written to the other region. -/
theorem Renumbered.ready (h : Renumbered a s second I k t) (hopened : Opened a s second I)
    (hold : OldLeft a s.dev.bytes second I k true t) :
    Ready a s second I k content true t := by
  obtain ⟨hnew, hpaired, houtside⟩ := h.switched.opened hopened
  refine ⟨by rwa [Bool.xor_true], ?_, ?_, h.switched.quiet, fun _ => by rwa [Bool.xor_true], houtside,
    fun _ => h.switched.bytes, fun hnone => (h.switched.images hnone).mono fun g hg => .compacting rfl hg, hold⟩
  · rw [pairItems, newItems, h.keyId, h.lastId]
    cases KeyedLog.keyId I k <;> rfl
  · rw [h.switched.info]
    rfl

/-- What storing a value does to an opened store. -/
theorem Located.storeValue (h : Located a s second I k t) (hopened : Opened a s second I)
    (hsealed : Sealed a s.dev.bytes second I) (content : Content)
    (hsought : Sought a s.dev.bytes second I k t) :
    ∃ status t', storeValue (countOldValue t) k.1 content.1.1 content.2 = (status, t') ∧
      StoreOutcome a s second I k content (compactsAt (countOldValue t) k.1 content.1.1) status
        t'.sys := by
  obtain ⟨n, hcount⟩ := countOldValue_eq t
  obtain ⟨status, t', hrun, houtcome⟩ := h.prepare hopened hsealed
  rw [Sysparam.storeValue, hrun]
  generalize compactsAt (countOldValue t) k.1 content.1.1 = c at houtcome
  cases houtcome with
  | full _ hfull hdev hinfo => exact ⟨_, _, rfl, .full _ hfull hdev hinfo⟩
  | compactedFull _ hfull hren => exact ⟨_, _, rfl, .compactedFull _ hfull hren.switched⟩
  | failed _ hfailed =>
    refine ⟨_, _, rfl, ?_⟩
    rcases hfailed with hcopy | hswitch
    · obtain ⟨hnew, -, houtside⟩ := hcopy.opened hopened
      exact .failed _ _ ⟨hcopy.failed, ⟨_, _, hnew⟩, houtside⟩
    · exact .switchFailed _ hswitch
  | ready hroom hcalm =>
    have hleft : OldLeft a s.dev.bytes second I k false t := by
      rcases hsought with ⟨hnone, hzero⟩ | ⟨old, id, A, S, hold⟩
      · exact Or.inl ⟨hzero, fun _ => hnone⟩
      · exact Or.inr ⟨old, id, A, S, t, hold, rfl⟩
    exact (h.ready hopened hleft hcalm).store hopened.holds hroom
  | compacted _ hroom hren haddr =>
    have hleft : OldLeft a s.dev.bytes second I k true t' := by
      rw [hcount] at haddr
      rcases haddr with hzero | hsame
      · exact Or.inl ⟨hzero, by simp⟩
      · rcases hsought with ⟨-, hzero⟩ | ⟨old, id, A, S, hold⟩
        · exact Or.inl ⟨hsame.trans hzero, by simp⟩
        · exact Or.inr ⟨old, id, A, S, t, hold, hsame⟩
    exact (hren.ready hopened hleft).store hopened.holds hroom

end Store

end EspOpenRtos.Sysparam
