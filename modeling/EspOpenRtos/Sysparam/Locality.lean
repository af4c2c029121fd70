/-
# What the results depend on

An application shares the flash with other users, so what the store answers
should depend on its own data only: the two region headers and the active region.
Two images that agree there are compared.

Entry headers are read four bytes at a time. When the log ends one byte before
the end of the second region, the header that is read there reaches into
whatever follows the area, and the flag bits of a phantom entry are taken from
there.
-/

import EspOpenRtos.Sysparam.Iteration
import EspOpenRtos.Sysparam.Phantom

namespace EspOpenRtos.Sysparam

open Math Math.NorFlash Math.Runs Math.KeyedLog

/-- The store with another flash content. -/
def Sys.withBytes (s : Sys) (g : Image) : Sys := { s with dev := { s.dev with bytes := g } }

/-- The image agrees with the flash on the region headers and on the active
region. -/
structure Agrees (a : Area) (s : Sys) (g : Image) : Prop where
  headers : ∀ second x, a.region second ≤ x → x < a.region second + regionHeaderSize →
    g x = s.dev.bytes x
  active : ∀ x, s.info.curBase ≤ x → x < s.info.curBase + s.info.regionSize → g x = s.dev.bytes x

/-- Two stores give the same answers: what is read, what is iterated over, and
the status and the variables with which the area is opened. -/
structure SameResults (a : Area) (s s' : Sys) : Prop where
  get : ∀ key, (sysparamGetData s' key).1 = (sysparamGetData s key).1
  iterate : ∀ n, iterate s' n = iterate s n
  init : ∀ topAddr, (sysparamInit s' a.base topAddr).1 = (sysparamInit s a.base topAddr).1 ∧
    (sysparamInit s' a.base topAddr).2.info = (sysparamInit s a.base topAddr).2.info

/-- The log ends one byte before the end of the area. -/
def Exposed (a : Area) (s : Sys) : Prop :=
  s.info.curBase = a.region true ∧ s.info.endAddr + 1 = a.top

section Locality

variable {a : Area} {s : Sys} {second : Bool} {I : Items} {g : Image}

theorem Agrees.holds (hagrees : Agrees a s g) (h : Opened a s second I) : Holds a g second I := by
  have hactive := hagrees.active
  rw [h.curBase, h.regionSize] at hactive
  exact h.holds.congr hactive

theorem Agrees.paired (hagrees : Agrees a s g) (h : Running a s second I) : Paired a g second :=
  paired_congr h.paired (hagrees.headers !second)

/-- The store is open on the same log with the other image. -/
theorem Agrees.opened (hagrees : Agrees a s g) (h : Running a s second I) :
    Opened a (s.withBytes g) second I :=
  ⟨hagrees.holds h.opened, Or.inl (hagrees.paired h), h.opened.curBase, h.opened.altBase,
    h.opened.regionSize, h.opened.endAddr, h.opened.covers⟩

theorem Running.exposed_iff (h : Running a s second I) :
    Exposed a s ↔ second = true ∧ a.logEnd second I + 1 = a.region second + a.size := by
  have hsize := a.size_pos
  rw [Exposed, h.opened.curBase, h.opened.endAddr, Area.logEnd]
  cases second with
  | false =>
    simp only [Area.region_false, Area.region_true, Bool.false_eq_true, false_and, iff_false]
    omega
  | true =>
    simp only [Area.region_true, Area.top, true_and]
    omega

/-- Opening the area: the status and the variables. -/
theorem init_results (hholds : Holds a s.dev.bytes second I)
    (hpaired : Paired a s.dev.bytes second) (hcovers : s.dev.Covers a.limit)
    (hsealed : Sealed a s.dev.bytes second I) {topAddr : ℕ}
    (htop : a.base < scanTop a.base topAddr) :
    (sysparamInit s a.base topAddr).1 = .ok ∧
      (sysparamInit s a.base topAddr).2.info = a.info second (a.logEnd second I)
        (decide (a.logEnd second I + 1 = a.region second + a.size ∧
          s.dev.bytes (a.region second + a.size) ≠ 0xFF)) := by
  obtain ⟨flag, hinit, hflag⟩ := sysparamInit_paired hholds hpaired hcovers hsealed htop
  rw [hinit]
  refine ⟨rfl, congrArg (a.info second (a.logEnd second I)) ?_⟩
  rw [Bool.eq_iff_iff, hflag, decide_eq_true_iff]

theorem sealed_of_not_exposed (h : Running a s second I) (hexposed : ¬Exposed a s)
    (hholds : Holds a g second I) : Sealed a g second I := by
  rw [h.exposed_iff, not_and] at hexposed
  cases second with
  | false =>
    have hlog := hholds.logSize_le
    have hsize := a.size_pos
    simp only [Sealed, Area.region_false, Area.top]
    omega
  | true =>
    refine hholds.sealed fun hlast => hexposed rfl ?_
    rw [Area.logEnd]
    omega

/-- Unless the log ends one byte before the end of the area, the answers depend
on the store's own data only. -/
theorem sameResults_of_not_exposed (h : Running a s second I) (hexposed : ¬Exposed a s)
    (hagrees : Agrees a s g) : SameResults a s (s.withBytes g) := by
  have hopened := hagrees.opened h
  have hsealed := sealed_of_not_exposed h hexposed hopened.holds
  refine ⟨fun key => ?_, fun n => ?_, fun topAddr => ?_⟩
  · obtain ⟨_, hget, -⟩ := h.opened.getData h.sealed (keyOf key)
    obtain ⟨_, hget', -⟩ := hopened.getData hsealed (keyOf key)
    rw [← sysparamGetData_keyOf, ← sysparamGetData_keyOf s, hget, hget']
  · rw [hopened.iterate hsealed, h.opened.iterate h.sealed]
  · by_cases htop : a.base < scanTop a.base topAddr
    · obtain ⟨hstatus, hinfo⟩ := init_results h.opened.holds h.paired h.opened.covers h.sealed htop
      obtain ⟨hstatus', hinfo'⟩ := init_results hopened.holds (hagrees.paired h) hopened.covers
        hsealed htop
      refine ⟨hstatus'.trans hstatus.symm, ?_⟩
      rw [hinfo', hinfo]
      congr 2
      -- the byte behind the first region belongs to the header of the second
      rw [h.exposed_iff, not_and] at hexposed
      cases second with
      | false =>
        have hbyte : g (a.region true) = s.dev.bytes (a.region true) :=
          hagrees.headers true _ le_rfl (by rw [regionHeaderSize]; omega)
        exact propext (and_congr_right fun _ => not_congr (Eq.congr hbyte rfl))
      | true => exact propext (and_congr_right fun hlast => absurd hlast (hexposed rfl))
    · rw [sysparamInit_of_empty (Nat.le_of_not_lt htop), sysparamInit_of_empty (Nat.le_of_not_lt htop)]
      exact ⟨rfl, rfl⟩

/-- Otherwise the byte behind the area decides about the flag with which the area
is opened. -/
theorem not_sameResults_of_exposed (h : Running a s second I) (hexposed : Exposed a s) :
    ∃ g, Agrees a s g ∧ ¬SameResults a s (s.withBytes g) := by
  obtain ⟨rfl, hlast⟩ := h.exposed_iff.mp hexposed
  have hsize := a.size_pos
  have htop := a.region_true_add_size
  obtain ⟨x, hx, hinert⟩ : ∃ x : UInt8, (x = 0xFF ↔ s.dev.bytes a.top ≠ 0xFF) ∧ Inert x := by
    by_cases herased : s.dev.bytes a.top = 0xFF
    · exact ⟨0, by simp [herased], by decide⟩
    · exact ⟨0xFF, by simp [herased], by decide⟩
  let g : Image := Function.update s.dev.bytes a.top x
  have hother {y : ℕ} (hy : y < a.top) : g y = s.dev.bytes y := Function.update_of_ne (by omega) ..
  have hagrees : Agrees a s g := by
    refine ⟨fun second y _ hy => hother ?_, fun y _ hy => hother ?_⟩
    · have := a.region_add_size_le second
      rw [regionHeaderSize] at hy
      omega
    · rw [h.opened.curBase, h.opened.regionSize] at hy
      omega
  refine ⟨g, hagrees, fun hsame => ?_⟩
  have hopened := hagrees.opened h
  have hbyte : (s.withBytes g).dev.bytes a.top = x := Function.update_self ..
  have hscan : a.base < scanTop a.base a.top := by
    rw [scanTop, if_neg (by rw [Area.top]; omega), Area.top]
    omega
  obtain ⟨-, hinfo⟩ := init_results h.opened.holds h.paired h.opened.covers h.sealed hscan
  obtain ⟨-, hinfo'⟩ := init_results hopened.holds (hagrees.paired h) hopened.covers
    (fun _ => hbyte ▸ hinert) hscan
  have hflags := (hinfo'.symm.trans (hsame.init a.top).2).trans hinfo
  have hflag : decide _ = decide _ := congrArg Info.forceCompact hflags
  rw [decide_eq_decide, htop, hbyte] at hflag
  simp only [hlast, htop, true_and, ne_eq, hx] at hflag
  tauto

end Locality

/-- Whatever was called before, the answers depend on the region headers and the
active region only, exactly if the log does not end one byte before the end of
the area. -/
theorem results_local_iff {a : Area} {s : Sys} (hfresh : Fresh a s)
    (hinert : Inert (s.dev.bytes a.top)) (calls : List Call) :
    (∀ g, Agrees a (run a.step s calls) g →
        SameResults a (run a.step s calls) ((run a.step s calls).withBytes g)) ↔
      ¬Exposed a (run a.step s calls) := by
  obtain ⟨second, I, hrunning⟩ := hfresh.reaches hinert calls
  generalize run a.step s calls = s at hrunning ⊢
  constructor
  · intro hsame hexposed
    obtain ⟨g, hagrees, hdiffers⟩ := not_sameResults_of_exposed hrunning hexposed
    exact hdiffers (hsame g hagrees)
  · intro hexposed g hagrees
    exact sameResults_of_not_exposed hrunning hexposed hagrees

/-- The condition is met when there is one value in the first region. -/
theorem results_local_single :
    Fresh smallArea (smallArea.create blank) ∧
    Inert ((smallArea.create blank).dev.bytes smallArea.top) ∧
    ∀ g, Agrees smallArea (run smallArea.step (smallArea.create blank)
        [.set (byteKey 107).1 (filled 1 1 (by decide)).1 false]) g →
      SameResults smallArea (run smallArea.step (smallArea.create blank)
        [.set (byteKey 107).1 (filled 1 1 (by decide)).1 false])
        ((run smallArea.step (smallArea.create blank)
          [.set (byteKey 107).1 (filled 1 1 (by decide)).1 false]).withBytes g) := by
  have hinert := (settled_blank smallArea).running.inert
  refine ⟨(fresh_blank _).1, hinert, ?_⟩
  refine (results_local_iff (fresh_blank _).1 hinert _).mpr ?_
  have hset := settled_single smallArea (k := byteKey 107) (v := filled 1 1 (by decide)) false
    (by decide) (by decide) (by decide)
  rw [run_cons, run_nil, Area.step, hset.running.exposed_iff]
  exact fun h => Bool.false_ne_true h.1

/-- A flash content with a phantom value of no bytes behind the area. -/
def withPhantom (a : Area) (f : Image) : Image := patch f a.top [0xA0, 0, 0]

/-- If the log ends one byte before the end of the area and the key with the
number 255 has no value, only bytes behind the area decide whether it is found. -/
theorem Running.read_phantom {a : Area} {s : Sys} {I rest : Items} {k : Payload}
    (h : Running a s true I) (hlast : a.logEnd true I + 1 = a.top)
    (hfind : find k I = some (255, rest)) (hnone : values 255 rest = []) :
    Agrees a s (withPhantom a s.dev.bytes) ∧ (sysparamGetData s k.1).1 = (.notFound, none) ∧
      (sysparamGetData (s.withBytes (withPhantom a s.dev.bytes)) k.1).1 = (.ok, some ([], false)) := by
  have hsame {x : ℕ} (hx : x < a.top) : withPhantom a s.dev.bytes x = s.dev.bytes x :=
    patch_of_outside (Or.inl hx)
  have hsize := a.size_pos
  have hagrees : Agrees a s (withPhantom a s.dev.bytes) := by
    refine ⟨fun second x _ hx => hsame ?_, fun x _ hx => hsame ?_⟩
    · have := a.region_add_size_le second
      rw [regionHeaderSize] at hx
      omega
    · have := a.region_add_size_le true
      rw [h.opened.curBase, h.opened.regionSize] at hx
      omega
  refine ⟨hagrees, ?_, ?_⟩
  · rw [(h.getData k).1, lookup, candidates, hfind]
    simp [hnone, getAnswer]
  · have hopened := hagrees.opened h
    have hphantom : PhantomBehind a (withPhantom a s.dev.bytes) 0 :=
      phantomBehind_patch a s.dev.bytes (by decide) (by decide)
    obtain ⟨W, hregion, hitems⟩ := hopened.phantom_region hlast hphantom (by omega)
    have hbase := hopened.curBase_ne
    obtain ⟨info, hget, -⟩ := hregion.getData hbase k
    change sysparamGetData (s.withBytes (withPhantom a s.dev.bytes)) _ = _ at hget
    rw [hget, hitems, lookup, candidates, find_append, hfind]
    simp [hnone, getAnswer, phantomValue, NorFlash.read]

/-- Only bytes behind the area differ. With one content a key is not found, with
the other it has a value. -/
theorem phantom_value_read :
    ∃ t, t = run smallArea.step (smallArea.create blank) (exposedCalls 0) ∧
      Fresh smallArea (smallArea.create blank) ∧
      Inert ((smallArea.create blank).dev.bytes smallArea.top) ∧
      Agrees smallArea t (withPhantom smallArea t.dev.bytes) ∧
      (sysparamGetData t (roundKey 255).1).1 = (.notFound, none) ∧
      (sysparamGetData (t.withBytes (withPhantom smallArea t.dev.bytes)) (roundKey 255).1).1 =
        (.ok, some ([], false)) := by
  obtain ⟨hsteady, hapart⟩ := steady_exposedCalls (settled_blank smallArea).steady 0
  refine ⟨_, rfl, (fresh_blank _).1, (settled_blank smallArea).running.inert, ?_⟩
  generalize run smallArea.step (smallArea.create blank) (exposedCalls 0) = t at hsteady hapart ⊢
  have hinert : Inert (t.dev.bytes smallArea.top) := by
    rw [hapart.outside _ le_rfl]
    exact (settled_blank smallArea).running.inert
  exact (hsteady.settled hinert).running.read_phantom (logEnd_exposedItems 0) (find_exposedItems 0) rfl

end EspOpenRtos.Sysparam
