/-
# Scanning arbitrary content

Here nothing is known about the flash: the active region may hold anything.
Every search still ends, because the walk moves to a larger address or stops; the
definitions of the searches are total for that reason. What a search reports need
not lie inside the region, though. The length of an entry is looked at when the
walk steps over it, which is after it has been reported.

A search that ends without success leaves the context where it ended, with an
empty entry. The next one goes on four bytes further, which need not be where an
entry starts.
-/

import EspOpenRtos.Math.Runs
import EspOpenRtos.Sysparam.CopySpec

namespace EspOpenRtos.Sysparam

open Math.NorFlash Math.Runs

/-! ## Walks over anything -/

/-- The walk goes on from a context to the entry at an address. -/
def Visits (d : Device) (info : Info) (ctx : Context) (addr : ℕ) (h : EntryHeader) : Prop :=
  advance info ctx = .entry addr ∧ readEntryHeader d addr = some h ∧ h.idflags ≠ 0xffff

/-- The walk ends behind a context, and this is the context it leaves. -/
inductive Ends (d : Device) (info : Info) (ctx : Context) : Context → Prop
  | truncated (hadvance : advance info ctx = .truncated) : Ends d info ctx ctx
  | full {addr : ℕ} (hadvance : advance info ctx = .full addr) :
      Ends d info ctx { ctx with addr := addr }
  | unwritten {addr : ℕ} {h : EntryHeader} (hadvance : advance info ctx = .entry addr)
      (hread : readEntryHeader d addr = some h) (hunwritten : h.idflags = 0xffff) :
      Ends d info ctx { ctx with addr := addr, entry := h }

/-- The contexts that walks from the start of the region can come to, one after
the other. -/
inductive Reached (d : Device) (info : Info) : Context → Prop
  | start : Reached d info (initContext info)
  | visited {ctx : Context} {addr : ℕ} {h : EntryHeader} (hreached : Reached d info ctx)
      (hvisits : Visits d info ctx addr h) : Reached d info (ctx.visit addr h)
  | unread {ctx : Context} {addr : ℕ} (hreached : Reached d info ctx)
      (hadvance : advance info ctx = .entry addr) (hread : readEntryHeader d addr = none) :
      Reached d info { ctx with addr := addr }
  /-- A search for the end keeps what it has read there. -/
  | ended {ctx ctx' : Context} (hreached : Reached d info ctx) (hends : Ends d info ctx ctx') :
      Reached d info ctx'
  /-- Any other search forgets it. -/
  | exhausted {ctx ctx' : Context} (hreached : Reached d info ctx) (hends : Ends d info ctx ctx') :
      Reached d info { ctx' with entry := ⟨0, 0⟩ }

/-- The entry of a context lies inside the region. -/
def Inside (info : Info) (ctx : Context) : Prop :=
  ctx.addr + entrySize ctx.entry.len.toNat ≤ info.curBase + info.regionSize

section Flag

variable {d : Device} {info info' : Info} {ctx ctx' : Context} {isValue : Bool}

theorem Ends.congr (hsame : ∀ ctx, advance info ctx = advance info' ctx)
    (hends : Ends d info ctx ctx') : Ends d info' ctx ctx' := by
  cases hends with
  | truncated hadvance => exact .truncated (hsame ctx ▸ hadvance)
  | full hadvance => exact .full (hsame ctx ▸ hadvance)
  | unwritten hadvance hread hunwritten => exact .unwritten (hsame ctx ▸ hadvance) hread hunwritten

/-- Walks depend on where the region is, not on the flag. -/
theorem Reached.congr (hsame : ∀ ctx, advance info ctx = advance info' ctx)
    (hinit : initContext info = initContext info') (hreached : Reached d info ctx) :
    Reached d info' ctx := by
  induction hreached with
  | start => exact hinit ▸ .start
  | visited _ hvisits ih =>
    rw [Visits, hsame] at hvisits
    exact ih.visited hvisits
  | unread _ hadvance hread ih => exact ih.unread (hsame _ ▸ hadvance) hread
  | ended _ hends ih => exact ih.ended (hends.congr hsame)
  | exhausted _ hends ih => exact ih.exhausted (hends.congr hsame)

end Flag

/-! ## What searches report -/

section Searches

variable {d : Device} {info info' : Info} {ctx ctx' : Context}

end Searches

/-! ## Sequences of calls -/

/-- The calls that search a region. -/
inductive ScanCall
  | findKey (key : Option (List UInt8))
  | findValue (idField : UInt16)
  | iterNext

/-- The variables of a caller: an iterator, whose context the other searches use
as well, and what the store keeps in memory. -/
structure Scan where
  iter : Iter
  info : Info

def scanStep (d : Device) (s : Scan) : ScanCall → Scan
  | .findKey key =>
    let r := findKey d s.info s.iter.ctx key
    ⟨{ s.iter with ctx := r.2.1 }, r.2.2⟩
  | .findValue idField =>
    let r := findValue d s.info s.iter.ctx idField
    ⟨{ s.iter with ctx := r.2.1 }, r.2.2⟩
  | .iterNext =>
    let r := iterNext d s.info s.iter
    ⟨r.2.1, r.2.2⟩

/-- Whatever the call reports as found lies inside the region. A search for the
end finds no entry, but the iterator takes what any search for a value returns
for a value. -/
def ReportsInside (d : Device) (s : Scan) : ScanCall → Prop
  | .findKey key => (findKey d s.info s.iter.ctx key).1 = .ok →
      Inside s.info (findKey d s.info s.iter.ctx key).2.1
  | .findValue idField => (idField &&& entryMaskId).toNat ≠ entryIdEnd →
      (findValue d s.info s.iter.ctx idField).1 = .ok →
        Inside s.info (findValue d s.info s.iter.ctx idField).2.1
  | .iterNext =>
    let r := iterNext d s.info s.iter
    r.1 = .ok → Inside s.info r.2.1.ctx ∧
      ((findValue d r.2.2 r.2.1.ctx r.2.1.ctx.entry.idflags).1 = .ok →
        Inside s.info (findValue d r.2.2 r.2.1.ctx r.2.1.ctx.entry.idflags).2.1)

section Sequences

variable {d : Device} {info : Info} {s : Scan}

/-- Some sequence of calls leads to where the next search goes on as from the
given context. Dead entries in between are passed by that search. -/
def Follows (d : Device) (info : Info) (start : Scan) (ctx : Context) : Prop :=
  ∃ calls, info.UpToFlag (run (scanStep d) start calls).info ∧
    ∀ info', info.UpToFlag info' → ∀ matchId fv,
      findEntry d info' (run (scanStep d) start calls).iter.ctx matchId fv =
        findEntry d info' ctx matchId fv

/-- A call that is a search for an entry leads on to where that search stops. -/
theorem Follows.search {start : Scan} {ctx ctx' : Context} {matchId : ℕ} {fv : Bool}
    (h : Follows d info start ctx) (call : ScanCall)
    (hcall : ∀ s, scanStep d s call =
      ⟨{ s.iter with ctx := (findEntry d s.info s.iter.ctx matchId fv).2.1 },
        (findEntry d s.info s.iter.ctx matchId fv).2.2⟩)
    (hstop : ∀ info', info.UpToFlag info' → (findEntry d info' ctx matchId fv).2.1 = ctx') :
    Follows d info start ctx' := by
  obtain ⟨calls, hflag, hsame⟩ := h
  refine ⟨calls ++ [call], ?_⟩
  rw [run_append, run_cons, run_nil, hcall]
  refine ⟨hflag.trans (findEntry_info ..), fun info' hflag' id value => ?_⟩
  simp only [hsame _ hflag, hstop _ hflag]

end Sequences

section Reports

variable {d : Device} {info : Info} {iter : Iter} (hctx : iter.ctx = initContext info)
  (hall : ∀ calls, Along (scanStep d) (ReportsInside d) ⟨iter, info⟩ calls)
include hctx hall

end Reports

/-- An erased chip but for one header, at the start of a region. -/
def oneHeader (id₀ id₁ len₀ len₁ : UInt8) : Device :=
  ⟨fun _ _ => true, fun a =>
    if a = 0x1008 then id₀ else if a = 0x1009 then id₁
    else if a = 0x100A then len₀ else if a = 0x100B then len₁ else 0xFF, [], none, none⟩

/-- The region that the header is in. -/
def oneRegion : Info := ⟨0x1000, 0x2000, 0x2000, 0x1000, false⟩

def oneIter : Iter := (iterStart oneRegion).2

/-- The iterator takes the unwritten space behind a key with the id that stands
for the end for a value of 65535 bytes. -/
theorem end_key_reports_outside :
    ¬Along (scanStep (oneHeader 0xFF 0x8F 0x05 0x00)) (ReportsInside (oneHeader 0xFF 0x8F 0x05 0x00))
      ⟨oneIter, oneRegion⟩ [.iterNext] := by
  rintro ⟨hinside, -⟩
  exact absurd ((hinside (by decide +kernel)).2 (by decide +kernel)) (show ¬(_ ≤ _) by decide +kernel)

end EspOpenRtos.Sysparam
