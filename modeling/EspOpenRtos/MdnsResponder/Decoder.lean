/-
# Unpacking names

`mdns_labels2str` gets three pointers and no length: it reads a name wherever its
labels and references lead, and stores what it finds wherever that ends. Here each of
its steps is kept: which positions of the memory it reads, counted from the start of
the message, which bytes it stores, and how deep its calls nest. Whether it returns at
all is a question of the walk from one length byte to the next.
-/

import EspOpenRtos.Math.NorFlash
import EspOpenRtos.Math.Walks
import EspOpenRtos.MdnsResponder.Names

namespace EspOpenRtos.MdnsResponder

open Math.NorFlash (read)
open Math.Walks

/-- What a length byte stands for. -/
inductive LabelKind where
  | pointer
  | reserved
  | root
  | label
  deriving DecidableEq, Repr

/-- The tests of `mdns_labels2str`, in its order. -/
def kindOf (n : UInt8) : LabelKind :=
  if n &&& 0xC0 = 0xC0 then .pointer
  else if n &&& 0xC0 ≠ 0 then .reserved
  else if n = 0 then .root
  else .label

theorem kindOf_eq_label_iff (n : UInt8) : kindOf n = .label ↔ 0 < n.toNat ∧ n.toNat < 64 := by
  have hall : ∀ i < 256, kindOf (.ofNat i) = .label ↔
      0 < (UInt8.ofNat i).toNat ∧ (UInt8.ofNat i).toNat < 64 := by decide +kernel
  have hthis := hall n.toNat n.toNat_lt
  rwa [UInt8.ofNat_toNat] at hthis

/-- The offset in a reference. -/
def pointerTarget (n low : UInt8) : ℕ := (n &&& 0x3F).toNat * 256 + low.toNat

/-- What a call of `mdns_labels2str` has done: the positions read, the bytes stored from
`qStr` on, the nesting of its calls, and the position it returned, if it has. -/
structure Trace where
  reads : List ℕ
  written : List UInt8
  depth : ℕ
  next : Option ℕ

/-- The first `fuel` rounds of `mdns_labels2str`, nested calls included. -/
def labels2str (mem : ℕ → UInt8) : (fuel p : ℕ) → Trace
  | 0, _ => ⟨[], [], 0, none⟩
  | fuel + 1, p =>
    let n := mem p
    match kindOf n with
    | .pointer =>
      let t := labels2str mem fuel (pointerTarget n (mem (p + 1)))
      ⟨p :: (p + 1) :: t.reads, t.written, t.depth + 1, t.next.map fun _ => p + 2⟩
    -- the string is left without an end
    | .reserved => ⟨[p], [], 0, some (p + 1)⟩
    | .root => ⟨[p], [0], 0, some (p + 1)⟩
    | .label =>
      let t := labels2str mem fuel (p + 1 + n.toNat)
      ⟨p :: (List.range' (p + 1) n.toNat ++ t.reads),
        read mem (p + 1) n.toNat ++ dot :: t.written, t.depth, t.next⟩

/-- Where the name at a position goes on. -/
def follow (mem : ℕ → UInt8) (p : ℕ) : Option ℕ :=
  match kindOf (mem p) with
  | .pointer => some (pointerTarget (mem p) (mem (p + 1)))
  | .reserved => none
  | .root => none
  | .label => some (p + 1 + (mem p).toNat)

section Trace

variable {mem : ℕ → UInt8} {fuel p : ℕ}

theorem trace_pointer (h : kindOf (mem p) = .pointer) :
    labels2str mem (fuel + 1) p =
      let t := labels2str mem fuel (pointerTarget (mem p) (mem (p + 1)))
      ⟨p :: (p + 1) :: t.reads, t.written, t.depth + 1, t.next.map fun _ => p + 2⟩ := by
  rw [labels2str]
  simp only [h]

theorem trace_reserved (h : kindOf (mem p) = .reserved) :
    labels2str mem (fuel + 1) p = ⟨[p], [], 0, some (p + 1)⟩ := by
  rw [labels2str]
  simp only [h]

theorem trace_root (h : kindOf (mem p) = .root) :
    labels2str mem (fuel + 1) p = ⟨[p], [0], 0, some (p + 1)⟩ := by
  rw [labels2str]
  simp only [h]

theorem trace_label (h : kindOf (mem p) = .label) :
    labels2str mem (fuel + 1) p =
      let t := labels2str mem fuel (p + 1 + (mem p).toNat)
      ⟨p :: (List.range' (p + 1) (mem p).toNat ++ t.reads),
        read mem (p + 1) (mem p).toNat ++ dot :: t.written, t.depth, t.next⟩ := by
  rw [labels2str]
  simp only [h]

/-- The call has returned exactly if the walk has ended. -/
theorem next_eq_none_iff :
    (labels2str mem fuel p).next = none ↔ walk (follow mem) fuel p ≠ none := by
  induction fuel generalizing p with
  | zero => simp [labels2str, walk]
  | succ fuel ih =>
    rw [walk, follow]
    cases hkind : kindOf (mem p) with
    | pointer =>
      rw [trace_pointer hkind]
      simpa using ih
    | reserved =>
      rw [trace_reserved hkind]
      simp
    | root =>
      rw [trace_root hkind]
      simp
    | label =>
      rw [trace_label hkind]
      simpa using ih

theorem exists_next_of_walk (h : walk (follow mem) fuel p = none) :
    ∃ e, (labels2str mem fuel p).next = some e :=
  Option.ne_none_iff_exists'.mp fun hnone => next_eq_none_iff.mp hnone h

theorem walk_eq_none_of_next {e : ℕ} (h : (labels2str mem fuel p).next = some e) :
    walk (follow mem) fuel p = none := by
  by_contra hne
  rw [next_eq_none_iff.mpr hne] at h
  nomatch h

/-- Each nested call takes a round, and so does the last part of the name. -/
theorem depth_lt {e : ℕ} (h : (labels2str mem fuel p).next = some e) :
    (labels2str mem fuel p).depth < fuel := by
  induction fuel generalizing p e with
  | zero => nomatch h
  | succ fuel ih =>
    cases hkind : kindOf (mem p) with
    | pointer =>
      rw [trace_pointer hkind] at h ⊢
      obtain ⟨e', he', -⟩ := Option.map_eq_some_iff.mp h
      exact Nat.succ_lt_succ (ih he')
    | reserved =>
      rw [trace_reserved hkind]
      exact Nat.succ_pos _
    | root =>
      rw [trace_root hkind]
      exact Nat.succ_pos _
    | label =>
      rw [trace_label hkind] at h ⊢
      exact Nat.lt_succ_of_lt (ih h)

/-- More rounds change nothing once the call has returned. -/
theorem trace_of_le {more : ℕ} (h : walk (follow mem) fuel p = none) (hle : fuel ≤ more) :
    labels2str mem more p = labels2str mem fuel p := by
  induction fuel generalizing p more with
  | zero => nomatch h
  | succ fuel ih =>
    obtain ⟨more, rfl⟩ : ∃ k, more = k + 1 := ⟨more - 1, by omega⟩
    rw [walk, follow] at h
    cases hkind : kindOf (mem p) with
    | pointer =>
      rw [hkind] at h
      rw [trace_pointer hkind, trace_pointer hkind, ih h (Nat.le_of_succ_le_succ hle)]
    | reserved => rw [trace_reserved hkind, trace_reserved hkind]
    | root => rw [trace_root hkind, trace_root hkind]
    | label =>
      rw [hkind] at h
      rw [trace_label hkind, trace_label hkind, ih h (Nat.le_of_succ_le_succ hle)]

/-- Two calls that have returned have done the same. -/
theorem trace_unique {more e : ℕ} (h : (labels2str mem fuel p).next = some e)
    (hmore : walk (follow mem) more p = none) :
    labels2str mem fuel p = labels2str mem more p := by
  rcases Nat.le_total fuel more with hle | hle
  · exact (trace_of_le (walk_eq_none_of_next h) hle).symm
  · exact trace_of_le hmore hle

end Trace

end EspOpenRtos.MdnsResponder
