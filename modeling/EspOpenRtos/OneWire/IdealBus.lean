/-
# An ideal bus

The wire is high unless a device pulls it low, so a bit that is read is the
conjunction of what the devices drive. After a reset every device collects a
command byte. The search command makes it send the bits of its ROM code, each
followed by the complement, and drop out when the bit that the master writes is not
its own.
-/

import EspOpenRtos.OneWire.Search
import EspOpenRtos.Math.LexWalk

namespace EspOpenRtos.OneWire

open Math.LexWalk

/-- What a device does in its next time slot of a search. -/
inductive Slot
  | bit
  | complement
  | direction

/-- What a device is doing. -/
inductive Mode
  | idle
  | command (received : List Bool)
  | search (index : ℕ) (slot : Slot)
  | selected

structure Device where
  rom : BitVec 64
  mode : Mode

namespace Device

def onReset (d : Device) : Device := { d with mode := .command [] }

/-- The level at which a device leaves the wire in a read slot. -/
def drives (d : Device) : Bool := match d.mode with
  | .search i .bit => d.rom.getLsbD i
  | .search i .complement => !d.rom.getLsbD i
  | _ => true

def onRead (d : Device) : Device := match d.mode with
  | .search i .bit => { d with mode := .search i .complement }
  | .search i .complement => { d with mode := .search i .direction }
  | _ => d

/-- The mode for the search bit with this index. -/
def searchMode (i : ℕ) : Mode := if i < 64 then .search i .bit else .selected

/-- The mode after a command byte. Other commands are not followed. -/
def commandMode (received : List Bool) : Mode :=
  if received.length < 8 then .command received
  else if received = (List.range 8).map onewireSearchCommand.getLsbD then searchMode 0
  else .idle

def onWrite (b : Bool) (d : Device) : Device := match d.mode with
  | .command received => { d with mode := commandMode (received ++ [b]) }
  | .search i .direction =>
    { d with mode := if d.rom.getLsbD i = b then searchMode (i + 1) else .idle }
  | _ => d

end Device

def idealBus : Bus (List Device) where
  reset wire := (!wire.isEmpty, wire.map Device.onReset)
  writeBit wire b := (true, wire.map (Device.onWrite b))
  readBit wire := (some (wire.all Device.drives), wire.map Device.onRead)

/-- The ROM code as a word, the lowest bit first. -/
def bits (rom : BitVec 64) : Fin 64 → Bool := fun i => rom.getLsbD i

theorem bits_inj {x y : BitVec 64} (h : bits x = bits y) : x = y :=
  BitVec.eq_of_getLsbD_eq fun i hi => congrFun h ⟨i, hi⟩

instance (p : ℕ) (x y : Fin 64 → Bool) : Decidable (Agree p x y) :=
  inferInstanceAs (Decidable (∀ i : Fin 64, (i : ℕ) < p → x i = y i))

/-- The wire when the devices whose first `n` bits are those of `w` are in a mode and
the others have dropped out. -/
def taking (roms : List (BitVec 64)) (n : ℕ) (w : Fin 64 → Bool) (mode : Mode) : List Device :=
  roms.map fun rom => ⟨rom, if Agree n (bits rom) w then mode else .idle⟩

/-- The wire in a search that has followed the first `n` bits of `w`. -/
def searching (roms : List (BitVec 64)) (n : ℕ) (w : Fin 64 → Bool) : List Device :=
  taking roms n w (Device.searchMode n)

/-- All devices that take part have the same bit. -/
def AllHave (roms : List (BitVec 64)) (n : ℕ) (w : Fin 64 → Bool) (b : Bool) : Prop :=
  ∀ rom ∈ roms, Agree n (bits rom) w → rom.getLsbD n = b

instance (roms : List (BitVec 64)) (n : ℕ) (w : Fin 64 → Bool) (b : Bool) :
    Decidable (AllHave roms n w b) :=
  inferInstanceAs (Decidable (∀ rom ∈ roms, _ → _))

section IdealBus

variable {wire : List Device} {roms : List (BitVec 64)} {n : ℕ} {w : Fin 64 → Bool}

theorem reset_idealBus (hne : wire ≠ []) :
    idealBus.reset wire = (true, wire.map Device.onReset) := by
  simp [idealBus, hne]

/-- Writes reach every device. -/
theorem onewireWriteBits_idealBus (bits : List Bool) :
    onewireWriteBits idealBus wire bits =
      (true, wire.map fun d => bits.foldl (fun d b => d.onWrite b) d) := by
  induction bits generalizing wire with
  | nil => simp [onewireWriteBits]
  | cons b rest ih =>
    rw [onewireWriteBits]
    exact (@ih (wire.map (Device.onWrite b))).trans (by rw [List.map_map]; rfl)

/-- After a reset and the search command all devices take part. -/
theorem wire_search_started (hwire : wire.map Device.rom = roms) (w : Fin 64 → Bool) :
    (onewireWrite idealBus (wire.map Device.onReset) onewireSearchCommand).2 =
      searching roms 0 w := by
  rw [onewireWrite, onewireWriteBits_idealBus, searching, taking, ← hwire, List.map_map, List.map_map]
  refine List.map_congr_left fun d _ => ?_
  have hagree : Agree 0 (bits d.rom) w := fun i hi => absurd hi (Nat.not_lt_zero _)
  simp only [Function.comp_apply, if_pos hagree]
  rfl

theorem map_rom_searching : (searching roms n w).map Device.rom = roms := by
  rw [searching, taking, List.map_map]
  exact List.map_id' roms

/-- Who takes part decides what is read, and goes on to the next slot. -/
theorem readBit_taking {mode mode' : Mode} {b : Bool}
    (hdrives : ∀ rom, Device.drives ⟨rom, mode⟩ = true ↔ rom.getLsbD n = b)
    (hread : ∀ rom, Device.onRead ⟨rom, mode⟩ = ⟨rom, mode'⟩) :
    idealBus.readBit (taking roms n w mode) =
      (some (decide (AllHave roms n w b)), taking roms n w mode') := by
  refine Prod.ext (congrArg some ?_) ?_
  · rw [Bool.eq_iff_iff, decide_eq_true_iff, List.all_eq_true, taking, List.forall_mem_map]
    refine forall₂_congr fun rom _ => ?_
    by_cases hagree : Agree n (bits rom) w
    · rw [if_pos hagree, hdrives]
      exact ⟨fun h _ => h, fun h => h hagree⟩
    · rw [if_neg hagree]
      exact iff_of_true rfl fun h => absurd h hagree
  · change (taking roms n w mode).map Device.onRead = _
    rw [taking, List.map_map]
    refine List.map_congr_left fun rom _ => ?_
    by_cases hagree : Agree n (bits rom) w
    · simp only [Function.comp_apply, if_pos hagree, hread]
    · simp [if_neg hagree, Device.onRead]

theorem readBit_searching (roms : List (BitVec 64)) (w : Fin 64 → Bool) (hn : n < 64) :
    idealBus.readBit (searching roms n w) =
      (some (decide (AllHave roms n w true)), taking roms n w (.search n .complement)) := by
  rw [searching, Device.searchMode, if_pos hn]
  exact readBit_taking (fun _ => Iff.rfl) fun _ => rfl

theorem readBit_complement (roms : List (BitVec 64)) (w : Fin 64 → Bool) (n : ℕ) :
    idealBus.readBit (taking roms n w (.search n .complement)) =
      (some (decide (AllHave roms n w false)), taking roms n w (.search n .direction)) :=
  readBit_taking (fun rom => by simp [Device.drives]) fun _ => rfl

/-- The devices with the bit that is written go on. -/
theorem writeBit_taking {n : Fin 64} {w' : Fin 64 → Bool} {b : Bool} (hagree : Agree n w' w)
    (hb : w' n = b) :
    (idealBus.writeBit (taking roms n w (.search n .direction)) b).2 =
      searching roms (n + 1) w' := by
  change (taking roms n w _).map (Device.onWrite b) = _
  rw [taking, searching, taking, List.map_map]
  refine List.map_congr_left fun rom _ => ?_
  have hiff : Agree (n + 1) (bits rom) w' ↔ Agree n (bits rom) w ∧ rom.getLsbD n = b := by
    rw [agree_succ_iff, hb]
    exact and_congr_left fun _ => ⟨fun h => h.trans hagree, fun h => h.trans hagree.symm⟩
  by_cases htakes : Agree n (bits rom) w
  · have hmode : (if Agree (n + 1) (bits rom) w' then Device.searchMode (n + 1) else .idle) =
        if rom.getLsbD n = b then Device.searchMode (n + 1) else .idle :=
      if_congr (hiff.trans (and_iff_right htakes)) rfl rfl
    rw [Function.comp_apply, if_pos htakes, hmode]
    rfl
  · rw [Function.comp_apply, if_neg htakes, if_neg fun h => htakes (hiff.mp h).1]
    rfl

end IdealBus

end EspOpenRtos.OneWire
