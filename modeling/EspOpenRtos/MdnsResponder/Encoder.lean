/-
# Names that make the round trip

A name that `mdns_str2labels` has packed can be unpacked again only if its labels are
short: of a length byte `mdns_labels2str` takes two bits for something else.
-/

import EspOpenRtos.MdnsResponder.Decoder

namespace EspOpenRtos.MdnsResponder

open Math.DnsMessages (encodeName ValidName)

open Math.NorFlash (read length_read byte_of_read read_eq_append_iff patch read_patch_self)

/-! ## Names of any labels -/

/-- A label of a C string, of any length. -/
structure StringLabel where
  bytes : List UInt8
  nonempty : bytes ≠ []
  dotFree : dot ∉ bytes
  nulFree : 0 ∉ bytes

/-- The C string of a name, with a dot at its end. -/
def nameString (labels : List StringLabel) : List UInt8 := dottedName (labels.map (·.bytes))

/-- What is stored for a name. -/
def labelSequence (labels : List StringLabel) : List UInt8 := encodeName (labels.map (·.bytes))

section Labels

variable {mem : ℕ → UInt8} {p : ℕ}

theorem length_labelSequence (labels : List StringLabel) :
    (labelSequence labels).length = (nameString labels).length + 1 := length_encodeName _

theorem nameString_cons (l : StringLabel) (labels : List StringLabel) :
    nameString (l :: labels) = l.bytes ++ dot :: nameString labels := rfl

theorem StringLabel.length_pos (l : StringLabel) : 0 < l.bytes.length :=
  List.length_pos_iff.mpr l.nonempty

theorem separable_bytes (labels : List StringLabel) : Separable (labels.map (·.bytes)) := by
  intro l hl
  obtain ⟨label, -, rfl⟩ := List.mem_map.mp hl
  exact ⟨label.nonempty, label.dotFree⟩

theorem str2labels_nameString (max : ℕ) (labels : List StringLabel) :
    ((nameString labels).length < max → str2labels (nameString labels) max =
      ⟨labelSequence labels, (labelSequence labels).length⟩) ∧
    (max ≤ (nameString labels).length → (str2labels (nameString labels) max).result = 0) := by
  have hlen := length_labelSequence labels
  obtain ⟨hfits, hfull⟩ := str2labels_name max (separable_bytes labels) (.inl rfl)
  exact ⟨fun hlt => hfits (hlen.trans_le hlt), fun hle => hfull (Nat.lt_succ_of_le hle |>.trans_eq hlen.symm)⟩

/-! ## Unpacking what has been packed -/

/-- The parts of a label sequence in memory. -/
theorem read_encodeName_cons {l : List UInt8} {labels : List (List UInt8)}
    (hat : read mem p (encodeName (l :: labels)).length = encodeName (l :: labels)) :
    mem p = UInt8.ofNat l.length ∧ read mem (p + 1) l.length = l ∧
      read mem (p + 1 + l.length) (encodeName labels).length = encodeName labels := by
  have hcons : encodeName (l :: labels) = [UInt8.ofNat l.length] ++ (l ++ encodeName labels) := rfl
  rw [hcons] at hat
  obtain ⟨hlen, hrest⟩ := read_eq_append_iff.mp hat
  obtain ⟨hbytes, hmore⟩ := read_eq_append_iff.mp hrest
  exact ⟨byte_of_read hlen (i := 0) Nat.one_pos, hbytes, hmore⟩

/-- Short labels are unpacked, one in each round. -/
theorem unpack_encodeName {labels : List (List UInt8)} (hvalid : ValidName labels)
    (hat : read mem p (encodeName labels).length = encodeName labels) :
    (labels2str mem (labels.length + 1) p).next = some (p + (encodeName labels).length) ∧
      (labels2str mem (labels.length + 1) p).written = dottedName labels ++ [0] := by
  induction labels generalizing p with
  | nil =>
    have hzero : mem p = 0 := byte_of_read hat (i := 0) (by decide)
    rw [trace_root (hzero ▸ rfl)]
    exact ⟨rfl, rfl⟩
  | cons l labels ih =>
    obtain ⟨⟨hpos, hl⟩, hlabels⟩ := List.forall_mem_cons.mp hvalid
    obtain ⟨hbyte, hbytes, hrest⟩ := read_encodeName_cons hat
    have hto : (mem p).toNat = l.length := by
      rw [hbyte, UInt8.toNat_ofNat']
      omega
    have hkind : kindOf (mem p) = .label := (kindOf_eq_label_iff _).mpr ⟨hto ▸ hpos, hto ▸ hl⟩
    obtain ⟨hnext, hwritten⟩ := ih hlabels hrest
    rw [List.length_cons, trace_label hkind, hto, hbytes]
    dsimp only
    rw [hnext, hwritten, encodeName, dottedName]
    simp only [List.cons_append, List.length_cons, List.length_append, List.append_assoc]
    exact ⟨congrArg some (by omega), trivial⟩

/-- What is unpacked again has short labels. -/
theorem short_of_unpack {labels : List StringLabel} {fuel : ℕ}
    (hat : read mem p (labelSequence labels).length = labelSequence labels)
    (hnext : (labels2str mem fuel p).next = some (p + (labelSequence labels).length))
    (hwritten : (labels2str mem fuel p).written = nameString labels ++ [0]) :
    ∀ l ∈ labels, l.bytes.length < 64 := by
  induction labels generalizing p fuel with
  | nil => nofun
  | cons l labels ih =>
    obtain ⟨hbyte, hbytes, hrest⟩ : mem p = UInt8.ofNat l.bytes.length ∧
        read mem (p + 1) l.bytes.length = l.bytes ∧
        read mem (p + 1 + l.bytes.length) (labelSequence labels).length = labelSequence labels :=
      read_encodeName_cons hat
    have hpos := l.length_pos
    have hlong : 2 < (labelSequence (l :: labels)).length := by
      rw [length_labelSequence, nameString_cons, List.length_append, List.length_cons]
      omega
    cases fuel with
    | zero => nomatch hnext
    | succ fuel =>
      cases hkind : kindOf (mem p) with
      | pointer =>
        -- the reference has two bytes only
        rw [trace_pointer hkind] at hnext
        obtain ⟨_, -, heq⟩ := Option.map_eq_some_iff.mp hnext
        omega
      | reserved =>
        rw [trace_reserved hkind] at hwritten
        exact absurd hwritten.symm (List.append_ne_nil_of_right_ne_nil _ (List.cons_ne_nil _ _))
      | root =>
        rw [trace_root hkind] at hnext
        have := Option.some.inj hnext
        omega
      | label =>
        obtain ⟨-, hsmall⟩ := (kindOf_eq_label_iff _).mp hkind
        rw [trace_label hkind, nameString_cons] at hwritten
        rw [trace_label hkind] at hnext
        have hto : (mem p).toNat = l.bytes.length % 256 := by rw [hbyte, UInt8.toNat_ofNat']
        have hl : l.bytes.length < 64 := by
          by_contra hge
          -- a dot stands where the label goes on
          have hlt : (mem p).toNat < l.bytes.length := by omega
          have hdot := congrArg (·[(mem p).toNat]?) hwritten
          dsimp only at hdot
          rw [List.getElem?_append_right (by rw [length_read]), length_read, Nat.sub_self,
            List.getElem?_cons_zero, List.append_assoc, List.getElem?_append_left hlt] at hdot
          exact l.dotFree (List.mem_of_getElem? hdot.symm)
        have hsame : (mem p).toNat = l.bytes.length := by omega
        rw [hsame, hbytes] at hwritten
        rw [hsame] at hnext
        dsimp only at hwritten
        rw [List.append_assoc, List.cons_append] at hwritten
        have hmore := List.cons_injective (List.append_cancel_left hwritten)
        refine List.forall_mem_cons.mpr ⟨hl, ih hrest (hnext.trans ?_) hmore⟩
        rw [length_labelSequence, length_labelSequence, nameString_cons, List.length_append,
          List.length_cons]
        exact congrArg some (by omega)

end Labels

/-- `mdns_labels2str` makes the string of the label sequence, wherever it stands. -/
def Decodes (data s : List UInt8) : Prop :=
  ∀ mem p, read mem p data.length = data →
    ∃ fuel, (labels2str mem fuel p).next = some (p + data.length) ∧
      (labels2str mem fuel p).written = s ++ [0]

theorem decodes_encodeName {labels : List (List UInt8)} (hvalid : ValidName labels) :
    Decodes (encodeName labels) (dottedName labels) :=
  fun _ _ hat => ⟨_, unpack_encodeName hvalid hat⟩

/-- It makes no other string of it. -/
theorem Decodes.unique {data s t : List UInt8} (hs : Decodes data s) (ht : Decodes data t) :
    s = t := by
  have hstored : read (patch (fun _ => 0) 0 data) 0 data.length = data := read_patch_self
  obtain ⟨fuel, hnext, hwritten⟩ := hs _ 0 hstored
  obtain ⟨more, hnext', hwritten'⟩ := ht _ 0 hstored
  rw [trace_unique hnext (walk_eq_none_of_next hnext'), hwritten'] at hwritten
  exact (List.append_cancel_right hwritten).symm

/-- What `mdns_str2labels` returns for a string is what it has stored, in its buffer, and
`mdns_labels2str` makes the string of it again, wherever it stands. -/
def RoundTrips (s : List UInt8) (max : ℕ) : Prop :=
  0 < (str2labels s max).result →
    (str2labels s max).result ≤ max ∧ (str2labels s max).stored.length = (str2labels s max).result ∧
      Decodes (str2labels s max).stored s

/-- Names make the round trip exactly if they are too long for the buffer or all their
labels are shorter than 64 bytes. -/
theorem round_trips_iff (labels : List StringLabel) (max : ℕ) :
    RoundTrips (nameString labels) max ↔
      max ≤ (nameString labels).length ∨ ∀ l ∈ labels, l.bytes.length < 64 := by
  obtain ⟨hfits, hfull⟩ := str2labels_nameString max labels
  rcases Nat.lt_or_ge (nameString labels).length max with hlt | hge
  · rw [RoundTrips, hfits hlt]
    constructor
    · intro h
      refine .inr ?_
      have hstored : read (patch (fun _ => 0) 0 (labelSequence labels)) 0
          (labelSequence labels).length = labelSequence labels := read_patch_self
      obtain ⟨-, -, hunpack⟩ := h (by rw [length_labelSequence]; exact Nat.succ_pos _)
      obtain ⟨fuel, hnext, hwritten⟩ := hunpack _ 0 hstored
      exact short_of_unpack hstored hnext hwritten
    · intro h _
      have hshort := h.resolve_left (Nat.not_le.mpr hlt)
      refine ⟨by rw [length_labelSequence]; exact hlt, rfl, decodes_encodeName fun l hl => ?_⟩
      obtain ⟨label, hlabel, rfl⟩ := List.mem_map.mp hl
      exact ⟨label.length_pos, hshort label hlabel⟩
  · refine ⟨fun _ => .inl hge, fun _ hpos => ?_⟩
    rw [hfull hge] at hpos
    exact absurd hpos (Nat.lt_irrefl 0)

/-- A label of 64 bytes. -/
def longLabel : StringLabel where
  bytes := List.replicate 64 0x61
  nonempty := by decide
  dotFree := by decide
  nulFree := by decide

/-- It is packed behind a length byte that unpacks to nothing. -/
theorem long_label_lost : ¬RoundTrips (nameString [longLabel]) 128 := by
  intro h
  have hpacked : str2labels (nameString [longLabel]) 128 = ⟨labelSequence [longLabel], 66⟩ :=
    (str2labels_nameString 128 [longLabel]).1 (by decide)
  rw [RoundTrips, hpacked] at h
  obtain ⟨-, -, hunpack⟩ := h (by decide)
  have hstored : read (patch (fun _ => 0) 0 (labelSequence [longLabel])) 0
      (labelSequence [longLabel]).length = labelSequence [longLabel] := read_patch_self
  obtain ⟨fuel, hnext, -⟩ := hunpack _ 0 hstored
  cases fuel with
  | zero => nomatch hnext
  | succ fuel =>
    rw [trace_reserved (by decide)] at hnext
    exact absurd (Option.some.inj hnext) (by decide)

end EspOpenRtos.MdnsResponder
