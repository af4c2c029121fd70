/-
# Questions that stay inside their buffers

Unpacking the questions of a packet reads only the packet, fills at most the buffer
for the name and leaves a terminated string in it exactly if the packet really holds as
many questions as it declares: each with a complete name, which is not too long and,
where it is looked up, comes to a proper end, and with a type and a class behind it.
-/

import EspOpenRtos.MdnsResponder.Questions

namespace EspOpenRtos.MdnsResponder

open Math.NorFlash (read length_read)
open Math.Walks

/-- The packet holds a name at a position, which unpacks to these bytes and ends here. -/
inductive NameAt (payload : List UInt8) : ℕ → List UInt8 → ℕ → Prop
  | root {p : ℕ} {n : UInt8} : payload[p]? = some n → kindOf n = .root →
      NameAt payload p [0] (p + 1)
  -- unpacking stops here as well, but puts no end to the string
  | reserved {p : ℕ} {n : UInt8} : payload[p]? = some n → kindOf n = .reserved →
      NameAt payload p [] (p + 1)
  | label {p e : ℕ} {n : UInt8} {rest : List UInt8} : payload[p]? = some n → kindOf n = .label →
      NameAt payload (p + 1 + n.toNat) rest e →
      NameAt payload p ((payload.drop (p + 1)).take n.toNat ++ dot :: rest) e
  | pointer {p e : ℕ} {n low : UInt8} {rest : List UInt8} : payload[p]? = some n →
      kindOf n = .pointer → payload[p + 1]? = some low →
      NameAt payload (pointerTarget n low) rest e → NameAt payload p rest (p + 2)

/-- The question is one that `mdns_match` is called for. -/
def Query.Asked (q : Query) : Prop := q.qClass = DNS_RRCLASS_IN ∨ q.qClass = DNS_RRCLASS_ANY

/-- The packet holds as many questions from a position on. -/
def QuestionsFit (payload : List UInt8) : ℕ → ℕ → Prop
  | 0, _ => True
  | count + 1, p => ∃ name e, NameAt payload p name e ∧ name.length ≤ kMaxQStr ∧
      e + sizeofDnsQuery ≤ payload.length ∧
      ((queryAt (fun a => payload.getD a 0) e).Asked → 0 ∈ name) ∧
      QuestionsFit payload count (e + sizeofDnsQuery)

/-- A question is unpacked from bytes of the packet into the buffer, and looked up only
with a string that has an end. -/
structure Unpacked.Stays (u : Unpacked) (payload : List UInt8) : Prop where
  reads : ∀ a ∈ u.reads, a < payload.length
  written : u.name.written.length ≤ kMaxQStr
  terminated : ∀ q, u.query = some q → q.Asked → 0 ∈ u.name.written

/-- No reference of the packet leads back to itself. -/
def NoPointerCycle (payload : List UInt8) : Prop := ∀ p, ¬OnCycle (followIn payload) p

/-! ## Fewer rounds -/

section Rounds

variable {mem : ℕ → UInt8} {fuel more p : ℕ}

/-- With more rounds at least as much is read and stored. -/
theorem trace_mono (mem : ℕ → UInt8) (p : ℕ) (hle : fuel ≤ more) :
    (labels2str mem fuel p).reads ⊆ (labels2str mem more p).reads ∧
      (labels2str mem fuel p).written.length ≤ (labels2str mem more p).written.length := by
  induction fuel generalizing p more with
  | zero => exact ⟨List.nil_subset _, Nat.zero_le _⟩
  | succ fuel ih =>
    obtain ⟨more, rfl⟩ : ∃ k, more = k + 1 := ⟨more - 1, by omega⟩
    have hle' := Nat.le_of_succ_le_succ hle
    cases hkind : kindOf (mem p) with
    | pointer =>
      obtain ⟨hreads, hwritten⟩ := ih (pointerTarget (mem p) (mem (p + 1))) hle'
      rw [trace_pointer hkind, trace_pointer hkind]
      exact ⟨List.cons_subset_cons _ (List.cons_subset_cons _ hreads), hwritten⟩
    | reserved =>
      rw [trace_reserved hkind, trace_reserved hkind]
      exact ⟨List.Subset.refl _, Nat.le_refl _⟩
    | root =>
      rw [trace_root hkind, trace_root hkind]
      exact ⟨List.Subset.refl _, Nat.le_refl _⟩
    | label =>
      obtain ⟨hreads, hwritten⟩ := ih (p + 1 + (mem p).toNat) hle'
      rw [trace_label hkind, trace_label hkind]
      refine ⟨List.cons_subset_cons _ (List.append_subset.mpr
        ⟨List.subset_append_left _ _, List.subset_append_of_subset_right _ hreads⟩), ?_⟩
      simp only [List.length_append, List.length_cons]
      omega

/-- Every length byte that the walk comes by is read, and so is the second byte of a
reference. -/
theorem mem_reads_of_walk {n q : ℕ} (h : walk (follow mem) n p = some q) :
    q ∈ (labels2str mem (n + 1) p).reads ∧
      (kindOf (mem q) = .pointer → q + 1 ∈ (labels2str mem (n + 1) p).reads) := by
  induction n generalizing p with
  | zero =>
    obtain rfl : p = q := Option.some.inj h
    cases hkind : kindOf (mem p) with
    | pointer =>
      rw [trace_pointer hkind]
      exact ⟨List.mem_cons_self, fun _ => List.mem_cons_of_mem _ List.mem_cons_self⟩
    | reserved =>
      rw [trace_reserved hkind]
      exact ⟨List.mem_cons_self, by simp⟩
    | root =>
      rw [trace_root hkind]
      exact ⟨List.mem_cons_self, by simp⟩
    | label =>
      rw [trace_label hkind]
      exact ⟨List.mem_cons_self, by simp⟩
  | succ n ih =>
    obtain ⟨r, hr, hrest⟩ := Option.bind_eq_some_iff.mp h
    obtain ⟨hread, hsecond⟩ := ih hrest
    rw [follow] at hr
    cases hkind : kindOf (mem p) with
    | pointer =>
      rw [hkind] at hr
      cases hr
      rw [trace_pointer hkind]
      exact ⟨List.mem_cons_of_mem _ (List.mem_cons_of_mem _ hread), fun hptr =>
        List.mem_cons_of_mem _ (List.mem_cons_of_mem _ (hsecond hptr))⟩
    | reserved | root =>
      rw [hkind] at hr
      cases hr
    | label =>
      rw [hkind] at hr
      cases hr
      rw [trace_label hkind]
      exact ⟨List.mem_cons_of_mem _ (List.mem_append_right _ hread), fun hptr =>
        List.mem_cons_of_mem _ (List.mem_append_right _ (hsecond hptr))⟩

end Rounds

/-! ## Names of the packet -/

section Names

variable {mem : ℕ → UInt8} {payload name : List UInt8} {fuel p e : ℕ}

theorem getElem?_of_lt (hmem : Holds mem payload) (hp : p < payload.length) :
    payload[p]? = some (mem p) := by
  have hget := List.getElem?_eq_getElem hp
  rw [hget, hmem p _ hget]

theorem read_eq_take_drop (hmem : Holds mem payload) {n : ℕ} (hle : p + n ≤ payload.length) :
    read mem p n = (payload.drop p).take n := by
  apply List.ext_getElem?
  intro i
  by_cases hi : i < n
  · rw [List.getElem?_take_of_lt hi, List.getElem?_drop, getElem?_of_lt hmem (by omega),
      List.getElem?_eq_getElem (by rwa [length_read])]
    exact congrArg some (EspOpenRtos.Math.NorFlash.getElem_read _)
  · rw [List.getElem?_eq_none (by rw [length_read]; omega),
      List.getElem?_eq_none (by rw [List.length_take]; omega)]

theorem NameAt.lt (h : NameAt payload p name e) : p < payload.length := by
  cases h with
  | root hn | reserved hn | label hn | pointer hn => exact (List.getElem?_eq_some_iff.mp hn).1

/-- A name of the packet is unpacked from the packet alone. -/
theorem NameAt.trace (h : NameAt payload p name e) (hmem : Holds mem payload) :
    ∃ fuel, (labels2str mem fuel p).next = some e ∧
      (labels2str mem fuel p).written = name ∧
      ∀ a ∈ (labels2str mem fuel p).reads, a < payload.length := by
  induction h with
  | root hn hkind =>
    refine ⟨1, ?_⟩
    rw [trace_root (hmem _ _ hn ▸ hkind)]
    refine ⟨rfl, rfl, fun a ha => ?_⟩
    rw [List.mem_singleton.mp ha]
    exact (List.getElem?_eq_some_iff.mp hn).1
  | reserved hn hkind =>
    refine ⟨1, ?_⟩
    rw [trace_reserved (hmem _ _ hn ▸ hkind)]
    refine ⟨rfl, rfl, fun a ha => ?_⟩
    rw [List.mem_singleton.mp ha]
    exact (List.getElem?_eq_some_iff.mp hn).1
  | @label p e n rest hn hkind hrest ih =>
    obtain ⟨fuel, hnext, hwritten, hreads⟩ := ih
    have hbyte := hmem _ _ hn
    have hend := hrest.lt
    refine ⟨fuel + 1, ?_⟩
    rw [trace_label (hbyte ▸ hkind), hbyte]
    refine ⟨hnext, ?_, fun a ha => ?_⟩
    · dsimp only
      rw [hwritten, read_eq_take_drop hmem (by omega)]
    · rcases List.mem_cons.mp ha with rfl | ha
      · omega
      · rcases List.mem_append.mp ha with hlabel | hlater
        · have := (List.mem_range'_1.mp hlabel).2
          omega
        · exact hreads a hlater
  | @pointer p e n low rest hn hkind hlow hrest ih =>
    obtain ⟨fuel, hnext, hwritten, hreads⟩ := ih
    have hbyte := hmem _ _ hn
    refine ⟨fuel + 1, ?_⟩
    rw [trace_pointer (hbyte ▸ hkind), hbyte, hmem _ _ hlow]
    refine ⟨by dsimp only; rw [hnext, Option.map_some], hwritten, fun a ha => ?_⟩
    rcases List.mem_cons.mp ha with rfl | ha
    · exact (List.getElem?_eq_some_iff.mp hn).1
    · rcases List.mem_cons.mp ha with rfl | hlater
      · exact (List.getElem?_eq_some_iff.mp hlow).1
      · exact hreads a hlater

/-- What is unpacked from the packet alone is a name of the packet. -/
theorem nameAt_of_trace (hmem : Holds mem payload)
    (hnext : (labels2str mem fuel p).next = some e)
    (hreads : ∀ a ∈ (labels2str mem fuel p).reads, a < payload.length) :
    NameAt payload p (labels2str mem fuel p).written e := by
  induction fuel generalizing p e with
  | zero => nomatch hnext
  | succ fuel ih =>
    cases hkind : kindOf (mem p) with
    | pointer =>
      rw [trace_pointer hkind] at hnext hreads ⊢
      obtain ⟨e', he', rfl⟩ := Option.map_eq_some_iff.mp hnext
      have hfirst := hreads p List.mem_cons_self
      have hsecond := hreads (p + 1) (List.mem_cons_of_mem _ List.mem_cons_self)
      exact .pointer (getElem?_of_lt hmem hfirst) hkind (getElem?_of_lt hmem hsecond)
        (ih he' fun a ha => hreads a (List.mem_cons_of_mem _ (List.mem_cons_of_mem _ ha)))
    | reserved =>
      rw [trace_reserved hkind] at hnext hreads ⊢
      obtain rfl := Option.some.inj hnext
      exact .reserved (getElem?_of_lt hmem (hreads p List.mem_cons_self)) hkind
    | root =>
      rw [trace_root hkind] at hnext hreads ⊢
      obtain rfl := Option.some.inj hnext
      exact .root (getElem?_of_lt hmem (hreads p List.mem_cons_self)) hkind
    | label =>
      rw [trace_label hkind] at hnext hreads ⊢
      have hrest := ih hnext fun a ha =>
        hreads a (List.mem_cons_of_mem _ (List.mem_append_right _ ha))
      have hend := hrest.lt
      have hget := getElem?_of_lt hmem (hreads p List.mem_cons_self)
      dsimp only
      rw [read_eq_take_drop hmem (by omega)]
      exact .label hget hkind hrest

/-- Without cycles, a call that never reads outside the packet returns. -/
theorem walk_eq_none_of_reads (hmem : Holds mem payload) (hacyclic : NoPointerCycle payload)
    {least : ℕ} (hreads : ∀ fuel, least ≤ fuel →
      ∀ a ∈ (labels2str mem fuel p).reads, a < payload.length) :
    walk (follow mem) payload.length p = none := by
  have hinside (q : ℕ) (hq : Reaches (follow mem) p q) : Inside payload q := by
    obtain ⟨n, hn⟩ := hq
    obtain ⟨hfirst, hsecond⟩ := mem_reads_of_walk hn
    have hmore := (trace_mono mem p (Nat.le_max_right least (n + 1))).1
    have hin := hreads _ (Nat.le_max_left least (n + 1))
    exact ⟨mem q, getElem?_of_lt hmem (hin q (hmore hfirst)), fun hkind =>
      hin (q + 1) (hmore (hsecond hkind))⟩
  have hend := walk_card_eq_none (s := Finset.range payload.length)
    (fun q hq => Finset.mem_range.mpr (hinside q hq).lt) fun q hq hcycle => ?_
  · rwa [Finset.card_range] at hend
  · obtain ⟨n, hn⟩ := hcycle
    have hsame : walk (follow mem) (n + 1) q = walk (followIn payload) (n + 1) q :=
      walk_congr (fun r hr => ((hinside r (hq.trans hr)).follow_eq hmem).symm) (n + 1)
    exact hacyclic q ⟨n, hsame ▸ hn⟩

end Names

/-! ## Questions of the packet -/

section Loop

variable {mem : ℕ → UInt8} {payload : List UInt8} {count p e : ℕ}

/-- A query inside the packet is read from it. -/
theorem queryAt_eq (hmem : Holds mem payload) (hle : e + sizeofDnsQuery ≤ payload.length) :
    queryAt mem e = queryAt (fun a => payload.getD a 0) e := by
  rw [sizeofDnsQuery] at hle
  simp only [queryAt, readU16]
  rw [hmem.getD_eq (p := e) (by omega), hmem.getD_eq (p := e + 1) (by omega),
    hmem.getD_eq (p := e + 2) (by omega), hmem.getD_eq (p := e + 2 + 1) (by omega)]

/-- Questions that the packet holds are unpacked from it, after any number of rounds. -/
theorem QuestionsFit.stays (h : QuestionsFit payload count p) (hmem : Holds mem payload)
    {fuel : ℕ} {u : Unpacked} (hu : u ∈ unpackQuestions mem fuel count p) : u.Stays payload := by
  induction count generalizing p with
  | zero => cases hu
  | succ count ih =>
    obtain ⟨name, e, hname, hshort, hquery, hended, hrest⟩ := h
    obtain ⟨enough, hnext, rfl, hreads⟩ := hname.trace hmem
    rw [unpackQuestions] at hu
    cases hreturned : (labels2str mem fuel p).next with
    | none =>
      -- so far only a part of what the complete call does has been done
      have hfew : fuel ≤ enough := by
        by_contra hmore
        have hsame := trace_of_le (walk_eq_none_of_next hnext) (Nat.le_of_not_le hmore)
        rw [hsame, hnext] at hreturned
        cases hreturned
      obtain ⟨hsub, hlen⟩ := trace_mono mem p hfew
      simp only [hreturned, List.mem_singleton] at hu
      subst hu
      refine ⟨fun a ha => ?_, hlen.trans hshort, by simp⟩
      exact hreads a (hsub (by simpa [Unpacked.reads] using ha))
    | some e' =>
      have hsame := trace_unique hreturned (walk_eq_none_of_next hnext)
      obtain rfl : e = e' := by
        rw [hsame, hnext] at hreturned
        exact Option.some.inj hreturned
      simp only [hsame, hnext] at hu
      rcases List.mem_cons.mp hu with rfl | hu
      · refine ⟨fun a ha => ?_, hshort, fun q hq hasked => ?_⟩
        · rcases List.mem_append.mp ha with ha | ha
          · exact hreads a ha
          · exact (List.mem_range'_1.mp ha).2.trans_le hquery
        · obtain rfl := Option.some.inj hq
          rw [queryAt_eq hmem hquery] at hasked
          exact hended hasked
      · exact ih hrest hu

/-- If unpacking stays in the packet, the packet holds the questions. -/
theorem questionsFit_of_stays (hmem : Holds mem payload) (hacyclic : NoPointerCycle payload)
    (least : ℕ) (h : ∀ fuel, least ≤ fuel →
      ∀ u ∈ unpackQuestions mem fuel count p, u.Stays payload) :
    QuestionsFit payload count p := by
  induction count generalizing p least with
  | zero => trivial
  | succ count ih =>
    have hfirst (fuel : ℕ) (hle : least ≤ fuel) :
        ∀ a ∈ (labels2str mem fuel p).reads, a < payload.length := by
      intro a ha
      have hall := h fuel hle
      rw [unpackQuestions] at hall
      cases hnext : (labels2str mem fuel p).next with
      | none | some e =>
        simp only [hnext] at hall
        exact (hall _ List.mem_cons_self).reads a (List.mem_append_left _ ha)
    have hwalk := walk_eq_none_of_reads hmem hacyclic hfirst
    obtain ⟨e, he⟩ := exists_next_of_walk hwalk
    -- from here on the first name is complete
    have hcomplete (fuel : ℕ) (hle : max least payload.length ≤ fuel) :
        unpackQuestions mem fuel (count + 1) p =
          ⟨labels2str mem payload.length p, some (queryAt mem e)⟩ ::
            unpackQuestions mem fuel count (e + sizeofDnsQuery) := by
      rw [unpackQuestions, trace_of_le hwalk (le_of_max_le_right hle)]
      simp only [he]
    have hstays (fuel : ℕ) (hle : max least payload.length ≤ fuel) :=
      hcomplete fuel hle ▸ h fuel (le_of_max_le_left hle)
    have hthis := hstays _ (Nat.le_refl _) _ List.mem_cons_self
    have hquery : e + sizeofDnsQuery ≤ payload.length := by
      have hlast : e + 3 ∈ List.range' e sizeofDnsQuery :=
        List.mem_range'_1.mpr ⟨Nat.le_add_right e 3, Nat.lt_succ_self _⟩
      exact hthis.reads (e + 3) (List.mem_append_right _ hlast)
    refine ⟨_, e, nameAt_of_trace hmem he fun a ha => ?_, hthis.written, hquery,
      fun hasked => ?_, ih (max least payload.length) fun fuel hle u hu => ?_⟩
    · exact hthis.reads a (List.mem_append_left _ ha)
    · rw [← queryAt_eq hmem hquery] at hasked
      exact hthis.terminated _ rfl hasked
    · exact hstays fuel hle u (List.mem_cons_of_mem _ hu)

end Loop

/-- Without cycles of references, unpacking the declared questions stays inside the packet
and the buffer, and hands on terminated strings only, exactly if the packet is dropped or
holds these questions. -/
theorem question_loop_stays_iff (payload : List UInt8) (hacyclic : NoPointerCycle payload)
    (mem : ℕ → UInt8) (hmem : Holds mem payload) :
    (∀ fuel, ∀ u ∈ recvQuestions payload mem fuel, u.Stays payload) ↔
      (Accepted payload → QuestionsFit payload (declaredQuestions payload) sizeofDnsHdr) := by
  by_cases haccepted : Accepted payload
  · have hpasses := (passes_iff hmem).mpr haccepted
    have hcount := nquestions_eq hmem haccepted.2.1
    simp only [recvQuestions, if_pos hpasses, questionLoop, hcount]
    exact ⟨fun hstays _ => questionsFit_of_stays hmem hacyclic 0 fun fuel _ => hstays fuel,
      fun hfit fuel u hu => (hfit haccepted).stays hmem hu⟩
  · have hdropped (hpasses : Passes payload mem) : False := haccepted ((passes_iff hmem).mp hpasses)
    simp only [recvQuestions, if_neg hdropped]
    exact ⟨fun _ h => absurd h haccepted, fun _ _ u hu => by cases hu⟩

/-- A packet whose names lead forward only has no cycle. -/
theorem noPointerCycle_of_forward {payload : List UInt8}
    (h : ∀ p < payload.length, (followIn payload p).all (p < ·)) : NoPointerCycle payload := by
  have hstep {p q : ℕ} (hq : followIn payload p = some q) : p < q := by
    obtain ⟨n, hn, -⟩ := Option.bind_eq_some_iff.mp hq
    have := h p (List.getElem?_eq_some_iff.mp hn).1
    rw [hq] at this
    exact of_decide_eq_true this
  have hwalk (n : ℕ) {p q : ℕ} (hq : walk (followIn payload) n p = some q) : p ≤ q := by
    induction n generalizing p with
    | zero => exact (Option.some.inj hq).le
    | succ n ih =>
      obtain ⟨r, hr, hrest⟩ := Option.bind_eq_some_iff.mp hq
      exact (hstep hr).le.trans (ih hrest)
  rintro p ⟨n, hn⟩
  obtain ⟨r, hr, hrest⟩ := Option.bind_eq_some_iff.mp hn
  exact absurd (hstep hr) (Nat.not_lt.mpr (hwalk n hrest))

/-- The question for the root stays in its packet. -/
theorem question_loop_stays_root :
    Accepted (oneQuestion 0 0) ∧ NoPointerCycle (oneQuestion 0 0) ∧
      ∀ fuel, ∀ u ∈ recvQuestions (oneQuestion 0 0) (fun a => (oneQuestion 0 0).getD a 0) fuel,
        u.Stays (oneQuestion 0 0) := by
  have hacyclic : NoPointerCycle (oneQuestion 0 0) := noPointerCycle_of_forward (by decide)
  refine ⟨by decide, hacyclic, (question_loop_stays_iff _ hacyclic _ (holds_getD _ 0)).mpr fun _ => ?_⟩
  exact ⟨[0], 13, .root rfl rfl, by decide, by decide, fun _ => List.mem_cons_self, trivial⟩

/-- A label that is longer than the rest of the packet is copied all the same. -/
theorem long_label_leaves_packet :
    Accepted (oneQuestion 63 0) ∧ NoPointerCycle (oneQuestion 63 0) ∧
      ¬∀ fuel, ∀ u ∈ recvQuestions (oneQuestion 63 0) (fun a => (oneQuestion 63 0).getD a 0) fuel,
        u.Stays (oneQuestion 63 0) := by
  have haccepted : Accepted (oneQuestion 63 0) := by decide
  refine ⟨haccepted, noPointerCycle_of_forward (by decide), fun hstays => ?_⟩
  have hone := hstays 1
  rw [recvQuestions, if_pos ((passes_iff (holds_getD _ 0)).mpr haccepted)] at hone
  have hfirst := (hone _ List.mem_cons_self).reads 28 (by decide)
  exact absurd hfirst (by decide)

end EspOpenRtos.MdnsResponder
