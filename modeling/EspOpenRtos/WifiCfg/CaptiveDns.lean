/-
# The name server of the access point

While the access point is up, every name resolves to it. `dns_task` receives a query into a
buffer and makes the reply in place: it writes a header, keeps the name, and puts a fixed
question and answer behind it. The buffer keeps what earlier datagrams left in it.

The end of the name is where the first NUL is. A datagram need not have one, and then the
name ends in old content or not at all. In a well-formed query the first NUL ends the name,
unless a label has one.
-/

import EspOpenRtos.Math.Buffers
import EspOpenRtos.Math.DnsMessages

namespace EspOpenRtos.WifiCfg

open Math.Buffers Math.CStrings Math.DnsMessages

/-! ## The task -/

/-- The size of the buffer. -/
def dnsBufferSize : ℕ := 96

/-- `ip4_addr_t`, with its bytes in the order of the network. -/
structure Ip4Addr where
  addr1 : UInt8
  addr2 : UInt8
  addr3 : UInt8
  addr4 : UInt8

/-- What is written over the header of the query, behind its id. -/
def replyHead : List UInt8 :=
  [0x80, 0x00, 0x00, 0x01, 0x00, 0x01, 0x00, 0x00, 0x00, 0x00]

/-- What is written behind the name. -/
def replyTail (addr : Ip4Addr) : List UInt8 :=
  [0x00, 0x01, 0x00, 0x01, 0xC0, 0x0C, 0x00, 0x01, 0x00, 0x01, 0x00, 0x00, 0x00, 0x78, 0x00, 0x04,
    addr.addr1, addr.addr2, addr.addr3, addr.addr4]

/-- The buffer after `recvfrom`, which cuts what is too long. -/
def received (buf datagram : List UInt8) : List UInt8 :=
  datagram.take dnsBufferSize ++ buf.drop datagram.length

/-- The reply made in the buffer, and the bytes that are sent. -/
def dnsReply (addr : Ip4Addr) (buf : List UInt8) : Option (List UInt8 × List UInt8) := do
  let nameLen ← strlen (buf.drop 12)
  let qnameLen := nameLen + 1
  let replyLen := 2 + 10 + qnameLen + 16 + 4
  let buf ← put buf 2 replyHead
  let buf ← put buf (12 + qnameLen) (replyTail addr)
  let sent ← slice buf 0 replyLen
  return (buf, sent)

/-- A datagram of this size is answered. -/
def Answered (datagram : List UInt8) : Prop :=
  0 < datagram.length ∧ datagram.length ≤ dnsBufferSize - 16

instance (datagram : List UInt8) : Decidable (Answered datagram) :=
  inferInstanceAs (Decidable (_ ∧ _))

/-- One round of `dns_task`: what `recvfrom` gives, `none` for an error. The result is `none`
when a byte outside the buffer is touched. -/
def dnsRound (addr : Ip4Addr) (buf : List UInt8) :
    Option (List UInt8) → Option (List UInt8 × List (List UInt8))
  | none => some (buf, [])
  | some datagram =>
    if Answered datagram then
      (dnsReply addr (received buf datagram)).map fun done => (done.1, [done.2])
    else some (received buf datagram, [])

/-- `dns_task` on a sequence of datagrams, with the replies that it sends. -/
def dnsTask (addr : Ip4Addr) (buf : List UInt8) :
    List (Option (List UInt8)) → Option (List UInt8 × List (List UInt8))
  | [] => some (buf, [])
  | datagram :: datagrams => do
      let (buf, sent) ← dnsRound addr buf datagram
      let (buf, later) ← dnsTask addr buf datagrams
      return (buf, sent ++ later)

/-- The reply that a query should get. The answer refers to the name in the question. -/
def expectedReply (id : UInt16) (name : List (List UInt8)) (addr : Ip4Addr) : List UInt8 :=
  bytes16 id ++ (bytes16 0x8000 ++ (bytes16 1 ++ (bytes16 1 ++ (bytes16 0 ++ (bytes16 0 ++
    ((Question.mk name 1 1).encode ++ ([0xC0, 0x0C] ++ (bytes16 1 ++ (bytes16 1 ++ (bytes32 120 ++
      (bytes16 4 ++ [addr.addr1, addr.addr2, addr.addr3, addr.addr4])))))))))))

/-! ## Inside the buffer -/

/-- There is a NUL that leaves room for the reply when it ends the name. -/
def NameEnds (buf : List UInt8) : Prop := ∃ i, 12 ≤ i ∧ i ≤ 75 ∧ buf[i]? = some 0

section Inside

variable {addr : Ip4Addr} {buf : List UInt8}

theorem length_received (h : buf.length = dnsBufferSize) (datagram : List UInt8) :
    (received buf datagram).length = dnsBufferSize := by
  rw [received, List.length_append, List.length_take, List.length_drop, h]
  omega

theorem length_replyHead : replyHead.length = 10 := rfl

theorem length_replyTail : (replyTail addr).length = 20 := rfl

/-- The reply for a name that ends early enough. -/
theorem dnsReply_eq {id old name rest : List UInt8} (hid : id.length = 2) (hold : old.length = 10)
    (hname : (0 : UInt8) ∉ name) (hroom : 20 ≤ rest.length) :
    dnsReply addr (id ++ (old ++ (name ++ 0 :: rest))) =
      some (id ++ replyHead ++ name ++ [0] ++ replyTail addr ++ rest.drop 20,
        id ++ replyHead ++ name ++ [0] ++ replyTail addr) := by
  have hdrop : (id ++ (old ++ (name ++ 0 :: rest))).drop 12 = name ++ 0 :: rest := by
    rw [← List.append_assoc, List.drop_left' (by rw [List.length_append, hid, hold])]
  have hhead : put (id ++ (old ++ (name ++ 0 :: rest))) 2 replyHead =
      some (id ++ replyHead ++ (name ++ 0 :: rest)) := by
    rw [← hid, put_behind id (by rw [length_replyHead, List.length_append]; omega),
      length_replyHead, List.drop_left' hold]
  have hfront : (id ++ replyHead ++ name ++ [0]).length = 12 + (name.length + 1) := by
    simp only [List.length_append, hid, length_replyHead, List.length_singleton]
    omega
  have htail : put (id ++ replyHead ++ name ++ [0] ++ rest) (12 + (name.length + 1))
        (replyTail addr) =
      some (id ++ replyHead ++ name ++ [0] ++ replyTail addr ++ rest.drop 20) := by
    rw [← hfront]
    exact put_behind _ hroom
  have hsent : slice (id ++ replyHead ++ name ++ [0] ++ replyTail addr ++ rest.drop 20) 0
      (2 + 10 + (name.length + 1) + 16 + 4) =
        some (id ++ replyHead ++ name ++ [0] ++ replyTail addr) := by
    have hlen : (id ++ replyHead ++ name ++ [0] ++ replyTail addr).length =
        2 + 10 + (name.length + 1) + 16 + 4 := by
      rewrite [List.length_append, hfront, length_replyTail]
      omega
    rw [← hlen]
    exact slice_middle [] _
  unfold dnsReply
  rw [hdrop, strlen_append_nul hname]
  simp only [Option.bind_eq_bind, Option.bind_some, hhead]
  rw [List.append_cons name, ← List.append_assoc (id ++ replyHead), ← List.append_assoc, htail]
  simp only [Option.bind_some, hsent]
  rfl

theorem dnsReply_eq_some {buf' sent : List UInt8} (h : dnsReply addr buf = some (buf', sent)) :
    ∃ nameLen, strlen (buf.drop 12) = some nameLen ∧ buf'.length = buf.length ∧
      12 + (nameLen + 1) + 20 ≤ buf.length := by
  unfold dnsReply at h
  simp only [Option.bind_eq_bind, Option.bind_eq_some_iff] at h
  obtain ⟨nameLen, hname, buf₁, hput₁, buf₂, hput₂, sent', hsent, hdone⟩ := h
  have hlen := (length_of_put hput₂).trans (length_of_put hput₁)
  obtain ⟨rfl, rfl⟩ := Prod.mk.inj (Option.some.inj hdone)
  refine ⟨nameLen, hname, hlen, ?_⟩
  rw [← length_of_put hput₁]
  by_contra hlt
  rw [put, if_neg (by rw [length_replyTail]; omega)] at hput₂
  cases hput₂

/-- Where the reply ends is decided by the first NUL behind the header. -/
theorem dnsReply_ne_none_iff (addr : Ip4Addr) (h : buf.length = dnsBufferSize) :
    dnsReply addr buf ≠ none ↔ NameEnds buf := by
  constructor
  · intro hreply
    obtain ⟨done, hdone⟩ := Option.ne_none_iff_exists'.mp hreply
    obtain ⟨nameLen, hname, -, hroom⟩ := dnsReply_eq_some hdone
    have hmem : (0 : UInt8) ∈ buf.drop 12 := by
      by_contra hnot
      rw [strlen, if_neg hnot] at hname
      cases hname
    rw [strlen_of_mem hmem] at hname
    obtain rfl := Option.some.inj hname
    rw [h, dnsBufferSize] at hroom
    refine ⟨12 + (cstr (buf.drop 12)).length, by omega, by omega, ?_⟩
    rw [← List.getElem?_drop]
    exact getElem?_length_cstr hmem
  · rintro ⟨i, hlow, hhigh, hnul⟩
    have hat : (buf.drop 12)[i - 12]? = some 0 := by
      rw [List.getElem?_drop, show 12 + (i - 12) = i by omega, hnul]
    obtain ⟨rest, hrest⟩ := exists_eq_cstr_append (List.mem_of_getElem? hat)
    have hfirst : (cstr (buf.drop 12)).length ≤ i - 12 := by
      by_contra hlt
      rw [hrest, List.getElem?_append_left (by omega)] at hat
      exact not_mem_cstr _ (List.mem_of_getElem? hat)
    have hsplit : buf =
        buf.take 2 ++ ((buf.drop 2).take 10 ++ (cstr (buf.drop 12) ++ 0 :: rest)) := by
      rw [← hrest, show buf.drop 12 = (buf.drop 2).drop 10 by rw [List.drop_drop],
        List.take_append_drop, List.take_append_drop]
    have hlen := congrArg List.length hrest
    rw [List.length_drop, List.length_append, List.length_cons, h, dnsBufferSize] at hlen
    rw [hsplit, dnsReply_eq]
    · simp
    · rw [List.length_take, h]
      rfl
    · rw [List.length_take, List.length_drop, h]
      rfl
    · exact not_mem_cstr _
    · omega

theorem dnsRound_ne_none_iff (addr : Ip4Addr) (h : buf.length = dnsBufferSize)
    (d : Option (List UInt8)) :
    dnsRound addr buf d ≠ none ↔
      ∀ datagram, d = some datagram → Answered datagram → NameEnds (received buf datagram) := by
  cases d with
  | none => simp [dnsRound]
  | some datagram =>
    have hreply := dnsReply_ne_none_iff addr (length_received h datagram)
    rw [dnsRound]
    split
    · next hanswered => simpa [hanswered] using hreply
    · next hanswered => simp [hanswered]

theorem length_dnsRound (h : buf.length = dnsBufferSize) {d : Option (List UInt8)}
    {buf' : List UInt8} {sent : List (List UInt8)}
    (hround : dnsRound addr buf d = some (buf', sent)) :
    buf'.length = dnsBufferSize := by
  cases d with
  | none =>
    obtain ⟨rfl, -⟩ := Prod.mk.inj (Option.some.inj hround)
    exact h
  | some datagram =>
    rw [dnsRound] at hround
    split at hround
    · obtain ⟨done, hdone, hmap⟩ := Option.map_eq_some_iff.mp hround
      obtain ⟨rfl, -⟩ := Prod.mk.inj hmap
      obtain ⟨-, -, hlen, -⟩ := dnsReply_eq_some hdone
      rw [hlen, length_received h]
    · obtain ⟨rfl, -⟩ := Prod.mk.inj (Option.some.inj hround)
      exact length_received h datagram

theorem dnsTask_cons (d : Option (List UInt8)) (datagrams : List (Option (List UInt8))) :
    dnsTask addr buf (d :: datagrams) = (dnsRound addr buf d).bind fun round =>
      (dnsTask addr round.1 datagrams).map fun later => (later.1, round.2 ++ later.2) := by
  rw [dnsTask]
  cases dnsRound addr buf d with
  | none => rfl
  | some round => cases hlater : dnsTask addr round.1 datagrams <;> simp [hlater]

/-- The buffer is left when an answered datagram leaves no NUL where a name may end. -/
theorem dnsTask_ne_none_iff (h : buf.length = dnsBufferSize)
    (datagrams : List (Option (List UInt8))) :
    dnsTask addr buf datagrams ≠ none ↔
      ∀ before datagram after buf' sent, datagrams = before ++ some datagram :: after →
        dnsTask addr buf before = some (buf', sent) → Answered datagram →
        NameEnds (received buf' datagram) := by
  induction datagrams generalizing buf with
  | nil => simp [dnsTask]
  | cons d datagrams ih =>
    constructor
    · intro htask before datagram after buf' sent hsplit hbefore hanswered
      rw [dnsTask_cons] at htask
      cases hround : dnsRound addr buf d with
      | none => simp [hround] at htask
      | some round =>
        have hlater : dnsTask addr round.1 datagrams ≠ none := by simpa [hround] using htask
        cases before with
        | nil =>
          obtain ⟨rfl, -⟩ := List.cons.inj hsplit
          obtain ⟨rfl, -⟩ := Prod.mk.inj (Option.some.inj hbefore)
          exact (dnsRound_ne_none_iff addr h _).mp (by simp [hround]) datagram rfl hanswered
        | cons d' before =>
          obtain ⟨rfl, hrest⟩ := List.cons.inj hsplit
          rw [dnsTask_cons, hround, Option.bind_some] at hbefore
          obtain ⟨later, hdone, hmap⟩ := Option.map_eq_some_iff.mp hbefore
          obtain ⟨rfl, -⟩ := Prod.mk.inj hmap
          exact (ih (length_dnsRound h hround)).mp hlater before datagram after _ _ hrest
            hdone hanswered
    · intro hends
      have hround : dnsRound addr buf d ≠ none := (dnsRound_ne_none_iff addr h d).mpr
        fun datagram hd => hends [] datagram datagrams buf [] (by rw [hd]; rfl) rfl
      obtain ⟨round, hround⟩ := Option.ne_none_iff_exists'.mp hround
      have hlater : dnsTask addr round.1 datagrams ≠ none := by
        refine (ih (length_dnsRound h hround)).mpr ?_
        intro before datagram after buf' sent hsplit hbefore
        refine hends (d :: before) datagram after buf' (round.2 ++ sent) (by rw [hsplit]; rfl) ?_
        rw [dnsTask_cons, hround, Option.bind_some, hbefore]
        rfl
      rw [dnsTask_cons, hround, Option.bind_some]
      simpa using hlater

theorem length_dnsTask (h : buf.length = dnsBufferSize) {datagrams : List (Option (List UInt8))}
    {buf' : List UInt8} {replies : List (List UInt8)}
    (htask : dnsTask addr buf datagrams = some (buf', replies)) : buf'.length = dnsBufferSize := by
  induction datagrams generalizing buf replies with
  | nil =>
    obtain ⟨rfl, -⟩ := Prod.mk.inj (Option.some.inj htask)
    exact h
  | cons d datagrams ih =>
    rw [dnsTask_cons] at htask
    obtain ⟨round, hround, hlater⟩ := Option.bind_eq_some_iff.mp htask
    obtain ⟨later, hdone, hmap⟩ := Option.map_eq_some_iff.mp hlater
    obtain ⟨rfl, -⟩ := Prod.mk.inj hmap
    exact ih (length_dnsRound h hround) hdone

/-- One more datagram. -/
theorem dnsTask_append {datagrams : List (Option (List UInt8))} {buf' : List UInt8}
    {replies : List (List UInt8)} (htask : dnsTask addr buf datagrams = some (buf', replies))
    (d : Option (List UInt8)) :
    dnsTask addr buf (datagrams ++ [d]) =
      (dnsRound addr buf' d).map fun round => (round.1, replies ++ round.2) := by
  induction datagrams generalizing buf replies with
  | nil =>
    obtain ⟨rfl, rfl⟩ := Prod.mk.inj (Option.some.inj htask)
    rw [List.nil_append, dnsTask_cons]
    cases dnsRound addr buf d <;> simp [dnsTask]
  | cons d' datagrams ih =>
    rw [dnsTask_cons] at htask
    obtain ⟨round, hround, hlater⟩ := Option.bind_eq_some_iff.mp htask
    obtain ⟨later, hdone, hmap⟩ := Option.map_eq_some_iff.mp hlater
    obtain ⟨rfl, rfl⟩ := Prod.mk.inj hmap
    rw [List.cons_append, dnsTask_cons, hround, Option.bind_some, ih hdone, Option.map_map]
    simp [Function.comp_def]

end Inside

/-! ## Well-formed queries -/

section Queries

variable {addr : Ip4Addr} {labels : List (List UInt8)}

theorem lengthByte_ne_zero {l : List UInt8} (h : ValidName (l :: labels)) :
    UInt8.ofNat l.length ≠ 0 := by
  obtain ⟨hpos, hlt⟩ := h l List.mem_cons_self
  intro hzero
  have hnat := congrArg UInt8.toNat hzero
  rw [UInt8.toNat_ofNat', Nat.mod_eq_of_lt (by omega)] at hnat
  exact hpos.ne' hnat

/-- The name of a query ends at its first NUL if no label has one. -/
theorem encodeName_split (h : ValidName labels) (hnul : ∀ l ∈ labels, (0 : UInt8) ∉ l) :
    ∃ name, encodeName labels = name ++ [0] ∧ (0 : UInt8) ∉ name := by
  induction labels with
  | nil => exact ⟨[], rfl, List.not_mem_nil⟩
  | cons l labels ih =>
    obtain ⟨name, hname, hnot⟩ := ih (fun l hl => h l (List.mem_cons_of_mem _ hl))
      fun l hl => hnul l (List.mem_cons_of_mem _ hl)
    refine ⟨UInt8.ofNat l.length :: l ++ name, ?_, ?_⟩
    · rw [encodeName, hname, List.append_assoc]
    · simp only [List.cons_append, List.mem_cons, List.mem_append, not_or]
      exact ⟨(lengthByte_ne_zero h).symm, hnul l List.mem_cons_self, hnot⟩

/-- Otherwise the first NUL comes before its end. -/
theorem encodeName_cut (h : ValidName labels) (hnul : ∃ l ∈ labels, (0 : UInt8) ∈ l) :
    ∃ name more, encodeName labels = name ++ 0 :: more ∧ (0 : UInt8) ∉ name ∧ more ≠ [] := by
  induction labels with
  | nil => simp at hnul
  | cons l labels ih =>
    by_cases hl : (0 : UInt8) ∈ l
    · obtain ⟨front, behind, rfl, hfront⟩ := List.eq_append_cons_of_mem hl
      refine ⟨UInt8.ofNat (front ++ 0 :: behind).length :: front, behind ++ encodeName labels,
        ?_, ?_, ?_⟩
      · rw [encodeName]
        simp
      · rw [List.mem_cons, not_or]
        exact ⟨(lengthByte_ne_zero h).symm, hfront⟩
      · cases labels <;> simp [encodeName]
    · obtain ⟨l', hl', hmem⟩ := hnul
      have hother : l' ∈ labels := by
        rcases List.mem_cons.mp hl' with rfl | hl'
        · exact absurd hmem hl
        · exact hl'
      obtain ⟨name, more, hname, hnot, hmore⟩ :=
        ih (fun l hl => h l (List.mem_cons_of_mem _ hl)) ⟨l', hother, hmem⟩
      refine ⟨UInt8.ofNat l.length :: l ++ name, more, ?_, ?_, hmore⟩
      · rw [encodeName, hname, List.append_assoc]
      · simp only [List.cons_append, List.mem_cons, List.mem_append, not_or]
        exact ⟨(lengthByte_ne_zero h).symm, hl, hnot⟩

/-- The parts of a query that the task looks at. -/
theorem encode_query {m : Message} {q : Question} (hq : m.questions = [q]) :
    ∃ old rest, m.encode = bytes16 m.id ++ (old ++ (encodeName q.name ++ rest)) ∧
      old.length = 10 ∧ 4 ≤ rest.length := by
  refine ⟨[m.flags1] ++ ([m.flags2] ++ (bytes16 (count m.questions) ++ (bytes16 (count m.answers) ++
      (bytes16 (count m.authority) ++ bytes16 (count m.additional))))),
    bytes16 q.type ++ bytes16 q.cls ++ (m.answers.flatMap Record.encode ++
      (m.authority.flatMap Record.encode ++ m.additional.flatMap Record.encode)), ?_, rfl, ?_⟩
  · rw [Message.encode, hq, List.flatMap_singleton, Question.encode]
    simp only [List.append_assoc]
  · rw [List.length_append]
    exact Nat.le_add_right 4 _

theorem length_expectedReply (id : UInt16) (name : List (List UInt8)) :
    (expectedReply id name addr).length = 32 + (encodeName name).length := by
  simp only [expectedReply, Question.encode, bytes16, bytes32, List.length_append, List.length_cons,
    List.length_nil]
  omega

/-- A query whose name ends at its first NUL gets the right reply, and no other query. -/
theorem dnsRound_query {m : Message} {q : Question} (addr : Ip4Addr) {buf : List UInt8}
    (h : buf.length = dnsBufferSize) (hvalid : m.Valid) (hq : m.questions = [q])
    (hsize : m.encode.length ≤ 80) :
    ∃ buf' sent, dnsRound addr buf (some m.encode) = some (buf', [sent]) ∧
      (sent = expectedReply m.id q.name addr ↔ ∀ l ∈ q.name, (0 : UInt8) ∉ l) := by
  obtain ⟨old, rest, hm, hold, hrest⟩ := encode_query hq
  have hname : ValidName q.name := hvalid.questions.2 q (by rw [hq]; exact List.mem_cons_self)
  have hlen := congrArg List.length hm
  simp only [List.length_append, hold] at hlen
  have hid : (bytes16 m.id).length = 2 := rfl
  have hbuf : received buf m.encode = m.encode ++ buf.drop m.encode.length := by
    rw [received, List.take_of_length_le (hsize.trans (by decide))]
  have hround : dnsRound addr buf (some m.encode) =
      (dnsReply addr (received buf m.encode)).map fun done => (done.1, [done.2]) :=
    if_pos ⟨by omega, hsize⟩
  -- the reply ends the name where the first NUL is
  have hreply {name more : List UInt8} (hsplit : encodeName q.name = name ++ 0 :: more)
      (hnul : (0 : UInt8) ∉ name) : ∃ buf', dnsRound addr buf (some m.encode) =
        some (buf', [bytes16 m.id ++ replyHead ++ name ++ [0] ++ replyTail addr]) := by
    have hnameLen := congrArg List.length hsplit
    rw [List.length_append, List.length_cons] at hnameLen
    have hroom : 20 ≤ (more ++ (rest ++ buf.drop m.encode.length)).length := by
      rw [List.length_append, List.length_append, List.length_drop, h, dnsBufferSize]
      omega
    have hshape : received buf m.encode = bytes16 m.id ++ (old ++
        (name ++ 0 :: (more ++ (rest ++ buf.drop m.encode.length)))) := by
      rw [hbuf]
      generalize buf.drop m.encode.length = tail
      rw [hm, hsplit]
      simp
    rw [hround, hshape, dnsReply_eq hid hold hnul hroom]
    exact ⟨_, rfl⟩
  by_cases hnul : ∀ l ∈ q.name, (0 : UInt8) ∉ l
  · obtain ⟨name, hsplit, hnot⟩ := encodeName_split hname hnul
    obtain ⟨buf', hdone⟩ := hreply hsplit hnot
    refine ⟨buf', _, hdone, iff_of_true ?_ hnul⟩
    rw [expectedReply, Question.encode, hsplit]
    simp only [List.append_assoc]
    rfl
  · have hcut : ∃ l ∈ q.name, (0 : UInt8) ∈ l := by simpa using hnul
    obtain ⟨name, more, hsplit, hnot, hmore⟩ := encodeName_cut hname hcut
    obtain ⟨buf', hdone⟩ := hreply hsplit hnot
    refine ⟨buf', _, hdone, iff_of_false (fun heq => ?_) hnul⟩
    have hlong := congrArg List.length heq
    have hpos := List.length_pos_of_ne_nil hmore
    rw [length_expectedReply, hsplit] at hlong
    simp only [List.length_append, List.length_cons, List.length_nil, hid, length_replyHead,
      length_replyTail] at hlong
    omega

/-- The task stays inside its buffer as long as each datagram that it answers leaves a NUL
where a name may end; and it answers a well-formed query as it should if no label of the
name has a NUL. -/
theorem dns_task_replies (addr : Ip4Addr) (buf : List UInt8) (h : buf.length = dnsBufferSize)
    (datagrams : List (Option (List UInt8))) :
    (dnsTask addr buf datagrams ≠ none ↔
      ∀ before datagram after buf' sent, datagrams = before ++ some datagram :: after →
        dnsTask addr buf before = some (buf', sent) → Answered datagram →
        NameEnds (received buf' datagram)) ∧
    ∀ buf' replies, dnsTask addr buf datagrams = some (buf', replies) →
      ∀ (m : Message) (q : Question), m.Valid → m.questions = [q] → m.encode.length ≤ 80 →
        ∃ sent, (dnsTask addr buf (datagrams ++ [some m.encode])).map Prod.snd =
            some (replies ++ [sent]) ∧
          (sent = expectedReply m.id q.name addr ↔ ∀ l ∈ q.name, (0 : UInt8) ∉ l) := by
  refine ⟨dnsTask_ne_none_iff h datagrams, ?_⟩
  intro buf' replies htask m q hvalid hq hsize
  obtain ⟨buf'', sent, hround, hsent⟩ :=
    dnsRound_query addr (length_dnsTask h htask) hvalid hq hsize
  refine ⟨sent, ?_, hsent⟩
  rw [dnsTask_append htask, hround]
  rfl

end Queries

/-! ## Two runs -/

/-- A query for the name `a`. -/
def queryA : Message := ⟨7, 0x01, 0x00, [⟨[[0x61]], 1, 1⟩], [], [], []⟩

def gatewayAddr : Ip4Addr := ⟨172, 16, 0, 1⟩

theorem dns_task_replies_queryA : queryA.encode.length = 19 ∧
    (dnsTask gatewayAddr (List.replicate 96 0) [none, some queryA.encode]).map Prod.snd =
      some [expectedReply 7 [[0x61]] gatewayAddr] := by
  refine ⟨by decide, ?_⟩
  obtain ⟨-, hquery⟩ := dns_task_replies gatewayAddr (List.replicate 96 0) (by decide) [none]
  have hvalid : queryA.Valid := ⟨by decide, by simp [queryA], by simp [queryA], by simp [queryA]⟩
  obtain ⟨sent, hdone, hsent⟩ := hquery (List.replicate 96 0) [] (by decide) queryA
    ⟨[[0x61]], 1, 1⟩ hvalid rfl (by decide)
  rw [hsent.mpr (by decide)] at hdone
  exact hdone

/-- A datagram of 80 bytes without a NUL, in a buffer that is full of them. -/
theorem dns_task_leaves_buffer : (List.replicate 96 (0 : UInt8)).length = dnsBufferSize ∧
    Answered (List.replicate 80 0xFF) ∧
    dnsTask gatewayAddr (List.replicate 96 0) [some (List.replicate 80 0xFF)] = none := by
  decide +kernel

end EspOpenRtos.WifiCfg
