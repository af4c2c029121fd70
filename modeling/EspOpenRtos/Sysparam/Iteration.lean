/-
# Iterating

A caller goes through the map by calling `sysparam_iter_next` until it does not
succeed. What it gets is the pairs of the log, in order.
-/

import EspOpenRtos.Sysparam.CompactSpec

namespace EspOpenRtos.Sysparam

open Math.KeyedLog

/-- What a call of the iterator gives its caller: the status and, on success, the
key, the value and the binary flag. -/
abbrev IterResult := Status × Option (List UInt8 × List UInt8 × Bool)

/-- The results of at most `n` calls, up to the first that does not succeed. -/
def iterResults (d : Device) : ℕ → Info → Iter → List IterResult
  | 0, _, _ => []
  | n + 1, info, iter =>
    match iterNext d info iter with
    | (.ok, iter, info) =>
      (.ok, some (iter.key, iter.value, iter.binary)) :: iterResults d n info iter
    | (status, _, _) => [(status, none)]

/-- The results of at most `n` calls after `sysparam_iter_start`. -/
def iterate (s : Sys) (n : ℕ) : List IterResult :=
  match iterStart s.info with
  | (.ok, iter) => iterResults s.dev n s.info iter
  | (status, _) => [(status, none)]

/-- The results that go with a list of pairs. -/
def iterAnswers : ℕ → List (ℕ × Payload × Content) → List IterResult
  | 0, _ => []
  | _ + 1, [] => [(.notFound, none)]
  | n + 1, (_, name, content) :: ps =>
    (.ok, some (name.1, content.1.1, content.2)) :: iterAnswers n ps

section Iterate

variable {d : Device} {info info' : Info} {iter iter' : Iter} {hi B : ℕ} {P R : List Entry}

theorem iterResults_congr (h : iterNext d info iter = iterNext d info' iter') (n : ℕ) :
    iterResults d n info iter = iterResults d n info' iter' := by
  cases n with
  | zero => rfl
  | succ n => rw [iterResults, iterResults, h]

/-- The iterator delivers the pairs of what it still has to walk over. -/
theorem Region.iterResults_eq (h : Region d info hi (P ++ R)) (hafter : iter.ctx.After info P)
    (hroom : info.top + 3 + B ≤ hi) (hbuf : iter.bufsize ≤ B)
    (hpairs : pairsSize itemSize (pairs (items R)) ≤ B) (n : ℕ) :
    iterResults d n info iter = iterAnswers n (pairs (items R)) := by
  induction R generalizing P info iter n with
  | nil =>
    rw [List.append_nil] at h
    obtain ⟨ctx, info', -, hend⟩ := h.iterNext_end hafter
    cases n with
    | zero => rfl
    | succ n =>
      rw [iterResults, hend]
      rfl
  | cons x R ih =>
    have hregion := h
    rw [List.append_cons] at hregion
    rcases h.iterNext_cases hafter with
      ⟨hsame, info', hflag, hnext⟩ | ⟨id, name, content, rest, hkey, hid, hvalues, hcons⟩
    · rw [hsame] at hpairs ⊢
      rw [iterResults_congr hnext]
      refine ih (hregion.of_flag hflag) ?_ ?_ ?_ hpairs n
      · exact (Region.visit_after hafter).of_flag hflag
      · rcases hflag with rfl | rfl <;> exact hroom
      · exact hbuf
    · rw [hcons, pairsSize, List.map_cons, List.sum_cons] at hpairs
      have hpair : name.1.length + content.1.1.length + 2 ≤ B := by
        simp only [itemSize, entrySize, entryHeaderSize] at hpairs
        omega
      obtain ⟨bufsize, hbuf', hnext⟩ := h.iterNext_pair hafter hkey hid hvalues hroom hbuf hpair
      rw [hcons]
      cases n with
      | zero => rfl
      | succ n =>
        rw [iterResults, hnext, iterAnswers]
        exact congrArg _ (ih hregion (Region.visit_after hafter) hroom hbuf'
          (le_trans (Nat.le_add_left _ _) hpairs) n)

end Iterate

/-- Iterating over an opened store gives the pairs of its log. -/
theorem Opened.iterate {a : Area} {s : Sys} {second : Bool} {I : Items} (h : Opened a s second I)
    (hsealed : Sealed a s.dev.bytes second I) (n : ℕ) :
    iterate s n = iterAnswers n (pairs I) := by
  obtain ⟨L, T, rfl, -, hregion, hdead, -⟩ := h.region hsealed
  have hpairs : pairs (items (L ++ T)) = pairs (items L) := by
    rw [items_append, pairs_append_dead hdead]
  have hbase := h.curBase_ne
  have hsize := a.size_pos
  have htop := a.region_add_size_le second
  have hlog := h.holds.logSize_le
  have hle := pairsSize_le (w := itemSize) h.holds.inv.nodup_ids
  change _ ≤ logSize (items L) at hle
  simp only [Sysparam.iterate, iterStart, if_neg hbase]
  rw [← hpairs]
  refine Region.iterResults_eq (P := []) (B := a.size + 61) hregion hregion.init_after ?_ ?_ ?_ n
  · rw [Info.top, h.curBase, h.regionSize, Area.limit]
    omega
  · change 64 ≤ a.size + 61
    omega
  · change pairsSize itemSize (pairs (items (L ++ T))) ≤ a.size + 61
    rw [hpairs]
    omega

end EspOpenRtos.Sysparam
