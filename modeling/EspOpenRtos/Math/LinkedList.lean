/-
# Singly linked lists in memory

Every node holds a link: to another node, to the end of the list, or the mark of
a node that is in no list. `nextIn` gives the links a list of distinct nodes
needs; whoever inserts or removes one node has to rewrite the link of that node
and of the node before it, and of no other. A walk that follows links stops at
the node a test picks, and returns on every such list.
-/

import Mathlib.Data.List.Nodup

namespace EspOpenRtos.Math.LinkedList

variable {T : Type*}

/-- What the `next` field of a node can hold. -/
inductive Link (T : Type*) where
  | unlinked
  | listEnd
  | node (t : T)
  deriving DecidableEq, Repr

/-- The link that leads to a list: to its first node, or to the end. -/
def linkTo : List T → Link T
  | [] => .listEnd
  | t :: _ => .node t

/-- Following links from `link` passes the nodes of the list and then the end. -/
def Chain (next : T → Link T) : Link T → List T → Prop
  | link, [] => link = .listEnd
  | link, t :: rest => link = .node t ∧ Chain next (next t) rest

/-- Follow links while the test fails. The answer is the last node passed, if
any, and the link at which the walk stopped; there is none when the walk meets an
unlinked mark or does not stop within `fuel` nodes. -/
def walk (next : T → Link T) (stop : T → Bool) : ℕ → Option T → Link T →
    Option (Option T × Link T)
  | 0, _, _ => none
  | _ + 1, prev, .listEnd => some (prev, .listEnd)
  | _ + 1, _, .unlinked => none
  | fuel + 1, prev, .node t =>
    if stop t then some (prev, .node t) else walk next stop fuel (some t) (next t)

theorem linkTo_ne_unlinked (L : List T) : linkTo L ≠ .unlinked := by
  cases L <;> simp [linkTo]

variable [DecidableEq T]

/-- The link a node carries when exactly the nodes of the list are linked. -/
def nextIn : List T → T → Link T
  | [], _ => .unlinked
  | x :: rest, t => if t = x then linkTo rest else nextIn rest t

theorem nextIn_eq_unlinked {L : List T} {t : T} : nextIn L t = .unlinked ↔ t ∉ L := by
  induction L with
  | nil => simp [nextIn]
  | cons x rest ih =>
    by_cases htx : t = x
    · simp [nextIn, htx, linkTo_ne_unlinked]
    · simp [nextIn, htx, ih]

/-- A node links to what follows it. -/
theorem nextIn_self {A B : List T} {t : T} (ht : t ∉ A) :
    nextIn (A ++ t :: B) t = linkTo B := by
  induction A with
  | nil => simp [nextIn]
  | cons a A ih =>
    rw [List.cons_append, nextIn, if_neg (List.ne_of_not_mem_cons ht),
      ih (List.not_mem_of_not_mem_cons ht)]

/-- The last node before a cut links to what follows the cut. -/
theorem nextIn_of_getLast {A B : List T} {x : T} (nodup : A.Nodup)
    (hx : A.getLast? = some x) : nextIn (A ++ B) x = linkTo B := by
  obtain ⟨before, rfl⟩ := List.getLast?_eq_some_iff.mp hx
  have hnot : x ∉ before := fun hmem =>
    List.disjoint_of_nodup_append nodup hmem (List.mem_singleton_self x)
  rw [List.append_assoc]
  exact nextIn_self hnot

/-- Putting `t` between two parts changes its own link and the one before it. -/
theorem nextIn_insert {A B : List T} {t x : T} (nodup : A.Nodup) :
    nextIn (A ++ t :: B) x =
      if x = t ∧ t ∉ A then linkTo B
      else if A.getLast? = some x then .node t
      else nextIn (A ++ B) x := by
  induction A with
  | nil => simp [nextIn]
  | cons a A ih =>
    have hnodup := List.nodup_cons.mp nodup
    by_cases hxa : x = a
    · subst hxa
      have hself : ¬ (x = t ∧ t ∉ x :: A) := fun ⟨hxt, hnot⟩ =>
        hnot (hxt ▸ List.mem_cons_self)
      rw [if_neg hself]
      cases A with
      | nil => simp [nextIn, linkTo]
      | cons a' A =>
        have hlast : (x :: a' :: A).getLast? ≠ some x := fun hlast => by
          rw [List.getLast?_cons_cons] at hlast
          exact hnodup.1 (List.mem_of_getLast? hlast)
        rw [if_neg hlast]
        simp [nextIn, linkTo]
    · have hlast : (a :: A).getLast? = some x ↔ A.getLast? = some x := by
        cases A with
        | nil => simp [Ne.symm hxa]
        | cons a' A => rw [List.getLast?_cons_cons]
      have hmem : (x = t ∧ t ∉ a :: A) ↔ (x = t ∧ t ∉ A) := by
        constructor
        · exact fun ⟨hxt, hnot⟩ => ⟨hxt, fun hin => hnot (List.mem_cons_of_mem a hin)⟩
        · rintro ⟨rfl, hnot⟩
          exact ⟨rfl, List.not_mem_cons_of_ne_of_not_mem hxa hnot⟩
      simp only [List.cons_append, nextIn, if_neg hxa, ih hnodup.2, hlast, hmem]

/-- Taking `t` out of a list changes its own link and the one before it. -/
theorem nextIn_remove {A B : List T} {t x : T} (nodup : (A ++ t :: B).Nodup) :
    nextIn (A ++ B) x =
      if x = t then .unlinked
      else if A.getLast? = some x then linkTo B
      else nextIn (A ++ t :: B) x := by
  have hmiddle := List.nodup_middle.mp nodup
  by_cases hxt : x = t
  · rw [if_pos hxt, hxt]
    exact nextIn_eq_unlinked.mpr (List.nodup_cons.mp hmiddle).1
  have hA := (List.nodup_append.mp nodup).1
  rw [if_neg hxt]
  split
  case isTrue hlast => exact nextIn_of_getLast hA hlast
  case isFalse hlast => rw [nextIn_insert hA, if_neg (fun h => hxt h.1), if_neg hlast]

/-- Links that fit a list of distinct nodes lead through it. -/
theorem chain_of_nextIn {next : T → Link T} {L : List T} (nodup : L.Nodup)
    (hnext : ∀ t ∈ L, next t = nextIn L t) : Chain next (linkTo L) L := by
  -- Over the part still ahead, whose links are those of the whole list.
  suffices h : ∀ A B : List T, L = A ++ B → Chain next (linkTo B) B from h [] L rfl
  intro A B hL
  induction B generalizing A with
  | nil => rfl
  | cons t rest ih =>
    refine ⟨rfl, ?_⟩
    have ht : t ∉ A := fun hmem =>
      List.disjoint_of_nodup_append (hL ▸ nodup) hmem List.mem_cons_self
    rw [hnext t (hL ▸ List.mem_append_right A List.mem_cons_self), hL, nextIn_self ht]
    exact ih (A ++ [t]) (by rw [hL, List.append_assoc, List.singleton_append])

/-- A walk over the links of a list stops where the test first holds. -/
theorem walk_eq {next : T → Link T} (stop : T → Bool) {L : List T} (nodup : L.Nodup)
    (hnext : ∀ t, next t = nextIn L t) {A B : List T} (hL : L = A ++ B) {fuel : ℕ}
    (hfuel : B.length < fuel) :
    walk next stop fuel A.getLast? (linkTo B) =
      some ((A ++ B.takeWhile (!stop ·)).getLast?, linkTo (B.dropWhile (!stop ·))) := by
  induction B generalizing A fuel with
  | nil =>
    obtain ⟨fuel, rfl⟩ := Nat.exists_eq_succ_of_ne_zero (Nat.ne_of_gt hfuel)
    simp [walk, linkTo]
  | cons t rest ih =>
    obtain ⟨fuel, rfl⟩ := Nat.exists_eq_succ_of_ne_zero (Nat.ne_zero_of_lt hfuel)
    by_cases hstop : stop t
    · simp [walk, linkTo, hstop]
    · have ht : t ∉ A := fun hmem =>
        List.disjoint_of_nodup_append (hL ▸ nodup) hmem List.mem_cons_self
      have hlast : (A ++ [t]).getLast? = some t := by simp
      have hlink : next t = linkTo rest := by rw [hnext, hL, nextIn_self ht]
      have hsplit : L = (A ++ [t]) ++ rest := by
        rw [hL, List.append_assoc, List.singleton_append]
      have hrest := ih hsplit (Nat.lt_of_succ_lt_succ hfuel)
      rw [hlast] at hrest
      rw [linkTo, walk, if_neg hstop, hlink, hrest]
      simp [hstop, List.append_assoc]

end EspOpenRtos.Math.LinkedList
